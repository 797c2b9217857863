/-
  Subject:   HOW A DATAGRAM GETS OUT OF THE CHIP (the first half of `processPacket` in tftp.c).

  The W5100 keeps what socket 3 receives in a ring of 2048 bytes, from 0x7800 on: for each datagram the
  sender's address and port, the length, the payload. The read pointer runs on in 16 bits. `processPacket`
  takes it modulo the size of the ring if it is greater than the size; then it fetches the length behind
  it, without looking at the end of the ring; then it copies, and starts over at the end.

  * `firstPointer`, `udpPacketSize`, `readLoop`, `fetchPacket` -- the source, in its 16 bits;
  * `ReadRight` -- the length and the bytes are those of the ring from the read pointer on;
  * **`readRight_iff`** -- at which pointers and lengths that is so; `straddling_misread` -- a header at the
    end of the ring;
  * `LengthsFit`, **`lengths_in_range`** -- which lengths the buffer and the decoder can take;
    `lengths_out_of_range` -- lengths they cannot;
  * `fetchPacket_datagram` -- what is fetched is the `Datagram` of the server.
-/
import SmartHome.Bootloader.Tftp

namespace SmartHome.Bootloader

/-! ## 1. The source -/

/-- `S3_RX_START`. -/
def s3RxStart : Nat := 0x7800

/-- `S3_RX_END`. -/
def s3RxEnd : Nat := 0x8000

/-- `netReadReg`: the address has 16 bits. -/
def netReadReg (mem : Nat → UInt8) (address : Nat) : UInt8 := mem (address % 65536)

/-- `readPointer` before the packet is read. -/
def firstPointer (r : UInt16) : Nat := if r.toNat > 0x800 then r.toNat &&& 0x7FF else r.toNat

/-- Where the two bytes of the length are read from. -/
def lengthAddress (r : UInt16) (i : Nat) : Nat := firstPointer r + s3RxStart + i

/-- The length that is read. -/
def lengthRead (mem : Nat → UInt8) (r : UInt16) : Nat :=
  (netReadReg mem (lengthAddress r 6)).toNat * 256 + (netReadReg mem (lengthAddress r 7)).toNat

/-- `UDPPacketSize`, in 16 bits. -/
def udpPacketSize (mem : Nat → UInt8) (r : UInt16) : Nat := (lengthRead mem r + 8) % 65536

/-- The loop that reads the packet: the addresses, in order. -/
def readLoop : Nat → Nat → List Nat
  | 0, _ => []
  | count + 1, readPointer =>
    let next := (readPointer + 1) % 65536
    (s3RxStart + readPointer) :: readLoop count (if next = 0x800 then 0 else next)

/-- `count=UDPPacketSize+1`, in 16 bits. -/
def readCount (mem : Nat → UInt8) (r : UInt16) : Nat := (udpPacketSize mem r + 1) % 65536

/-- The addresses the packet is read from. -/
def packetAddresses (mem : Nat → UInt8) (r : UInt16) : List Nat := readLoop (readCount mem r) (firstPointer r)

/-- What is stored from `buffer` on. -/
def fetchPacket (mem : Nat → UInt8) (r : UInt16) : Bytes := (packetAddresses mem r).map (netReadReg mem)

/-- The value written back to `REG_S3_RX_RD0`. -/
def nextPointer (mem : Nat → UInt8) (r : UInt16) : Nat := (udpPacketSize mem r + r.toNat) % 65536

/-- `tftpOpcode`; bytes that were not fetched are what the stack held. -/
def tftpOpcode (mem : Nat → UInt8) (r : UInt16) (stack : Nat → UInt8) : Nat :=
  ((fetchPacket mem r).getD 8 (stack 8)).toNat * 256 + ((fetchPacket mem r).getD 9 (stack 9)).toNat

/-- `UDPPacketSize-12`, in 16 bits: the length of the package. -/
def packageLength (mem : Nat → UInt8) (r : UInt16) : Nat := (udpPacketSize mem r + 65536 - 12) % 65536

/-! ## 2. The ring -/

/-- A byte of the ring. -/
def ringByte (mem : Nat → UInt8) (i : Nat) : UInt8 := mem (s3RxStart + i % 2048)

/-- The length of the datagram at the read pointer. -/
def ringLength (mem : Nat → UInt8) (r : UInt16) : Nat :=
  (ringByte mem (r.toNat + 6)).toNat * 256 + (ringByte mem (r.toNat + 7)).toNat

/-- **The packet is read right**: its length from the two bytes of the ring, its bytes from the ring on, and
    nothing from elsewhere. -/
structure ReadRight (mem : Nat → UInt8) (r : UInt16) : Prop where
  high : lengthAddress r 6 = s3RxStart + (r.toNat + 6) % 2048
  low : lengthAddress r 7 = s3RxStart + (r.toNat + 7) % 2048
  bytes : ∀ i < ringLength mem r + 8, (fetchPacket mem r)[i]? = some (ringByte mem (r.toNat + i))
  inside : ∀ a ∈ packetAddresses mem r, s3RxStart ≤ a ∧ a < s3RxEnd

theorem firstPointer_eq (r : UInt16) : firstPointer r = if r.toNat = 2048 then 2048 else r.toNat % 2048 := by
  have hand : r.toNat &&& 0x7FF = r.toNat % 2048 := Nat.and_two_pow_sub_one_eq_mod r.toNat 11
  unfold firstPointer
  rw [hand]
  split
  · rw [if_neg (by omega)]
  · split
    · assumption
    · exact (Nat.mod_eq_of_lt (by omega)).symm

theorem firstPointer_lt {r : UInt16} (h : r.toNat ≠ 2048) : firstPointer r = r.toNat % 2048 := by
  rw [firstPointer_eq, if_neg h]

/-! ## 3. The loop -/

/-- From inside the ring the loop reads along the ring. -/
theorem readLoop_getElem (count p i : Nat) (hp : p < 2048) (hi : i < count) :
    (readLoop count p)[i]? = some (s3RxStart + (p + i) % 2048) := by
  induction count generalizing p i with
  | zero => exact absurd hi (Nat.not_lt_zero i)
  | succ count ih =>
    have hnext : (if (p + 1) % 65536 = 0x800 then 0 else (p + 1) % 65536) = (p + 1) % 2048 := by
      split <;> omega
    unfold readLoop
    simp only [hnext]
    cases i with
    | zero =>
      rw [List.getElem?_cons_zero, Nat.add_zero, Nat.mod_eq_of_lt hp]
    | succ i =>
      rw [List.getElem?_cons_succ, ih _ i (Nat.mod_lt _ (by omega)) (by omega), Nat.mod_add_mod]
      congr 3
      omega

theorem length_readLoop (count p : Nat) : (readLoop count p).length = count := by
  induction count generalizing p with
  | zero => rfl
  | succ count ih =>
    unfold readLoop
    rw [List.length_cons, ih]

theorem length_fetchPacket (mem : Nat → UInt8) (r : UInt16) : (fetchPacket mem r).length = readCount mem r := by
  unfold fetchPacket packetAddresses
  rw [List.length_map, length_readLoop]

/-- It does not leave the ring. -/
theorem readLoop_inside (count p : Nat) (hp : p < 2048) : ∀ a ∈ readLoop count p, s3RxStart ≤ a ∧ a < s3RxEnd := by
  intro a ha
  obtain ⟨i, hi, rfl⟩ := List.getElem_of_mem ha
  have hat := readLoop_getElem count p i hp (by rwa [length_readLoop] at hi)
  rw [List.getElem?_eq_getElem hi] at hat
  rw [Option.some.inj hat]
  unfold s3RxStart s3RxEnd
  omega

section Pointer

variable {mem : Nat → UInt8} {r : UInt16}

theorem netReadReg_ring (i : Nat) : netReadReg mem (s3RxStart + i % 2048) = ringByte mem i := by
  unfold netReadReg ringByte s3RxStart
  congr 1
  omega

theorem fetchPacket_getElem (h : r.toNat ≠ 2048) {i : Nat} (hi : i < readCount mem r) :
    (fetchPacket mem r)[i]? = some (ringByte mem (r.toNat + i)) := by
  have hp : firstPointer r = r.toNat % 2048 := firstPointer_lt h
  unfold fetchPacket packetAddresses
  rw [List.getElem?_map, hp, readLoop_getElem _ _ i (Nat.mod_lt _ (by omega)) hi, Option.map_some, Nat.mod_add_mod,
    netReadReg_ring]

/-- Where the length is in front of the end of the ring, it is read right. -/
theorem lengthAddress_eq (h : r.toNat ≠ 2048) (hr : r.toNat % 2048 ≤ 2040) {i : Nat} (hi : i ≤ 7) :
    lengthAddress r i = s3RxStart + (r.toNat + i) % 2048 := by
  unfold lengthAddress
  rw [firstPointer_lt h]
  omega

theorem lengthRead_eq (h : r.toNat ≠ 2048) (hr : r.toNat % 2048 ≤ 2040) : lengthRead mem r = ringLength mem r := by
  unfold lengthRead ringLength
  rw [lengthAddress_eq h hr (by omega), lengthAddress_eq h hr (by omega), netReadReg_ring, netReadReg_ring]

end Pointer

theorem ringLength_lt (mem : Nat → UInt8) (r : UInt16) : ringLength mem r < 65536 := by
  have hhigh := (ringByte mem (r.toNat + 6)).toNat_lt
  have hlow := (ringByte mem (r.toNat + 7)).toNat_lt
  unfold ringLength
  omega

theorem lengthRead_lt (mem : Nat → UInt8) (r : UInt16) : lengthRead mem r < 65536 := by
  have hhigh := (netReadReg mem (lengthAddress r 6)).toNat_lt
  have hlow := (netReadReg mem (lengthAddress r 7)).toNat_lt
  unfold lengthRead
  omega

/-! ## 4. Where the packet is read right -/

/-- **When the ring is read right**, for every read pointer and every content of the chip: the pointer is not
    exactly 2048, the header does not straddle the end of the ring in front of its last byte, and the
    length leaves room for the 16 bits of the counter. -/
theorem readRight_iff (mem : Nat → UInt8) (r : UInt16) :
    ReadRight mem r ↔ r.toNat ≠ 2048 ∧ r.toNat % 2048 ≤ 2040 ∧ ringLength mem r ≤ 65526 := by
  constructor
  · intro h
    have hlow := h.low
    unfold lengthAddress at hlow
    rw [firstPointer_eq] at hlow
    have hne : r.toNat ≠ 2048 := by
      intro heq
      rw [if_pos heq] at hlow
      omega
    rw [if_neg hne] at hlow
    have hr : r.toNat % 2048 ≤ 2040 := by omega
    refine ⟨hne, hr, ?_⟩
    -- all bytes of the datagram were read, so there were that many rounds
    by_contra hlong
    have hlt := ringLength_lt mem r
    have hcount : readCount mem r ≤ 8 := by
      unfold readCount udpPacketSize
      rw [lengthRead_eq hne hr]
      omega
    have hlast := h.bytes 8 (by omega)
    rw [List.getElem?_eq_none (by rw [length_fetchPacket]; exact hcount)] at hlast
    exact absurd hlast (Option.some_ne_none _).symm
  · rintro ⟨hne, hr, hlen⟩
    have hcount : readCount mem r = ringLength mem r + 9 := by
      unfold readCount udpPacketSize
      rw [lengthRead_eq hne hr]
      omega
    refine ⟨lengthAddress_eq hne hr (by omega), lengthAddress_eq hne hr (by omega), fun i hi => ?_, ?_⟩
    · exact fetchPacket_getElem hne (by omega)
    · unfold packetAddresses
      rw [firstPointer_lt hne]
      exact readLoop_inside _ _ (Nat.mod_lt _ (by omega))

/-- A ring that holds, from 2041 on, the header of a datagram of 256 bytes; the chip has nothing behind the
    ring. -/
def straddlingRing (address : Nat) : UInt8 := if address = 0x7FFF then 1 else if address = 0x8000 then 0xFF else 0

/-- **A header at the end of the ring**: the second byte of the length is read behind the ring, and 255 bytes
    too many are taken for the datagram. -/
theorem straddling_misread :
    ringLength straddlingRing 2041 = 256 ∧ lengthAddress 2041 7 = s3RxEnd ∧
      udpPacketSize straddlingRing 2041 = 256 + 255 + 8 ∧ ¬ ReadRight straddlingRing 2041 := by
  refine ⟨by decide, by decide, by decide, fun h => ?_⟩
  exact absurd h.low (by decide)

/-! ## 5. Lengths -/

/-- **The lengths are in range**: no more than `TFTP_PACKET_MAX_SIZE` bytes are stored, and a package is as
    long as the data of its datagram, at most 512 bytes. -/
structure LengthsFit (mem : Nat → UInt8) (r : UInt16) (stack : Nat → UInt8) : Prop where
  stored : (fetchPacket mem r).length ≤ 528
  package : tftpOpcode mem r stack = 3 →
    4 ≤ ringLength mem r ∧ packageLength mem r = ringLength mem r - 4 ∧ packageLength mem r ≤ 512

section Lengths

variable (mem : Nat → UInt8) (r : UInt16)

theorem stored_iff : (fetchPacket mem r).length ≤ 528 ↔ lengthRead mem r ≤ 519 ∨ 65527 ≤ lengthRead mem r := by
  have hlt := lengthRead_lt mem r
  rw [length_fetchPacket]
  unfold readCount udpPacketSize
  omega

theorem packageLength_iff (hheld : ringLength mem r ≤ 2040) :
    4 ≤ ringLength mem r ∧ packageLength mem r = ringLength mem r - 4 ∧ packageLength mem r ≤ 512 ↔
      lengthRead mem r = ringLength mem r ∧ 4 ≤ ringLength mem r ∧ ringLength mem r ≤ 516 := by
  have hlt := lengthRead_lt mem r
  unfold packageLength udpPacketSize
  omega

theorem lengthsFit_iff (stack : Nat → UInt8) (hheld : ringLength mem r ≤ 2040) :
    LengthsFit mem r stack ↔ (lengthRead mem r ≤ 519 ∨ 65527 ≤ lengthRead mem r) ∧ (tftpOpcode mem r stack = 3 →
          lengthRead mem r = ringLength mem r ∧ 4 ≤ ringLength mem r ∧ ringLength mem r ≤ 516) := by
  constructor
  · exact fun h => ⟨(stored_iff mem r).mp h.stored, fun hdata => (packageLength_iff mem r hheld).mp (h.package hdata)⟩
  · exact fun h => ⟨(stored_iff mem r).mpr h.1, fun hdata => (packageLength_iff mem r hheld).mpr (h.2 hdata)⟩

end Lengths

/-- **Which lengths the buffer and the decoder can take**, for every datagram the ring can hold. Where the
    length is read right: at most 519 bytes of payload, and from 4 to 516 of a DATA datagram. Wherever the
    read pointer is: the same of the length that is read, which has to be that of the datagram; and
    the counter may wrap. -/
theorem lengths_in_range (mem : Nat → UInt8) (r : UInt16) (stack : Nat → UInt8) (hheld : ringLength mem r ≤ 2040) :
    (r.toNat ≠ 2048 → r.toNat % 2048 ≤ 2040 → (LengthsFit mem r stack ↔ ringLength mem r ≤ 519 ∧
          (tftpOpcode mem r stack = 3 → 4 ≤ ringLength mem r ∧ ringLength mem r ≤ 516))) ∧ (LengthsFit mem r stack ↔
      (lengthRead mem r ≤ 519 ∨ 65527 ≤ lengthRead mem r) ∧ (tftpOpcode mem r stack = 3 →
          lengthRead mem r = ringLength mem r ∧ 4 ≤ ringLength mem r ∧ ringLength mem r ≤ 516)) := by
  have hiff := lengthsFit_iff mem r stack hheld
  refine ⟨fun hne hr => ?_, hiff⟩
  have hread : lengthRead mem r = ringLength mem r := lengthRead_eq hne hr
  rw [hiff, hread]
  constructor
  · rintro ⟨hlen, hdata⟩
    exact ⟨by omega, fun h => (hdata h).2⟩
  · rintro ⟨hlen, hdata⟩
    exact ⟨.inl hlen, fun h => ⟨rfl, hdata h⟩⟩

/-- A ring with a datagram at 0: its length, and opcode DATA. -/
def dataRing (length : Nat) (address : Nat) : UInt8 :=
  if address = 0x7806 then UInt8.ofNat (length / 256)
  else if address = 0x7807 then UInt8.ofNat length
  else if address = 0x7809 then 3 else 0

theorem lengths_in_range_full : ringLength (dataRing 516) 0 ≤ 2040 ∧ (LengthsFit (dataRing 516) 0 (fun _ => 0) ↔
      ringLength (dataRing 516) 0 ≤ 519 ∧ (tftpOpcode (dataRing 516) 0 (fun _ => 0) = 3 →
          4 ≤ ringLength (dataRing 516) 0 ∧ ringLength (dataRing 516) 0 ≤ 516)) :=
  ⟨by decide, (lengths_in_range (dataRing 516) 0 (fun _ => 0) (by decide)).1 (by decide) (by decide)⟩

/-- **A payload of 520 bytes** is one byte more than the buffer holds; **a DATA datagram of two bytes** hands
    65534 bytes to the decoder. -/
theorem lengths_out_of_range :
    ringLength (dataRing 520) 0 = 520 ∧ (fetchPacket (dataRing 520) 0).length = 529 ∧
      ringLength (dataRing 2) 0 = 2 ∧ tftpOpcode (dataRing 2) 0 (fun _ => 0) = 3 ∧
      packageLength (dataRing 2) 0 = 65534 := by
  refine ⟨by decide, ?_, by decide, by decide, by decide⟩
  rw [length_fetchPacket]
  decide

/-! ## 6. The datagrams of the server -/

/-- **What is fetched is the datagram**: where the ring is read right and holds a datagram, the buffer holds
    the bytes the server's model gives it, the length is the same, and the read pointer moves past it. -/
theorem fetchPacket_datagram (dg : Datagram) {mem : Nat → UInt8} {r : UInt16} (hne : r.toNat ≠ 2048)
    (hr : r.toNat % 2048 ≤ 2040) (hheld : ∀ i < dg.payload.length + 8, ringByte mem (r.toNat + i) = dg.buffer i) :
    udpPacketSize mem r = dg.udpPacketSize ∧
      (∀ i < dg.payload.length + 8, (fetchPacket mem r)[i]? = some (dg.buffer i)) ∧
      nextPointer mem r = (r.toNat + (dg.payload.length + 8)) % 65536 := by
  have hlen : lengthRead mem r = (dg.buffer 6).toNat * 256 + (dg.buffer 7).toNat := by
    rw [lengthRead_eq hne hr]
    unfold ringLength
    rw [hheld 6 (by omega), hheld 7 (by omega)]
  have hsize : udpPacketSize mem r = dg.udpPacketSize := by
    unfold udpPacketSize Datagram.udpPacketSize
    rw [hlen]
  refine ⟨hsize, fun i hi => ?_, by rw [nextPointer, hsize, dg.udpPacketSize_eq, Nat.add_comm]⟩
  have hcount : i < readCount mem r := by
    have hfits := dg.fits
    unfold readCount
    rw [hsize, dg.udpPacketSize_eq]
    omega
  rw [fetchPacket_getElem hne hcount, hheld i hi]

end SmartHome.Bootloader
