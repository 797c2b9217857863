/-
  Subject:   THE TFTP SERVER (tftp.c, tftp_main.c) as a machine that polls.

  One round of `tftp_main` polls the socket once and then looks at the timer. What comes in is an
  event: perhaps a datagram, perhaps a tick of the timer. The server runs until a poll returns 0.

  * `Datagram`, `Datagram.buffer` -- a datagram as `processPacket` has it in its buffer;
  * `processPacket`, `sendResponse`, `tftpInit`, `timedOut`, `tftpPoll`, `updateLed` -- the source;
  * `tftpNext` -- one round of the loop of `tftp_main`;
  * `tftpPoll_packet`, `tftpPoll_idle`, `tftpPoll_erase`, `tftpPoll_leave` -- the four things a poll
    can do, and `tftpNext_cases`, what a round that goes on has done.

  Three fields of the state are records of the run and nothing reads them: `answers`, what
  `ihex_package_process` has returned since `tftpInit`; `mark`, how many page operations there were
  when `tftpInit` ran; `handed`, the blocks handed to `ihex_package_process` since the last WRQ.
-/
import SmartHome.Bootloader.Calls
import SmartHome.Bootloader.Scan

namespace SmartHome.Bootloader

open SmartHome.Lib

/-! ## 1. Datagrams -/

/-- A datagram: the sender's address and port, the payload, and what the buffer and the memory
    behind it hold where the datagram does not reach. The buffer has 528 bytes, and the source
    copies one byte more than header and payload; a longer datagram overruns the stack. -/
structure Datagram where
  sender : Nat → UInt8
  payload : Bytes
  junk : Nat → UInt8
  fits : payload.length + 9 ≤ 528

/-- `buffer` of `processPacket`: address, port, length, payload. -/
def Datagram.buffer (dg : Datagram) (i : Nat) : UInt8 :=
  if i < 6 then dg.sender i
  else if i = 6 then UInt8.ofNat (dg.payload.length / 256)
  else if i = 7 then UInt8.ofNat dg.payload.length
  else dg.payload.getD (i - 8) (dg.junk i)

/-- `UDPPacketSize`, in 16 bits. -/
def Datagram.udpPacketSize (dg : Datagram) : Nat :=
  ((dg.buffer 6).toNat * 256 + (dg.buffer 7).toNat + 8) % 65536

/-- `UDPPacketSize-12`, in 16 bits. -/
def Datagram.dataSize (dg : Datagram) : Nat := (dg.udpPacketSize + 65536 - 12) % 65536

/-- `tftpBlock`. -/
def Datagram.block (dg : Datagram) : Nat := (dg.buffer 10).toNat * 256 + (dg.buffer 11).toNat

/-- The opcodes of RFC 1350, and all others. -/
inductive Opcode where
  | rrq
  | wrq
  | data
  | ack
  | error
  | other
  deriving DecidableEq

/-- The cases of the `switch` in `processPacket`. -/
def Datagram.opcode (dg : Datagram) : Opcode :=
  match (dg.buffer 8).toNat * 256 + (dg.buffer 9).toNat with
  | 1 => .rrq
  | 2 => .wrq
  | 3 => .data
  | 4 => .ack
  | 5 => .error
  | _ => .other

/-- The package handed to `ihex_package_process`: `UDPPacketSize-12` bytes from `buffer + 12` on. -/
def Datagram.package (dg : Datagram) : Bytes :=
  (List.range dg.dataSize).map fun i => dg.buffer (12 + i)

/-- A datagram is as long as its length field says. -/
theorem Datagram.udpPacketSize_eq (dg : Datagram) : dg.udpPacketSize = dg.payload.length + 8 := by
  have hfits := dg.fits
  have h6 : (dg.buffer 6).toNat = dg.payload.length / 256 % 256 := UInt8.toNat_ofNat'
  have h7 : (dg.buffer 7).toNat = dg.payload.length % 256 := UInt8.toNat_ofNat'
  unfold Datagram.udpPacketSize
  rw [h6, h7]
  omega

theorem Datagram.buffer_payload (dg : Datagram) (i : Nat) (h : i < dg.payload.length) :
    dg.buffer (8 + i) = dg.payload[i] := by
  unfold Datagram.buffer
  rw [if_neg (by omega), if_neg (by omega), if_neg (by omega), Nat.add_sub_cancel_left,
    List.getD_eq_getElem _ _ h]

theorem Datagram.dataSize_eq (dg : Datagram) (h : 4 ≤ dg.payload.length) :
    dg.dataSize = dg.payload.length - 4 := by
  have hfits := dg.fits
  unfold Datagram.dataSize
  rw [dg.udpPacketSize_eq]
  omega

/-- **The package is what stands behind opcode and block number**, and nothing else. -/
theorem Datagram.package_eq (dg : Datagram) (h : 4 ≤ dg.payload.length) : dg.package = dg.payload.drop 4 := by
  unfold Datagram.package
  rw [dg.dataSize_eq h]
  refine List.ext_getElem (by simp) fun i hi hi' => ?_
  rw [List.length_map, List.length_range] at hi
  rw [List.getElem_map, List.getElem_range, List.getElem_drop, ← dg.buffer_payload (4 + i) (by omega)]
  congr 1
  omega

/-- A DATA datagram with block number `n`. -/
def dataDatagram (sender junk : Nat → UInt8) (n : Nat) (data : Bytes) (h : data.length ≤ 512) : Datagram where
  sender := sender
  payload := 0 :: 3 :: UInt8.ofNat (n / 256) :: UInt8.ofNat n :: data
  junk := junk
  fits := by
    simp only [List.length_cons]
    omega

section DataDatagram

variable (sender junk : Nat → UInt8) (n : Nat) (data : Bytes) (h : data.length ≤ 512)

@[simp] theorem dataDatagram_opcode : (dataDatagram sender junk n data h).opcode = .data := by
  have h89 : ((dataDatagram sender junk n data h).buffer 8).toNat * 256 +
      ((dataDatagram sender junk n data h).buffer 9).toNat = 3 := by
    simp [Datagram.buffer, dataDatagram]
  unfold Datagram.opcode
  rw [h89]
  rfl

@[simp] theorem dataDatagram_block : (dataDatagram sender junk n data h).block = n % 65536 := by
  have h10 : (dataDatagram sender junk n data h).buffer 10 = UInt8.ofNat (n / 256) := rfl
  have h11 : (dataDatagram sender junk n data h).buffer 11 = UInt8.ofNat n := rfl
  unfold Datagram.block
  rw [h10, h11, UInt8.toNat_ofNat', UInt8.toNat_ofNat']
  omega

theorem dataDatagram_length : (dataDatagram sender junk n data h).payload.length = data.length + 4 := by
  simp [dataDatagram]

@[simp] theorem dataDatagram_package : (dataDatagram sender junk n data h).package = data := by
  rw [Datagram.package_eq _ (by rw [dataDatagram_length]; exact Nat.le_add_left 4 _)]
  simp [dataDatagram]

@[simp] theorem dataDatagram_dataSize : (dataDatagram sender junk n data h).dataSize = data.length := by
  rw [Datagram.dataSize_eq _ (by rw [dataDatagram_length]; exact Nat.le_add_left 4 _), dataDatagram_length,
    Nat.add_sub_cancel]

end DataDatagram

/-- A write request; the server does not look at its file name and mode. -/
def wrqDatagram (sender junk : Nat → UInt8) (request : Bytes) (h : request.length ≤ 512) : Datagram where
  sender := sender
  payload := 0 :: 2 :: request
  junk := junk
  fits := by
    simp only [List.length_cons]
    omega

@[simp] theorem wrqDatagram_opcode (sender junk : Nat → UInt8) (request : Bytes) (h : request.length ≤ 512) :
    (wrqDatagram sender junk request h).opcode = .wrq := by
  have h89 : ((wrqDatagram sender junk request h).buffer 8).toNat * 256 +
      ((wrqDatagram sender junk request h).buffer 9).toNat = 2 := by
    simp [Datagram.buffer, wrqDatagram]
  unfold Datagram.opcode
  rw [h89]
  rfl

/-! ## 2. The server -/

/-- The response codes of tftp.h. -/
inductive Response where
  | errorUnknown
  | errorInvalid
  | ack
  | errorFull
  | finalAck
  | invalidImage
  deriving DecidableEq

/-- The globals of the server, with the decoder and the flash. -/
structure Tftp where
  lastPacket : Nat
  downloadStarted : Bool
  tick : Nat
  port : Nat
  ihex : Ihex
  spm : Spm
  answers : List Int
  mark : Nat
  handed : List (Nat × Bytes)

/-- The state after the decoder has left `r` of a DATA datagram. -/
def Tftp.decoded (s : Tftp) (dg : Datagram) (r : Int × Ihex × Spm) : Tftp :=
  { s with
    lastPacket := dg.block
    ihex := r.2.1
    spm := r.2.2
    answers := s.answers ++ [r.1]
    handed := s.handed ++ [(dg.block, dg.package)] }

/-- The state after a DATA datagram was handed to the decoder. -/
def Tftp.handOver (s : Tftp) (dg : Datagram) : Tftp :=
  s.decoded dg (ihexPackageProcess s.ihex s.spm dg.package)

section HandOver

variable (s : Tftp) (dg : Datagram) (r : Int × Ihex × Spm)

theorem decoded_ihex : (s.decoded dg r).ihex = r.2.1 := rfl
theorem decoded_spm : (s.decoded dg r).spm = r.2.2 := rfl
theorem decoded_answers : (s.decoded dg r).answers = s.answers ++ [r.1] := rfl
theorem decoded_mark : (s.decoded dg r).mark = s.mark := rfl
theorem decoded_lastPacket : (s.decoded dg r).lastPacket = dg.block := rfl
theorem decoded_handed : (s.decoded dg r).handed = s.handed ++ [(dg.block, dg.package)] := rfl

@[simp] theorem handOver_ihex : (s.handOver dg).ihex = (ihexPackageProcess s.ihex s.spm dg.package).2.1 :=
  decoded_ihex s dg _
@[simp] theorem handOver_spm : (s.handOver dg).spm = (ihexPackageProcess s.ihex s.spm dg.package).2.2 :=
  decoded_spm s dg _
@[simp] theorem handOver_answers :
    (s.handOver dg).answers = s.answers ++ [(ihexPackageProcess s.ihex s.spm dg.package).1] :=
  decoded_answers s dg _
@[simp] theorem handOver_mark : (s.handOver dg).mark = s.mark := decoded_mark s dg _
@[simp] theorem handOver_lastPacket : (s.handOver dg).lastPacket = dg.block := decoded_lastPacket s dg _
@[simp] theorem handOver_handed : (s.handOver dg).handed = s.handed ++ [(dg.block, dg.package)] :=
  decoded_handed s dg _

end HandOver

/-- `processPacket`: the response code and the state. -/
def processPacket (dg : Datagram) (s : Tftp) : Response × Tftp :=
  match dg.opcode with
  | .wrq =>
    -- the new port is `(buffer[4]<<8) | ~buffer[5]`, with the upper byte of the complement set
    (.ack, { s with
      port := (dg.buffer 4).toNat * 256 ||| (65535 - (dg.buffer 5).toNat)
      lastPacket := 0
      handed := [] })
  | .data =>
    if (ihexPackageProcess s.ihex s.spm dg.package).1 < 0 then (.invalidImage, s.handOver dg)
    else if dg.dataSize < 512 then (.finalAck, s.handOver dg)
    else (.ack, s.handOver dg)
  | .ack => (.errorUnknown, s)
  | .error => (.errorUnknown, s)
  | .rrq => (.errorInvalid, s)
  | .other => (.errorInvalid, s)

/-- The text of an error packet: opcode 5, error code, message, terminating zero. -/
def errorPacket (code : UInt8) (message : Bytes) : Bytes := [0, 5, 0, code] ++ message ++ [0]

/-- The packet `sendResponse` puts together. -/
def sendResponse (lastPacket : Nat) : Response → Bytes
  | .errorUnknown => errorPacket 0 [0x45, 0x72, 0x72, 0x6F, 0x72]
  | .invalidImage =>
    errorPacket 0 [0x49, 0x6E, 0x76, 0x61, 0x6C, 0x69, 0x64, 0x20, 0x69, 0x6D, 0x61, 0x67, 0x65]
  | .errorInvalid => errorPacket 4 [0x4F, 0x70, 0x63, 0x6F, 0x64, 0x65, 0x3F]
  | .errorFull => errorPacket 3 [0x46, 0x6C, 0x61, 0x73, 0x68, 0x20, 0x46, 0x75, 0x6C, 0x6C]
  | .ack => [0, 4, UInt8.ofNat (lastPacket / 256), UInt8.ofNat lastPacket]
  | .finalAck => [0, 4, UInt8.ofNat (lastPacket / 256), UInt8.ofNat lastPacket]

/-- `tftpInit`. -/
def tftpInit (s : Tftp) : Tftp :=
  { s with
    lastPacket := 0
    downloadStarted := false
    port := 69
    ihex := ihexInit s.ihex
    answers := []
    mark := s.spm.log.length }

/-- `timedOut`: never while the first word of the flash is erased. -/
def timedOut (s : Tftp) : Bool :=
  if (s.spm.mem 0).toNat + 256 * (s.spm.mem 1).toNat = 0xFFFF then false else decide (28 < s.tick)

/-- What a poll leaves: its result, the state, the packet sent with its response code, and whether
    it has executed `boot_page_erase_safe(0)`. -/
structure Poll where
  ret : Nat
  s : Tftp
  response : Option Response
  sent : Option Bytes
  erased : Bool

/-- `DownloadStarted=1; ResetTick()`. -/
def Tftp.touched (s : Tftp) : Tftp := { s with downloadStarted := true, tick := 0 }

@[simp] theorem touched_spm (s : Tftp) : s.touched.spm = s.spm := rfl
@[simp] theorem touched_ihex (s : Tftp) : s.touched.ihex = s.ihex := rfl
@[simp] theorem touched_handed (s : Tftp) : s.touched.handed = s.handed := rfl

/-- The first half of `tftpPoll`: a datagram is processed and answered. -/
def pollPacket (s : Tftp) : Option Datagram → Option Response × Tftp
  | none => (none, s)
  | some dg =>
    let r := processPacket dg s
    (some r.1, r.2.touched)

/-- `tftpPoll`. -/
def tftpPoll (packet : Option Datagram) (s : Tftp) : Poll :=
  let r := pollPacket s packet
  let sent := r.1.map (sendResponse r.2.lastPacket)
  if r.1 = some .finalAck then ⟨0, r.2, r.1, sent, false⟩
  else if timedOut r.2 = true ∧ r.2.downloadStarted = true then
    ⟨1, tftpInit { r.2 with downloadStarted := false, spm := bootPageErase 0 r.2.spm }, r.1, sent, true⟩
  else if timedOut r.2 = true ∧ r.2.downloadStarted = false then ⟨0, r.2, r.1, sent, false⟩
  else ⟨1, r.2, r.1, sent, false⟩

/-- `updateLed`: the timer flag moves `tick` on, in 16 bits. -/
def updateLed (timer : Bool) (s : Tftp) : Tftp := if timer then { s with tick := (s.tick + 1) % 65536 } else s

/-- The globals of the server at a reset. -/
def resetTftp (f : Spm) : Tftp := ⟨0, false, 0, 0, Ihex.zero, f, [], 0, []⟩

/-- What one round of `tftp_main` meets. -/
structure Event where
  packet : Option Datagram
  timer : Bool

/-- One round of the loop of `tftp_main`; `none` when the poll returns 0 and the loop is left. -/
def tftpNext (s : Tftp) (e : Event) : Option Tftp :=
  let p := tftpPoll e.packet s
  if p.ret = 0 then none else some (updateLed e.timer p.s)

/-- `tftp_main` up to its loop. -/
def tftpStart (s : Tftp) : Tftp := tftpInit { s with tick := 0, handed := [] }

/-! ## 3. What a poll can do -/

-- what a call does is looked up in its lemmas, never computed
attribute [local irreducible] ihexPackageProcess

section Cases

variable {s : Tftp}

/-- A poll with a datagram: the timer is reset, so it does not run out in the same poll. -/
theorem tftpPoll_packet (dg : Datagram) (s : Tftp) :
    tftpPoll (some dg) s = ⟨if (processPacket dg s).1 = .finalAck then 0 else 1,
        (processPacket dg s).2.touched, some (processPacket dg s).1,
        some (sendResponse (processPacket dg s).2.lastPacket (processPacket dg s).1), false⟩ := by
  have ht : timedOut (processPacket dg s).2.touched = false := by
    unfold timedOut
    split <;> rfl
  unfold tftpPoll pollPacket
  simp only [ht, Option.map_some, Option.some.injEq, Bool.false_eq_true, false_and, if_false]
  split <;> rfl

theorem tftpPoll_idle (h : timedOut s = false) : tftpPoll none s = ⟨1, s, none, none, false⟩ := by
  unfold tftpPoll pollPacket
  simp [h]

theorem tftpPoll_erase (h : timedOut s = true) (hd : s.downloadStarted = true) :
    tftpPoll none s = ⟨1, tftpInit { s with downloadStarted := false, spm := bootPageErase 0 s.spm },
      none, none, true⟩ := by
  unfold tftpPoll pollPacket
  simp [h, hd]

theorem tftpPoll_leave (h : timedOut s = true) (hd : s.downloadStarted = false) :
    tftpPoll none s = ⟨0, s, none, none, false⟩ := by
  unfold tftpPoll pollPacket
  simp [h, hd]

/-- A DATA datagram. -/
theorem processPacket_data {dg : Datagram} (h : dg.opcode = .data) (s : Tftp) :
    processPacket dg s = (if (ihexPackageProcess s.ihex s.spm dg.package).1 < 0 then .invalidImage
        else if dg.dataSize < 512 then .finalAck else .ack, s.handOver dg) := by
  unfold processPacket
  rw [h]
  simp only
  split
  · rfl
  · split
    · rfl
    · rfl

theorem tftpPoll_data {dg : Datagram} (h : dg.opcode = .data) (s : Tftp) :
    (tftpPoll (some dg) s).s = (s.handOver dg).touched := by
  rw [tftpPoll_packet, processPacket_data h]

/-- A write request. -/
theorem processPacket_wrq {dg : Datagram} (h : dg.opcode = .wrq) (s : Tftp) :
    (processPacket dg s).1 = .ack ∧ (processPacket dg s).2.lastPacket = 0 ∧ (processPacket dg s).2.handed = [] := by
  unfold processPacket
  rw [h]
  exact ⟨rfl, rfl, rfl⟩

/-- **Any other datagram** leaves decoder and flash alone and is not the end of a transfer. -/
theorem processPacket_other {dg : Datagram} (h : dg.opcode ≠ .data) (s : Tftp) :
    (processPacket dg s).1 ≠ .finalAck ∧ (processPacket dg s).2.ihex = s.ihex ∧
      (processPacket dg s).2.spm = s.spm ∧ (processPacket dg s).2.answers = s.answers ∧
      (processPacket dg s).2.mark = s.mark := by
  unfold processPacket
  cases ho : dg.opcode with
  | data => exact absurd ho h
  | _ => exact ⟨Response.noConfusion, rfl, rfl, rfl, rfl⟩

end Cases

/-! ## 4. What a round can do -/

/-- What the decoder has made of the run, and the flash: all that the datagrams change. -/
structure SameFlash (s s' : Tftp) : Prop where
  ihex : s'.ihex = s.ihex
  spm : s'.spm = s.spm
  answers : s'.answers = s.answers
  mark : s'.mark = s.mark

theorem updateLed_same (timer : Bool) (s : Tftp) :
    SameFlash s (updateLed timer s) ∧ (updateLed timer s).downloadStarted = s.downloadStarted := by
  unfold updateLed
  split <;> exact ⟨⟨rfl, rfl, rfl, rfl⟩, rfl⟩

theorem SameFlash.refl (s : Tftp) : SameFlash s s := ⟨rfl, rfl, rfl, rfl⟩

theorem touched_same (s : Tftp) : SameFlash s s.touched := ⟨rfl, rfl, rfl, rfl⟩

theorem SameFlash.trans {a b c : Tftp} (h : SameFlash a b) (h' : SameFlash b c) : SameFlash a c :=
  ⟨h'.ihex.trans h.ihex, h'.spm.trans h.spm, h'.answers.trans h.answers, h'.mark.trans h.mark⟩

/-- **What a poll that returns 0 has seen**: a short DATA datagram that the decoder has not refused,
    or a timeout with no datagram since `tftpInit`. -/
theorem tftpPoll_zero {packet : Option Datagram} {s : Tftp} (h : (tftpPoll packet s).ret = 0) :
    (∃ dg, packet = some dg ∧ dg.opcode = .data ∧ dg.dataSize < 512 ∧
        0 ≤ (ihexPackageProcess s.ihex s.spm dg.package).1 ∧ (tftpPoll packet s).s = (s.handOver dg).touched) ∨
      (packet = none ∧ timedOut s = true ∧ s.downloadStarted = false ∧ (tftpPoll packet s).s = s) := by
  cases packet with
  | none =>
    right
    cases ht : timedOut s with
    | false =>
      rw [tftpPoll_idle ht] at h
      exact absurd h Nat.one_ne_zero
    | true =>
      cases hd : s.downloadStarted with
      | true =>
        rw [tftpPoll_erase ht hd] at h
        exact absurd h Nat.one_ne_zero
      | false => exact ⟨rfl, rfl, rfl, by rw [tftpPoll_leave ht hd]⟩
  | some dg =>
    left
    rw [tftpPoll_packet] at h ⊢
    have hfinal : (processPacket dg s).1 = .finalAck := by
      by_cases hf : (processPacket dg s).1 = .finalAck
      · exact hf
      · simp only [if_neg hf] at h
        exact absurd h Nat.one_ne_zero
    by_cases hop : dg.opcode = .data
    · rw [processPacket_data hop] at hfinal ⊢
      simp only at hfinal ⊢
      split at hfinal
      · exact Response.noConfusion hfinal
      · rename_i hneg
        split at hfinal
        · rename_i hshort
          exact ⟨dg, rfl, hop, hshort, Int.not_lt.mp hneg, rfl⟩
        · exact Response.noConfusion hfinal
    · exact absurd hfinal (processPacket_other hop s).1

/-- **What a poll has done**: handed a DATA datagram to the decoder; or touched neither decoder nor
    flash; or erased page 0 on a timeout and begun anew. -/
theorem tftpPoll_cases (packet : Option Datagram) (s : Tftp) :
    (∃ dg, packet = some dg ∧ dg.opcode = .data ∧ SameFlash (s.handOver dg) (tftpPoll packet s).s ∧
        (tftpPoll packet s).s.downloadStarted = true) ∨
      (SameFlash s (tftpPoll packet s).s ∧ (∀ dg, packet = some dg → dg.opcode ≠ .data) ∧
        (tftpPoll packet s).s.downloadStarted = (s.downloadStarted || packet.isSome)) ∨
      (packet = none ∧ timedOut s = true ∧ s.downloadStarted = true ∧
        SameFlash (tftpInit { s with downloadStarted := false, spm := bootPageErase 0 s.spm })
          (tftpPoll packet s).s ∧
        (tftpPoll packet s).s.downloadStarted = false) := by
  cases packet with
  | none =>
    have hno : ∀ dg, (none : Option Datagram) = some dg → dg.opcode ≠ .data := fun dg hdg =>
      absurd hdg (Option.some_ne_none dg).symm
    cases ht : timedOut s with
    | false =>
      rw [tftpPoll_idle ht]
      exact Or.inr (Or.inl ⟨SameFlash.refl s, hno, (Bool.or_false _).symm⟩)
    | true =>
      cases hd : s.downloadStarted with
      | true =>
        rw [tftpPoll_erase ht hd]
        exact Or.inr (Or.inr ⟨rfl, rfl, rfl, SameFlash.refl _, rfl⟩)
      | false =>
        rw [tftpPoll_leave ht hd]
        exact Or.inr (Or.inl ⟨SameFlash.refl s, hno, hd⟩)
  | some dg =>
    rw [tftpPoll_packet]
    by_cases hop : dg.opcode = .data
    · refine Or.inl ⟨dg, rfl, hop, ?_, rfl⟩
      rw [processPacket_data hop]
      exact touched_same _
    · obtain ⟨_, hi, hf, ha, hm⟩ := processPacket_other hop s
      refine Or.inr (Or.inl ⟨SameFlash.trans ⟨hi, hf, ha, hm⟩ (touched_same _), fun dg' hdg => ?_,
        (Bool.or_true _).symm⟩)
      rw [← Option.some.inj hdg]
      exact hop

/-- **What a round that goes on has done**: what its poll has. -/
theorem tftpNext_cases {s s' : Tftp} {e : Event} (h : tftpNext s e = some s') :
    (∃ dg, e.packet = some dg ∧ dg.opcode = .data ∧ SameFlash (s.handOver dg) s' ∧ s'.downloadStarted = true) ∨
      (SameFlash s s' ∧ (∀ dg, e.packet = some dg → dg.opcode ≠ .data) ∧
        s'.downloadStarted = (s.downloadStarted || e.packet.isSome)) ∨
      (e.packet = none ∧ timedOut s = true ∧ s.downloadStarted = true ∧
        SameFlash (tftpInit { s with downloadStarted := false, spm := bootPageErase 0 s.spm }) s' ∧
        s'.downloadStarted = false) := by
  unfold tftpNext at h
  simp only at h
  split at h
  · cases h
  · cases h
    obtain ⟨hled, hstart⟩ := updateLed_same e.timer (tftpPoll e.packet s).s
    rw [hstart]
    rcases tftpPoll_cases e.packet s with ⟨dg, hp, hop, hsame, hd⟩ | ⟨hsame, hno, hd⟩ | ⟨hp, ht, hs, hsame, hd⟩
    · exact Or.inl ⟨dg, hp, hop, hsame.trans hled, hd⟩
    · exact Or.inr (Or.inl ⟨hsame.trans hled, hno, hd⟩)
    · exact Or.inr (Or.inr ⟨hp, ht, hs, hsame.trans hled, hd⟩)

end SmartHome.Bootloader
