/-
  Subject:   THE ONLINE UPDATER (Hellduino_OnlineUpdater.ino): a file from the network, through the external
             flash, to the bootloader.

  The loop tries to get the file up to six times. An attempt that gets as far as the body erases as many
  sectors as `Content-Length` asks for and writes the body page by page as it comes in. After that the last
  bytes of the file are looked at, and if there is an end record the bootloader takes over.

  Four things go wrong. The counter of attempts is at 0 when the sixth one completes, which is then taken for
  a failure, and at 255 when all six failed, which is taken for a success. The number of sectors is cut to
  eight bits, and nothing says that the body is as long as announced, so it may be written where nothing was
  erased. Before the check the file is printed, as long as was announced: without a `Content-Length` that
  never ends. And the end record may be there from before.

  * `Chip`, `extFlashWritePage`, `extFlashEraseSector` -- the external flash;
  * `erasePgmSpace`, `readByte`, `writePage`, `extFlashPrint`, `verifyIhexFile`, `attempt`, `updaterLoop` --
    the source; `extFlashPrint_iff` -- when printing ends;
  * `Outcome.leaves`, `attempt_flash` -- what an attempt leaves, without the page buffer;
  * `updaterLoop_eq` -- the loop, without its counter;
  * `FaithfulHandover`, `UpdateSound`, **`faithfulHandover_iff`** -- only a file that is stored as it came is
    handed over, and every such file is, exactly if `UpdateSound`; `allFailed_updates` -- six failures, and
    the bootloader takes over.
-/
import Mathlib.Data.List.Infix
import SmartHome.Lib.NorFlash
import SmartHome.Bootloader.ExtFlash

namespace SmartHome.Firmware

open SmartHome.Lib

/-! ## 1. The external flash -/

/-- A chip of sectors of 4096 bytes. It is given 24 bits of an address and takes as many of them as it
    needs; `EXT_FLASH_SECTOR_NUM` is 256. -/
structure Chip where
  sectors : Nat
  addressed : sectors ∣ 4096

/-- Its size. -/
def Chip.size (chip : Chip) : Nat := chip.sectors * 4096

/-- The content of its cells. -/
abbrev Flash := Nat → UInt8

/-- The bytes 1 to 3 of a write or erase command; the last one is 0. -/
def commandAddress (offset : Nat) : Nat := offset / 65536 % 256 * 65536 + offset / 256 % 256 * 256

/-- `ext_flash_write_page`. -/
def extFlashWritePage (chip : Chip) (flash : Flash) (offset : Nat) (page : List UInt8) : Flash :=
  program chip.size flash (commandAddress offset) page

/-- `ext_flash_erase_sector`: the sector the address is in. -/
def extFlashEraseSector (chip : Chip) (flash : Flash) (offset : Nat) : Flash := fun a =>
  if a / 4096 = commandAddress offset % chip.size / 4096 then 0xFF else flash a

/-- `ext_flash_read_data`. -/
def extFlashReadData (chip : Chip) (flash : Flash) (addr len : Nat) : List UInt8 :=
  Bootloader.extFlashReadData (fun a => flash (a % chip.size)) addr len

/-! ## 2. Hellduino_OnlineUpdater.ino -/

/-- `APP_ADDRESS_OFFSET`. -/
def appAddressOffset : Nat := 65536

/-- The loop of `erase_pgm_space`, `sector` rounds. -/
def eraseLoop (chip : Chip) : Nat → Flash → Nat → Flash
  | 0, flash, _ => flash
  | sector + 1, flash, offset =>
    eraseLoop chip sector (extFlashEraseSector chip flash offset) ((offset + 4096) % 4294967296)

/-- `erase_pgm_space`; `sector` has eight bits. -/
def erasePgmSpace (chip : Chip) (flash : Flash) (offset : Nat) (size : UInt32) : Flash :=
  eraseLoop chip ((size.toNat / 4096 + 1) % 256) flash offset

/-- What an attempt works on: the flash, `g_address_offset`, `g_page_buffer` and `rec_index`. -/
structure Download where
  flash : Flash
  addressOffset : Nat
  pageBuffer : List UInt8
  recIndex : Nat

/-- `write_page`. -/
def Download.writePage (chip : Chip) (d : Download) : Download :=
  { d with
    flash := extFlashWritePage chip d.flash d.addressOffset d.pageBuffer
    addressOffset := (d.addressOffset + 256) % 4294967296 }

/-- The page buffer after `memset`. -/
def blankPage : List UInt8 := List.replicate 256 0xFF

/-- A byte of the body. -/
def Download.readByte (chip : Chip) (d : Download) (c : UInt8) : Download :=
  let d := { d with pageBuffer := d.pageBuffer.set d.recIndex c, recIndex := d.recIndex + 1 }
  if d.recIndex ≥ 256 then { d.writePage chip with pageBuffer := blankPage, recIndex := 0 } else d

/-- The last page, if there is something in it. -/
def Download.writeLastPage (chip : Chip) (d : Download) : Download :=
  if d.recIndex > 0 then d.writePage chip else d

/-- How an attempt goes: `http.get` fails, the status is not 200, the headers end too early, the body stops
    coming in, or it comes in until the connection is closed. Without a `Content-Length` the length is
    0xFFFFFFFF. -/
inductive Outcome where
  | connectFailed
  | badStatus
  | headersFailed
  | timedOut (contentLength : UInt32) (received : List UInt8)
  | completed (contentLength : UInt32) (body : List UInt8)
  deriving DecidableEq

/-- The download has gone through. -/
def Outcome.completes : Outcome → Bool
  | .completed _ _ => true
  | _ => false

/-- `retry`, `pgm_size` and the flash. -/
structure Updater where
  retry : UInt8
  pgmSize : UInt32
  flash : Flash

/-- The body comes in. -/
def receive (chip : Chip) (flash : Flash) (contentLength : UInt32) (received : List UInt8) : Download :=
  received.foldl (fun d c => d.readByte chip c)
    ⟨erasePgmSpace chip flash appAddressOffset contentLength, appAddressOffset, blankPage, 0⟩

/-- One attempt, without the end of the round. -/
def attempt (chip : Chip) (u : Updater) : Outcome → Updater
  | .connectFailed => u
  | .badStatus => u
  | .headersFailed => u
  | .timedOut contentLength received =>
    { u with pgmSize := contentLength, flash := (receive chip u.flash contentLength received).flash }
  | .completed contentLength body =>
    { u with
      pgmSize := contentLength
      flash := ((receive chip u.flash contentLength body).writeLastPage chip).flash }

/-- One round of the `do` loop, and how many rounds there were. It ends by `break`, or by `while(retry--)`. -/
def updaterRound (chip : Chip) (outcomes : Nat → Outcome) (p : Updater × Nat) :
    (Updater × Nat) ⊕ (Updater × Nat) :=
  let u := attempt chip p.1 (outcomes p.2)
  if (outcomes p.2).completes then .inl (u, p.2 + 1)
  else if u.retry = 0 then .inl ({ u with retry := u.retry - 1 }, p.2 + 1)
  else .inr ({ u with retry := u.retry - 1 }, p.2 + 1)

/-- `":00000001FF"`. -/
def endRecord : List UInt8 := ":00000001FF".toUTF8.data.toList

/-- `verify_ihex_file`: `strstr` in the 31 bytes before the last one of the file. -/
def verifyIhexFile (chip : Chip) (flash : Flash) (fileSize : UInt32) : Bool :=
  let buffer := extFlashReadData chip flash ((appAddressOffset + fileSize.toNat + 4294967264) % 4294967296) 31
  decide (endRecord <:+: buffer.takeWhile (fun c => c ≠ 0))

/-- One round of the loop of `ext_flash_print`, which reads a page and prints it; `i` has 32 bits. -/
def printRound (len i : UInt32) : Bool ⊕ UInt32 := if i < len then .inr (i + 256) else .inl true

/-- `ext_flash_print` comes back. The loop ends in 2^24 rounds or never, see `print_forever`. -/
def extFlashPrint (len : UInt32) : Bool := loop (printRound len) (fun _ => false) 16777217 0

/-- What `loop` does before it stops: the attempts it has made, what they leave, and whether it calls
    `Update_from_ext_flash`. -/
structure UpdaterEnd where
  attempts : Nat
  updater : Updater
  called : Bool

/-- `loop`. -/
def updaterLoop (chip : Chip) (outcomes : Nat → Outcome) (flash : Flash) : UpdaterEnd :=
  let p := loop (updaterRound chip outcomes) id 256 (⟨5, 0, flash⟩, 0)
  ⟨p.2, p.1, decide (p.1.retry > 0) && (extFlashPrint p.1.pgmSize && verifyIhexFile chip p.1.flash p.1.pgmSize)⟩

/-- A round at a multiple of 256. -/
theorem printRound_at (len : UInt32) (k : Nat) : printRound len (UInt32.ofNat (256 * k)) =
    if 256 * k % 4294967296 < len.toNat then .inr (UInt32.ofNat (256 * (k + 1))) else .inl true := by
  have hlt : UInt32.ofNat (256 * k) < len ↔ 256 * k % 4294967296 < len.toNat := by
    rw [UInt32.lt_iff_toNat_lt, UInt32.toNat_ofNat']
  have hnext : UInt32.ofNat (256 * k) + 256 = UInt32.ofNat (256 * (k + 1)) := by
    rw [Nat.mul_add, UInt32.ofNat_add]
    rfl
  unfold printRound
  rw [hnext]
  exact if_congr hlt rfl rfl

/-- **Above 0xFFFFFF00 the loop never ends**: `i` is 0xFFFFFF00 at most and then 0 again. -/
theorem print_forever {len : UInt32} (h : 4294967040 < len.toNat) : ∀ n k,
    loop (printRound len) (fun _ => false) n (UInt32.ofNat (256 * k)) = false
  | 0, _ => rfl
  | n + 1, k => by
    have hround := printRound_at len k
    rw [if_pos (by omega)] at hround
    rw [loop_more n hround]
    exact print_forever h n (k + 1)

theorem print_ends {len : UInt32} (h : len.toNat ≤ 4294967040) : ∀ n k, k ≤ 16777215 → 16777216 ≤ n + k →
    loop (printRound len) (fun _ => false) n (UInt32.ofNat (256 * k)) = true
  | 0, k, hk, hn => absurd hn (by omega)
  | n + 1, k, hk, hn => by
    have hround := printRound_at len k
    by_cases hlt : 256 * k % 4294967296 < len.toNat
    · rw [if_pos hlt] at hround
      rw [loop_more n hround]
      exact print_ends h n (k + 1) (by omega) (by omega)
    · rw [if_neg hlt] at hround
      exact loop_stop n hround

theorem extFlashPrint_iff (len : UInt32) : extFlashPrint len = true ↔ len.toNat ≤ 4294967040 := by
  unfold extFlashPrint
  refine ⟨fun hends => Nat.not_lt.mp fun hlt => ?_, fun h => print_ends h 16777217 0 (Nat.zero_le _) (by decide)⟩
  have hnever : loop (printRound len) (fun _ => false) 16777217 0 = false := print_forever hlt 16777217 0
  rw [hends] at hnever
  exact Bool.noConfusion hnever

/-! ## 3. What an attempt leaves -/

section Chip

variable {chip : Chip}

theorem size_dvd (chip : Chip) : chip.size ∣ 16777216 := by
  unfold Chip.size
  exact Nat.mul_dvd_mul_right chip.addressed 4096

/-- For a page the address is the offset. -/
theorem commandAddress_page {offset : Nat} (h : offset % 256 = 0) :
    commandAddress offset % chip.size = offset % chip.size := by
  have hlow : commandAddress offset = offset % 16777216 := by
    unfold commandAddress
    omega
  rw [hlow, Nat.mod_mod_of_dvd _ (size_dvd chip)]

/-- Offsets have 32 bits. -/
theorem offset_mod (n : Nat) : n % 4294967296 % chip.size = n % chip.size :=
  Nat.mod_mod_of_dvd _ (Nat.dvd_trans (size_dvd chip) (by decide))

/-- The sectors a `Content-Length` makes the updater erase. -/
def Erased (chip : Chip) (contentLength : UInt32) (a : Nat) : Prop :=
  ∃ i, i < (contentLength.toNat / 4096 + 1) % 256 ∧ a / 4096 = (16 + i) % chip.sectors

instance (chip : Chip) (contentLength : UInt32) (a : Nat) : Decidable (Erased chip contentLength a) :=
  inferInstanceAs (Decidable (∃ i, i < _ ∧ _))

/-- The sector that is erased at the start of sector `s`. -/
theorem eraseSector_cell (flash : Flash) (s a : Nat) :
    extFlashEraseSector chip flash (s * 4096 % 4294967296) a =
      if a / 4096 = s % chip.sectors then 0xFF else flash a := by
  have hsector : commandAddress (s * 4096 % 4294967296) % chip.size / 4096 = s % chip.sectors := by
    rw [commandAddress_page (by omega), offset_mod]
    unfold Chip.size
    rw [Nat.mul_mod_mul_right, Nat.mul_div_cancel _ (by decide)]
  unfold extFlashEraseSector
  rw [hsector]

theorem eraseLoop_cell (n : Nat) (flash : Flash) (s a : Nat) :
    eraseLoop chip n flash (s * 4096 % 4294967296) a =
      if ∃ i, i < n ∧ a / 4096 = (s + i) % chip.sectors then 0xFF else flash a := by
  induction n generalizing flash s with
  | zero => exact (if_neg fun ⟨i, hi, _⟩ => Nat.not_lt_zero i hi).symm
  | succ n ih =>
    have hnext : (s * 4096 % 4294967296 + 4096) % 4294967296 = (s + 1) * 4096 % 4294967296 := by omega
    rw [eraseLoop, hnext, ih, eraseSector_cell]
    by_cases hhere : a / 4096 = s % chip.sectors
    · rw [if_pos hhere, ite_self, if_pos ⟨0, Nat.succ_pos n, hhere⟩]
    · rw [if_neg hhere]
      -- the other rounds erase the sectors behind this one
      refine if_congr ⟨?_, ?_⟩ rfl rfl
      · rintro ⟨i, hi, ha⟩
        exact ⟨i + 1, Nat.succ_lt_succ hi, by rw [ha, Nat.add_assoc, Nat.add_comm 1]⟩
      · rintro ⟨i, hi, ha⟩
        cases i with
        | zero => exact absurd ha hhere
        | succ i => exact ⟨i, Nat.lt_of_succ_lt_succ hi, by rw [ha, Nat.add_assoc, Nat.add_comm 1]⟩

/-- The flash after the erase. -/
def erased (chip : Chip) (flash : Flash) (contentLength : UInt32) : Flash := fun a =>
  if Erased chip contentLength a then 0xFF else flash a

theorem erasePgmSpace_eq (flash : Flash) (contentLength : UInt32) :
    erasePgmSpace chip flash appAddressOffset contentLength = erased chip flash contentLength := by
  funext a
  exact eraseLoop_cell _ flash 16 a

/-- **In the middle of a download**: full pages are programmed, the rest is in the buffer. -/
structure Buffered (chip : Chip) (flash : Flash) (d : Download) (full part : List UInt8) : Prop where
  pages : full.length % 256 = 0
  short : part.length < 256
  flash_eq : d.flash = program chip.size flash appAddressOffset full
  address : d.addressOffset = (appAddressOffset + full.length) % 4294967296
  buffer : d.pageBuffer = part ++ List.replicate (256 - part.length) 0xFF
  index : d.recIndex = part.length

/-- A page is programmed behind the ones before; the blank end of it changes nothing. -/
theorem writePage_flash {flash : Flash} {d : Download} {full part : List UInt8} {n : Nat}
    (hpages : full.length % 256 = 0) (hflash : d.flash = program chip.size flash appAddressOffset full)
    (haddress : d.addressOffset = (appAddressOffset + full.length) % 4294967296)
    (hbuffer : d.pageBuffer = part ++ List.replicate n 0xFF) :
    (d.writePage chip).flash = program chip.size flash appAddressOffset (full ++ part) := by
  have hpage : d.addressOffset % 256 = 0 := by
    rw [haddress]
    unfold appAddressOffset
    omega
  show program chip.size d.flash (commandAddress d.addressOffset) d.pageBuffer = _
  rw [program_congr (commandAddress_page hpage), haddress, program_congr (offset_mod _), hflash, ← program_append,
    hbuffer, ← List.append_assoc, program_append, program_padding]

/-- **A byte comes in.** -/
theorem Buffered.readByte {flash : Flash} {d : Download} {full part : List UInt8} (h : Buffered chip flash d full part)
    (c : UInt8) :
    ∃ full' part', Buffered chip flash (d.readByte chip c) full' part' ∧ full' ++ part' = full ++ part ++ [c] := by
  have hshort := h.short
  have hset : d.pageBuffer.set d.recIndex c = (part ++ [c]) ++ List.replicate (255 - part.length) 0xFF := by
    have hroom : 256 - part.length = 255 - part.length + 1 := by omega
    rw [h.buffer, h.index, hroom, List.set_append_right _ _ (Nat.le_refl _), Nat.sub_self, List.replicate_succ,
      List.set_cons_zero, List.append_assoc, List.singleton_append]
  let d₁ : Download := { d with pageBuffer := d.pageBuffer.set d.recIndex c, recIndex := d.recIndex + 1 }
  have hread : d.readByte chip c =
      if d.recIndex + 1 ≥ 256 then { d₁.writePage chip with pageBuffer := blankPage, recIndex := 0 } else d₁ := rfl
  rw [hread, h.index]
  by_cases hfull : part.length + 1 ≥ 256
  · -- the page is full: it is written, and the buffer is blank again
    rw [if_pos hfull]
    have hlength : (full ++ (part ++ [c])).length = full.length + 256 := by
      rw [List.length_append, List.length_append, List.length_singleton]
      omega
    refine ⟨full ++ (part ++ [c]), [], ⟨?_, by decide, ?_, ?_, rfl, rfl⟩, ?_⟩
    · rw [hlength, Nat.add_mod_right]
      exact h.pages
    · exact writePage_flash (d := d₁) h.pages h.flash_eq h.address hset
    · show (d.addressOffset + 256) % 4294967296 = _
      rw [h.address, hlength, Nat.mod_add_mod, Nat.add_assoc]
    · rw [List.append_nil, List.append_assoc]
  · rw [if_neg hfull]
    refine ⟨full, part ++ [c], ⟨h.pages, ?_, h.flash_eq, h.address, ?_, ?_⟩, (List.append_assoc full part [c]).symm⟩
    · rw [List.length_append, List.length_singleton]
      omega
    · show d.pageBuffer.set d.recIndex c = _
      rw [hset, List.length_append, List.length_singleton, Nat.sub_add_eq, Nat.sub_right_comm]
    · show d.recIndex + 1 = _
      rw [h.index, List.length_append, List.length_singleton]

/-- **The body comes in**, as far as it does. -/
theorem receive_buffered (chip : Chip) (flash : Flash) (contentLength : UInt32) (received : List UInt8) :
    ∃ full part, Buffered chip (erased chip flash contentLength) (receive chip flash contentLength received) full part ∧
      full ++ part = received := by
  have hstart : Buffered chip (erased chip flash contentLength)
      ⟨erasePgmSpace chip flash appAddressOffset contentLength, appAddressOffset, blankPage, 0⟩ [] [] :=
    ⟨rfl, by decide, erasePgmSpace_eq flash contentLength, rfl, rfl, rfl⟩
  unfold receive
  -- on the bytes, from what has come in before
  suffices hall : ∀ (bytes full part : List UInt8) (d : Download),
      Buffered chip (erased chip flash contentLength) d full part →
      ∃ full' part', Buffered chip (erased chip flash contentLength)
        (bytes.foldl (fun d c => d.readByte chip c) d) full' part' ∧ full' ++ part' = full ++ part ++ bytes by
    exact hall received [] [] _ hstart
  intro bytes
  induction bytes with
  | nil => exact fun full part d h => ⟨full, part, h, (List.append_nil _).symm⟩
  | cons c bytes ih =>
    intro full part d h
    obtain ⟨full₁, part₁, h₁, he₁⟩ := h.readByte c
    obtain ⟨full', part', h', he'⟩ := ih full₁ part₁ _ h₁
    refine ⟨full', part', h', ?_⟩
    rw [he', he₁, List.append_assoc, List.singleton_append]

/-- What an attempt stores: with the last page only if it completes. -/
def Outcome.stored : Outcome → Option (UInt32 × List UInt8)
  | .timedOut contentLength received => some (contentLength, received.take (received.length / 256 * 256))
  | .completed contentLength body => some (contentLength, body)
  | _ => none

/-- **What an attempt leaves on the flash.** -/
def Outcome.leaves (chip : Chip) (flash : Flash) (o : Outcome) : Flash :=
  match o.stored with
  | none => flash
  | some (contentLength, bytes) => program chip.size (erased chip flash contentLength) appAddressOffset bytes

/-- **The page buffer does what it should.** -/
theorem attempt_flash (chip : Chip) (u : Updater) (o : Outcome) : (attempt chip u o).flash = o.leaves chip u.flash := by
  cases o with
  | connectFailed | badStatus | headersFailed => rfl
  | timedOut contentLength received =>
    obtain ⟨full, part, h, rfl⟩ := receive_buffered chip u.flash contentLength received
    have hfull : (full ++ part).take ((full ++ part).length / 256 * 256) = full := by
      have hlength : (full ++ part).length / 256 * 256 = full.length := by
        have := h.pages
        have := h.short
        rw [List.length_append]
        omega
      rw [hlength, List.take_left]
    show (receive chip u.flash contentLength (full ++ part)).flash =
      program chip.size _ appAddressOffset ((full ++ part).take _)
    rw [hfull]
    exact h.flash_eq
  | completed contentLength body =>
    obtain ⟨full, part, h, rfl⟩ := receive_buffered chip u.flash contentLength body
    show ((receive chip u.flash contentLength (full ++ part)).writeLastPage chip).flash =
      program chip.size _ appAddressOffset (full ++ part)
    unfold Download.writeLastPage
    by_cases hpart : (receive chip u.flash contentLength (full ++ part)).recIndex > 0
    · rw [if_pos hpart]
      exact writePage_flash h.pages h.flash_eq h.address h.buffer
    · have hnil : part = [] := List.eq_nil_of_length_eq_zero (by rw [← h.index]; omega)
      rw [if_neg hpart, h.flash_eq, hnil, List.append_nil]

end Chip

/-! ## 4. The loop -/

section Loop

variable {chip : Chip} {outcomes : Nat → Outcome} {flash : Flash}

/-- The flash after `n` attempts. -/
def flashAfter (chip : Chip) (outcomes : Nat → Outcome) (flash : Flash) : Nat → Flash
  | 0 => flash
  | n + 1 => (outcomes n).leaves chip (flashAfter chip outcomes flash n)

/-- The length announced last, 0 before the first one. -/
def lengthAfter (outcomes : Nat → Outcome) : Nat → UInt32
  | 0 => 0
  | n + 1 =>
    match (outcomes n).stored with
    | none => lengthAfter outcomes n
    | some (contentLength, _) => contentLength

/-- How many attempts there are: the first five up to one that completes, or six. -/
def attemptsMade (outcomes : Nat → Outcome) : Nat :=
  match (List.range 5).find? fun i => (outcomes i).completes with
  | some i => i + 1
  | none => 6

/-- Five attempts at most before the one that completes. -/
theorem attemptsMade_cases (outcomes : Nat → Outcome) :
    (∃ n, n < 5 ∧ (∀ i, i < n → (outcomes i).completes = false) ∧ (outcomes n).completes = true ∧
      attemptsMade outcomes = n + 1) ∨ (∀ i, i < 5 → (outcomes i).completes = false) ∧ attemptsMade outcomes = 6 := by
  unfold attemptsMade
  cases hfind : (List.range 5).find? fun i => (outcomes i).completes with
  | some n =>
    obtain ⟨hn, hrange, hbefore⟩ := List.find?_range_eq_some.mp hfind
    refine Or.inl ⟨n, List.mem_range.mp hrange, fun i hi => ?_, hn, rfl⟩
    exact (Bool.not_eq_true' _).mp (hbefore i hi)
  | none =>
    refine Or.inr ⟨fun i hi => ?_, rfl⟩
    exact (Bool.not_eq_true' _).mp (List.find?_range_eq_none.mp hfind i hi)

/-- What `n` attempts leave, with some counter. -/
def stateAfter (chip : Chip) (outcomes : Nat → Outcome) (flash : Flash) (n : Nat) (retry : UInt8) : Updater × Nat :=
  (⟨retry, lengthAfter outcomes n, flashAfter chip outcomes flash n⟩, n)

theorem attempt_stateAfter (n : Nat) (retry : UInt8) :
    attempt chip (stateAfter chip outcomes flash n retry).1 (outcomes n) =
      (stateAfter chip outcomes flash (n + 1) retry).1 := by
  have hflash := attempt_flash chip (stateAfter chip outcomes flash n retry).1 (outcomes n)
  have hrest : (attempt chip (stateAfter chip outcomes flash n retry).1 (outcomes n)).retry = retry ∧
      (attempt chip (stateAfter chip outcomes flash n retry).1 (outcomes n)).pgmSize =
        lengthAfter outcomes (n + 1) := by
    unfold lengthAfter
    cases outcomes n <;> exact ⟨rfl, rfl⟩
  obtain ⟨hretry, hsize⟩ := hrest
  generalize attempt chip (stateAfter chip outcomes flash n retry).1 (outcomes n) = u at hflash hretry hsize ⊢
  cases u with
  | mk r size f =>
    simp only at hflash hretry hsize
    subst hflash hretry hsize
    rfl

/-- A round. -/
theorem updaterRound_stateAfter (chip : Chip) (outcomes : Nat → Outcome) (flash : Flash) (n : Nat) (retry : UInt8) :
    updaterRound chip outcomes (stateAfter chip outcomes flash n retry) =
      if (outcomes n).completes then .inl (stateAfter chip outcomes flash (n + 1) retry)
      else if retry = 0 then .inl (stateAfter chip outcomes flash (n + 1) (retry - 1))
      else .inr (stateAfter chip outcomes flash (n + 1) (retry - 1)) := by
  unfold updaterRound
  simp only [show (stateAfter chip outcomes flash n retry).2 = n from rfl, attempt_stateAfter]
  rfl

/-- As long as no attempt completes, the counter goes down from 5. -/
theorem loop_failed (chip : Chip) (flash : Flash) {n : Nat} (hn : n ≤ 5)
    (hfail : ∀ i, i < n → (outcomes i).completes = false) :
    loop (updaterRound chip outcomes) id 256 (stateAfter chip outcomes flash 0 5) =
      loop (updaterRound chip outcomes) id (256 - n) (stateAfter chip outcomes flash n (UInt8.ofNat (5 - n))) := by
  have hcounter : ∀ k, k < 5 → UInt8.ofNat (5 - k) ≠ 0 ∧ UInt8.ofNat (5 - k) - 1 = UInt8.ofNat (5 - (k + 1)) := by
    decide
  induction n with
  | zero => rfl
  | succ n ih =>
    obtain ⟨hpos, hless⟩ := hcounter n hn
    have hround := updaterRound_stateAfter chip outcomes flash n (UInt8.ofNat (5 - n))
    rw [hfail n (Nat.lt_succ_self n), if_neg Bool.false_ne_true, if_neg hpos, hless] at hround
    rw [ih (Nat.le_of_succ_le hn) fun i hi => hfail i (Nat.lt_succ_of_lt hi),
      show 256 - n = 256 - (n + 1) + 1 by omega, loop_more _ hround]

/-- **The loop without its counter**: which attempts are made, what they leave, and when the check is reached. -/
theorem updaterLoop_eq (chip : Chip) (outcomes : Nat → Outcome) (flash : Flash) :
    ∃ retry : UInt8, updaterLoop chip outcomes flash =
        ⟨attemptsMade outcomes, (stateAfter chip outcomes flash (attemptsMade outcomes) retry).1,
          decide (retry > 0) && (extFlashPrint (lengthAfter outcomes (attemptsMade outcomes)) &&
            verifyIhexFile chip (flashAfter chip outcomes flash (attemptsMade outcomes))
              (lengthAfter outcomes (attemptsMade outcomes)))⟩ ∧
      (retry > 0 ↔ attemptsMade outcomes ≤ 5 ∨ (outcomes 5).completes = false) := by
  have hend : ∀ (n : Nat) (retry : UInt8),
      loop (updaterRound chip outcomes) id 256 (stateAfter chip outcomes flash 0 5) =
        stateAfter chip outcomes flash n retry →
      updaterLoop chip outcomes flash = ⟨n, (stateAfter chip outcomes flash n retry).1,
        decide (retry > 0) && (extFlashPrint (lengthAfter outcomes n) &&
          verifyIhexFile chip (flashAfter chip outcomes flash n) (lengthAfter outcomes n))⟩ := by
    intro n retry h
    unfold updaterLoop
    rw [show ((⟨5, 0, flash⟩, 0) : Updater × Nat) = stateAfter chip outcomes flash 0 5 from rfl, h]
    rfl
  rcases attemptsMade_cases outcomes with ⟨n, hn, hfail, hdone, hmade⟩ | ⟨hfail, hmade⟩
  · have hround := updaterRound_stateAfter chip outcomes flash n (UInt8.ofNat (5 - n))
    rw [hdone, if_pos rfl] at hround
    have hloop := loop_failed chip flash (Nat.le_of_lt hn) hfail
    rw [show 256 - n = 255 - n + 1 by omega, loop_stop _ hround] at hloop
    have hcounter : ∀ k, k < 5 → UInt8.ofNat (5 - k) > 0 := by decide
    rw [hmade]
    exact ⟨_, hend _ _ hloop, fun _ => Or.inl (by omega), fun _ => hcounter n hn⟩
  · have hround := updaterRound_stateAfter chip outcomes flash 5 0
    have hloop := loop_failed chip flash (Nat.le_refl 5) hfail
    rw [hmade]
    cases hlast : (outcomes 5).completes with
    | true =>
      -- the sixth attempt completes with the counter at 0
      rw [hlast, if_pos rfl] at hround
      refine ⟨0, hend 6 0 (hloop.trans (loop_stop 250 hround)), fun h => ?_, fun h => ?_⟩
      · exact absurd h (by decide)
      · exact absurd h (by simp)
    | false =>
      -- all six have failed, and the counter goes below 0
      rw [hlast, if_neg Bool.false_ne_true, if_pos rfl] at hround
      exact ⟨255, hend 6 255 (hloop.trans (loop_stop 250 hround)), fun _ => Or.inr rfl, fun _ => by decide⟩

end Loop

/-! ## 5. What is handed over -/

/-- **Only a file that is stored as it came is handed over, and every one that passes the check is**: if
    `Update_from_ext_flash` is called, the last attempt completed and its body can be read back; and if some
    attempt completed and what it stored passes, it is called. -/
def FaithfulHandover (chip : Chip) (outcomes : Nat → Outcome) (flash : Flash) : Prop :=
  ((updaterLoop chip outcomes flash).called = true →
    ∃ contentLength body, outcomes ((updaterLoop chip outcomes flash).attempts - 1) = .completed contentLength body ∧
      extFlashReadData chip (updaterLoop chip outcomes flash).updater.flash appAddressOffset body.length = body) ∧
  ∀ i, i < (updaterLoop chip outcomes flash).attempts → (outcomes i).completes = true →
    verifyIhexFile chip (updaterLoop chip outcomes flash).updater.flash
      (updaterLoop chip outcomes flash).updater.pgmSize = true →
    (updaterLoop chip outcomes flash).called = true

/-- The cell of a byte of the file. -/
def appCell (chip : Chip) (i : Nat) : Nat := (appAddressOffset + i) % chip.size

/-- **If the check would pass after the attempts, one of the first five has completed**, the length it
    announced is 0xFFFFFF00 at most, and every byte of its body fell on a cell that was erased or had all the
    bits of the byte, and on no cell that another byte of the body that differs fell on. Where all six have
    failed, a length above that keeps the updater from the check. -/
def UpdateSound (chip : Chip) (outcomes : Nat → Outcome) (flash : Flash) : Prop :=
  verifyIhexFile chip (flashAfter chip outcomes flash (attemptsMade outcomes))
      (lengthAfter outcomes (attemptsMade outcomes)) = true →
    (∃ n contentLength body, n < 5 ∧ (∀ i, i < n → (outcomes i).completes = false) ∧
      outcomes n = .completed contentLength body ∧ contentLength.toNat ≤ 0xFFFFFF00 ∧
      (∀ i b, body[i]? = some b →
        Erased chip contentLength (appCell chip i) ∨ Under b (flashAfter chip outcomes flash n (appCell chip i))) ∧
      ∀ i j b c, body[i]? = some b → body[j]? = some c → appCell chip i = appCell chip j → b = c) ∨
    ((∀ i, i < 6 → (outcomes i).completes = false) ∧ 0xFFFFFF00 < (lengthAfter outcomes 6).toNat)

/-- Reading is looking at the cells. -/
theorem read_eq_iff {chip : Chip} {flash : Flash} {body : List UInt8} :
    extFlashReadData chip flash appAddressOffset body.length = body ↔
      ∀ i b, body[i]? = some b → flash (appCell chip i) = b := by
  have hcell : ∀ i, (appAddressOffset + i) % 16777216 % chip.size = appCell chip i := fun i =>
    Nat.mod_mod_of_dvd _ (size_dvd chip)
  unfold extFlashReadData Bootloader.extFlashReadData
  simp only [hcell]
  constructor
  · intro h i b hb
    have hi := (List.getElem?_eq_some_iff.mp hb).1
    rw [← h, List.getElem?_map, List.getElem?_range hi] at hb
    exact Option.some.inj hb
  · intro h
    refine List.ext_getElem? fun i => ?_
    rw [List.getElem?_map]
    by_cases hi : i < body.length
    · rw [List.getElem?_range hi, List.getElem?_eq_getElem hi]
      exact congrArg some (h i _ (List.getElem?_eq_getElem hi))
    · rw [List.getElem?_eq_none (by rw [List.length_range]; omega), List.getElem?_eq_none (by omega)]
      rfl

/-- **A completed attempt can be read back** exactly if its bytes had room. -/
theorem completed_read_iff {chip : Chip} {flash : Flash} {contentLength : UInt32} {body : List UInt8} :
    extFlashReadData chip ((Outcome.completed contentLength body).leaves chip flash) appAddressOffset
        body.length = body ↔
      (∀ i b, body[i]? = some b → Erased chip contentLength (appCell chip i) ∨ Under b (flash (appCell chip i))) ∧
        ∀ i j b c, body[i]? = some b → body[j]? = some c → appCell chip i = appCell chip j → b = c := by
  have hroom : ∀ b a, Under b (erased chip flash contentLength a) ↔
      Erased chip contentLength a ∨ Under b (flash a) := by
    intro b a
    unfold erased
    by_cases ha : Erased chip contentLength a
    · rw [if_pos ha]
      exact ⟨fun _ => Or.inl ha, fun _ => UInt8.and_neg_one⟩
    · rw [if_neg ha]
      exact ⟨Or.inr, fun h => h.resolve_left ha⟩
  have hholds := @program_holds chip.size (erased chip flash contentLength) appAddressOffset body
  simp only [hroom] at hholds
  rw [read_eq_iff]
  exact hholds

section Sound

variable {chip : Chip} {outcomes : Nat → Outcome} {flash : Flash}

theorem completes_iff {o : Outcome} : o.completes = true ↔ ∃ contentLength body, o = .completed contentLength body := by
  cases o with
  | completed contentLength body => exact ⟨fun _ => ⟨contentLength, body, rfl⟩, fun _ => rfl⟩
  | connectFailed | badStatus | headersFailed | timedOut =>
    exact ⟨fun h => Bool.noConfusion h, fun ⟨_, _, h⟩ => Outcome.noConfusion h⟩

/-- Where attempt `n` is the first to complete, the update is sound if what passes the check is printed and
    can be read back. -/
theorem updateSound_completed {n : Nat} {contentLength : UInt32} {body : List UInt8} (hn : n < 5)
    (hfail : ∀ i, i < n → (outcomes i).completes = false) (hbody : outcomes n = .completed contentLength body)
    (hmade : attemptsMade outcomes = n + 1) :
    UpdateSound chip outcomes flash ↔
      (verifyIhexFile chip (flashAfter chip outcomes flash (n + 1)) (lengthAfter outcomes (n + 1)) = true →
        extFlashPrint (lengthAfter outcomes (n + 1)) = true ∧
        extFlashReadData chip (flashAfter chip outcomes flash (n + 1)) appAddressOffset body.length = body) := by
  have hflash : flashAfter chip outcomes flash (n + 1) =
      (Outcome.completed contentLength body).leaves chip (flashAfter chip outcomes flash n) := by
    rw [← hbody]
    rfl
  have hlength : lengthAfter outcomes (n + 1) = contentLength := by
    rw [lengthAfter, hbody]
    rfl
  unfold UpdateSound
  rw [hmade, extFlashPrint_iff, hlength]
  constructor
  · intro hsound hpass
    rcases hsound hpass with ⟨n', contentLength', body', -, hfail', hbody', hprint, hroom⟩ | ⟨hall, -⟩
    · have hn' : n' = n := by
        rcases Nat.lt_trichotomy n' n with hlt | heq | hlt
        · exact absurd (hfail n' hlt) (by rw [hbody']; exact Bool.noConfusion)
        · exact heq
        · exact absurd (hfail' n hlt) (by rw [hbody]; exact Bool.noConfusion)
      subst hn'
      obtain ⟨rfl, rfl⟩ := Outcome.completed.inj (hbody.symm.trans hbody')
      rw [hflash]
      exact ⟨hprint, completed_read_iff.mpr hroom⟩
    · exact absurd (hall n (by omega)) (by rw [hbody]; exact Bool.noConfusion)
  · intro hread hpass
    obtain ⟨hprint, hback⟩ := hread hpass
    rw [hflash] at hback
    obtain ⟨hroom, hsame⟩ := completed_read_iff.mp hback
    exact Or.inl ⟨n, contentLength, body, hn, hfail, hbody, hprint, hroom, hsame⟩

/-- Where none of the first five completes, it is sound if the check does not pass or, with the sixth failed
    as well, is not come to. -/
theorem updateSound_failed (hfail : ∀ i, i < 5 → (outcomes i).completes = false) (hmade : attemptsMade outcomes = 6) :
    UpdateSound chip outcomes flash ↔
      (verifyIhexFile chip (flashAfter chip outcomes flash 6) (lengthAfter outcomes 6) = true →
        (outcomes 5).completes = false ∧ ¬ extFlashPrint (lengthAfter outcomes 6) = true) := by
  unfold UpdateSound
  rw [hmade, extFlashPrint_iff, Nat.not_le]
  refine forall_congr' fun _ => ⟨?_, ?_⟩
  · rintro (⟨n, _, _, hn, _, hbody, _⟩ | ⟨hall, hlong⟩)
    · exact absurd (hfail n hn) (by rw [hbody]; exact Bool.noConfusion)
    · exact ⟨hall 5 (by decide), hlong⟩
  · intro ⟨hlast, hlong⟩
    refine Or.inr ⟨fun i hi => ?_, hlong⟩
    rcases Nat.lt_succ_iff_lt_or_eq.mp hi with hi | rfl
    · exact hfail i hi
    · exact hlast

end Sound

/-- **Only a file that is stored as it came is handed over, and every such file is, exactly if** `UpdateSound`. -/
theorem faithfulHandover_iff (chip : Chip) (outcomes : Nat → Outcome) (flash : Flash) :
    FaithfulHandover chip outcomes flash ↔ UpdateSound chip outcomes flash := by
  obtain ⟨retry, hloop, hretry⟩ := updaterLoop_eq chip outcomes flash
  unfold FaithfulHandover
  simp only [hloop]
  rcases attemptsMade_cases outcomes with ⟨n, hn, hfail, hdone, hmade⟩ | ⟨hfail, hmade⟩
  · -- attempt n completes: what passes the check has to be printed, and the flash has to be right
    obtain ⟨contentLength, body, hbody⟩ := completes_iff.mp hdone
    have hpos : decide (retry > 0) = true := decide_eq_true (hretry.mpr (Or.inl (by omega)))
    rw [updateSound_completed hn hfail hbody hmade, hmade, hpos, Bool.true_and, Nat.add_sub_cancel, Bool.and_eq_true]
    constructor
    · intro ⟨hsafe, hcalled⟩ hpass
      have hcall := hcalled n (Nat.lt_succ_self n) hdone hpass
      obtain ⟨contentLength', body', hbody', hread⟩ := hsafe hcall
      obtain ⟨rfl, rfl⟩ := Outcome.completed.inj (hbody.symm.trans hbody')
      exact ⟨hcall.1, hread⟩
    · intro hread
      exact ⟨fun hcall => ⟨contentLength, body, hbody, (hread hcall.2).2⟩, fun _ _ _ hpass => ⟨(hread hpass).1, hpass⟩⟩
  · -- none of the first five completes: whatever passes the check is handled wrongly
    rw [updateSound_failed hfail hmade]
    rw [hmade] at hretry ⊢
    have hcall : (decide (retry > 0) && (extFlashPrint (lengthAfter outcomes 6) &&
        verifyIhexFile chip (flashAfter chip outcomes flash 6) (lengthAfter outcomes 6))) = true ↔
        (outcomes 5).completes = false ∧ extFlashPrint (lengthAfter outcomes 6) = true ∧
          verifyIhexFile chip (flashAfter chip outcomes flash 6) (lengthAfter outcomes 6) = true := by
      rw [Bool.and_eq_true, Bool.and_eq_true, decide_eq_true_iff, hretry]
      simp
    rw [hcall]
    constructor
    · intro ⟨hsafe, hcalled⟩ hpass
      cases hlast : (outcomes 5).completes with
      | true =>
        rw [(hcalled 5 (by decide) hlast hpass).1] at hlast
        exact Bool.noConfusion hlast
      | false =>
        refine ⟨rfl, fun hprint => ?_⟩
        obtain ⟨contentLength, body, hbody, _⟩ := hsafe ⟨hlast, hprint, hpass⟩
        have hcompletes : (outcomes 5).completes = true := completes_iff.mpr ⟨contentLength, body, hbody⟩
        rw [hlast] at hcompletes
        exact Bool.noConfusion hcompletes
    · intro hno
      refine ⟨fun ⟨_, hprint, hpass⟩ => absurd hprint (hno hpass).2, fun i hi hdone hpass => ?_⟩
      rcases Nat.lt_succ_iff_lt_or_eq.mp hi with hi | rfl
      · rw [hfail i hi] at hdone
        exact Bool.noConfusion hdone
      · rw [(hno hpass).1] at hdone
        exact Bool.noConfusion hdone

/-! ## 6. Honest lengths -/

/-! ## 7. Six failures -/

/-- A chip as the source describes it. -/
def chip256 : Chip := ⟨256, by decide⟩

/-- A flash with an end record 32 bytes before the file. -/
def staleFlash : Flash := fun a => if 65504 ≤ a then endRecord.getD (a - 65504) 0xFF else 0xFF

/-- **Six attempts fail to connect, and the bootloader is called**: what the check finds was there before. -/
theorem allFailed_updates :
    (updaterLoop chip256 (fun _ => .connectFailed) staleFlash).called = true ∧
      ¬ FaithfulHandover chip256 (fun _ => .connectFailed) staleFlash := by
  have hcalled : (updaterLoop chip256 (fun _ => .connectFailed) staleFlash).called = true := by decide +kernel
  refine ⟨hcalled, fun h => ?_⟩
  obtain ⟨_, _, hbody, _⟩ := h.1 hcalled
  exact Outcome.noConfusion hbody

end SmartHome.Firmware
