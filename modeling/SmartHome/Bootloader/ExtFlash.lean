/-
  Subject:   THE UPDATE FROM THE EXTERNAL FLASH (ext_flash.c), and what it boots when it fails.

  `ext_flash_main` hands the packages of the external flash to the decoder until one is answered
  with something else than 0 or 157 are through. If that was an error it looks at the vectors of the
  internal flash: with an image there it boots, else it loads section 0 or stops. A page that has
  been written is an image, since the decoder checks the first one; so an update that fails after
  its first page boots what it has written so far.

  * `extFlashMain` -- the function, with the choice it ends in;
  * `extFlashLoop_limit`, `extFlashLoop_stop` -- its loop is the series of calls;
  * `UpdateSafe` -- the contents for which the choice is right, told by the text of the packages;
  * **`extFlashMain_safe_iff`** -- the application is started only whole or untouched exactly then.
-/
import SmartHome.Bootloader.Calls
import SmartHome.Bootloader.Scan

namespace SmartHome.Bootloader

open SmartHome.Lib

/-! ## 1. ext_flash.c -/

/-- `ext_flash_read_data`: the chip is given 24 bits of the address. -/
def extFlashReadData (ext : Nat → UInt8) (addr len : Nat) : Bytes :=
  (List.range len).map fun i => ext ((addr + i) % 16777216)

/-- The `do` loop of `ext_flash_main`: `status` and what the calls leave. The recursion is on
    `package_max`; when it is 0 the size check sets `status` to -3. -/
def extFlashLoop (ext : Nat → UInt8) : Nat → Nat → Ihex → Spm → Int × Ihex × Spm
  | 0, _, s, f => (-3, s, f)
  | packageMax + 1, addr, s, f =>
    let r := ihexPackageProcess s f (extFlashReadData ext addr 512)
    if r.1 = 0 then extFlashLoop ext packageMax (addr + 512) r.2.1 r.2.2 else r

/-- How `ext_flash_main` ends. -/
inductive BootChoice where
  | startApp
  | updateFromExtFlash (startSector : Nat)
  | endlessLoop
  deriving DecidableEq

/-- What `ext_flash_main` leaves: `status`, the internal flash and the choice. -/
structure ExtFlashEnd where
  status : Int
  spm : Spm
  choice : BootChoice

/-- `ext_flash_main`; the decoder's globals are those of a reset. -/
def extFlashMain (ext : Nat → UInt8) (startSection : UInt8) (f : Spm) : ExtFlashEnd :=
  let r := extFlashLoop ext 157 (startSection.toNat * 4096) Ihex.zero f
  let choice :=
    if r.1 < 0 ∧ validImage r.2.2.mem = false then
      if startSection ≠ 0 then .updateFromExtFlash 0 else .endlessLoop
    else .startApp
  ⟨r.1, r.2.2, choice⟩

/-- Package `j` of an update. -/
def extPackage (ext : Nat → UInt8) (startSection : UInt8) (j : Nat) : Bytes :=
  extFlashReadData ext (startSection.toNat * 4096 + 512 * j) 512

/-- **The application is started only whole or untouched.** -/
def WholeOrUntouched (ext : Nat → UInt8) (startSection : UInt8) (f : Spm) : Prop :=
  (extFlashMain ext startSection f).choice = .startApp →
    (extFlashMain ext startSection f).status = 1 ∨ (extFlashMain ext startSection f).spm.log = f.log

/-! ## 2. The loop is a series of calls -/

-- what a call does is looked up in its lemmas, never computed
attribute [local irreducible] ihexPackageProcess decProcess extFlashReadData

section Loop

variable (ext : Nat → UInt8) (addr : Nat) (s : Ihex) (f : Spm)

/-- After `j` answers 0 the loop stands behind `j` calls. -/
theorem extFlashLoop_calls : ∀ (j m : Nat),
    (∀ i, i < j → (ihexCalls (fun k => extFlashReadData ext (addr + 512 * k) 512) s f (i + 1)).1 = 0) →
    extFlashLoop ext (j + m) addr s f =
      extFlashLoop ext m (addr + 512 * j)
        (ihexCalls (fun k => extFlashReadData ext (addr + 512 * k) 512) s f j).2.1
        (ihexCalls (fun k => extFlashReadData ext (addr + 512 * k) 512) s f j).2.2
  | 0, m, _ => by
    rw [Nat.zero_add]
    rfl
  | j + 1, m, h => by
    have ih := extFlashLoop_calls j (m + 1) fun i hi => h i (Nat.lt_succ_of_lt hi)
    have hj := h j (Nat.lt_succ_self j)
    have hsum : j + 1 + m = j + (m + 1) := by omega
    have haddr : addr + 512 * (j + 1) = addr + 512 * j + 512 := by omega
    simp only [ihexCalls] at hj ⊢
    rw [hsum, ih, extFlashLoop, haddr, if_pos hj]

/-- Answers 0 all the way to the limit. -/
theorem extFlashLoop_limit {n : Nat}
    (h : ∀ i, i < n → (ihexCalls (fun k => extFlashReadData ext (addr + 512 * k) 512) s f (i + 1)).1 = 0) :
    extFlashLoop ext n addr s f = (-3, (ihexCalls (fun k => extFlashReadData ext (addr + 512 * k) 512) s f n).2) := by
  have := extFlashLoop_calls ext addr s f n 0 h
  rw [Nat.add_zero] at this
  rw [this]
  rfl

/-- The first answer that is not 0 ends the loop. -/
theorem extFlashLoop_stop {n j : Nat} (hj : j < n)
    (h : ∀ i, i < j → (ihexCalls (fun k => extFlashReadData ext (addr + 512 * k) 512) s f (i + 1)).1 = 0)
    (h1 : (ihexCalls (fun k => extFlashReadData ext (addr + 512 * k) 512) s f (j + 1)).1 ≠ 0) :
    extFlashLoop ext n addr s f = ihexCalls (fun k => extFlashReadData ext (addr + 512 * k) 512) s f (j + 1) := by
  obtain ⟨m, rfl⟩ : ∃ m, n = j + (m + 1) := ⟨n - j - 1, by omega⟩
  rw [extFlashLoop_calls ext addr s f j (m + 1) h]
  unfold extFlashLoop
  simp only [ihexCalls] at h1 ⊢
  rw [if_neg h1]

end Loop

/-- A series answers 0 throughout or there is a first other answer. -/
theorem first_answer (answer : Nat → Int) : ∀ n,
    (∀ i, i < n → answer i = 0) ∨ ∃ j, j < n ∧ (∀ i, i < j → answer i = 0) ∧ answer j ≠ 0
  | 0 => Or.inl fun i hi => absurd hi (Nat.not_lt_zero i)
  | n + 1 => by
    rcases first_answer answer n with h | ⟨j, hj, hz, hne⟩
    · by_cases hn : answer n = 0
      · refine Or.inl fun i hi => ?_
        rcases Nat.lt_succ_iff_lt_or_eq.mp hi with hi | rfl
        · exact h i hi
        · exact hn
      · exact Or.inr ⟨n, Nat.lt_succ_self n, h, hn⟩
    · exact Or.inr ⟨j, Nat.lt_succ_of_lt hj, hz, hne⟩

/-! ## 3. The text of the packages -/

section Text

variable (ext : Nat → UInt8) (startSection : UInt8) (f : Spm)

/-- The decoder when package `j` comes. -/
def extDec (j : Nat) : Dec := (ihexCalls (extPackage ext startSection) Ihex.zero f j).2.1.dec

/-- What the text says when package `j` has come. -/
def extScan (j : Nat) : Scan := (extDec ext startSection f j).scan (extPackage ext startSection j)

/-- Reading goes on through `n` packages, and no further. -/
def ReadsTo (n : Nat) : Prop :=
  n ≤ 157 ∧ (∀ i, i < n → (extScan ext startSection f i).verdict = .more) ∧
    (n < 157 → (extScan ext startSection f n).verdict ≠ .more)

/-- The data found until then. -/
def extData (n : Nat) : Bytes :=
  goodData (extDec ext startSection f n).lines ++ if n < 157 then (extScan ext startSection f n).data else []

/-- **The contents an update can be left to**: reading reaches the end of the file; or not even a
    first page is found before it stops; or the first page is no image, and is refused; or so many
    pages are found that they come round to address 0 again, and the one there is no image. -/
def UpdateSafe : Prop :=
  ∀ n, ReadsTo ext startSection f n →
    (n < 157 ∧ (extScan ext startSection f n).verdict = .ended) ∨
    (extData ext startSection f n).length < 128 ∨
    validImage (pageOf (extData ext startSection f n) 0) = false ∨
    validImage (pageOf (extData ext startSection f n)
      (256 * (((extData ext startSection f n).length / 128 - 1) / 256))) = false

end Text

/-! ## 4. What a series leaves -/

/-- The vectors that end up at address 0. -/
theorem program_validImage (text : Bytes) (f : Spm) {p : Nat} (hp : 0 < p) :
    validImage (program text p f).mem = validImage (pageOf text (256 * ((p - 1) / 256))) := by
  refine validImage_congr fun i hi => ?_
  have h := program_mem text f (256 * ((p - 1) / 256)) i (by omega) p (by omega) (by omega)
  have h0 : 128 * (256 * ((p - 1) / 256) % 256) + i = i := by omega
  rw [h0] at h
  exact h

/-- Programming a page shows in the log. -/
theorem program_log_length (text : Bytes) (f : Spm) : ∀ p,
    (program text p f).log.length = f.log.length + 2 * p
  | 0 => rfl
  | p + 1 => by
    unfold program
    rw [flashPage_log (by omega), List.length_append, program_log_length text f p]
    rfl

/-- Good data is part of the data. -/
theorem goodData_length_le (lines : List Bytes) : (goodData lines).length ≤ (dataOf lines).length := by
  induction lines using List.reverseRecOn with
  | nil => exact Nat.le_refl 0
  | append_singleton lines line ih =>
    rw [dataOf_snoc, List.length_append]
    by_cases h : recType line = 0 → recSum line = 0
    · rw [goodData_snoc _ h, List.length_append]
      exact Nat.add_le_add_right ih _
    · obtain ⟨h0, hs⟩ := Classical.not_imp.mp h
      rw [goodData_snoc_bad _ h0 hs]
      exact Nat.le_add_right_of_le ih

/-- A series only adds lines. -/
theorem decCalls_lines (pk : Nat → Bytes) (d : Dec) (f : Spm) (i : Nat) : ∀ j, i ≤ j →
    (decCalls pk d f i).2.1.lines <+: (decCalls pk d f j).2.1.lines
  | 0, h => by
    obtain rfl := Nat.le_zero.mp h
    exact List.prefix_refl _
  | j + 1, h => by
    rcases Nat.le_succ_iff.mp h with h | rfl
    · exact (decCalls_lines pk d f i j h).trans (decProcess_grows _ _ _).1
    · exact List.prefix_refl _

/-- Two characters a data byte, over a series of packages of 512 bytes. -/
theorem decCalls_dataOf_le {pk : Nat → Bytes} (hpk : ∀ j, (pk j).length ≤ 512) (s : Ihex) (f : Spm) :
    ∀ j, 2 * (dataOf (decCalls pk (ihexInit s).dec f j).2.1.lines).length +
      (decCalls pk (ihexInit s).dec f j).2.1.unread.length ≤ 512 * j
  | 0 => by
    simp [decCalls, Ihex.dec, ihexInit, dataOf]
  | j + 1 => by
    have ih := decCalls_dataOf_le hpk s f j
    have h := decProcess_dataOf_le (decCalls pk (ihexInit s).dec f j).2.1
      (decCalls pk (ihexInit s).dec f j).2.2 (pk j)
    have := hpk j
    simp only [decCalls]
    omega

/-! ## 5. The choice -/

section Choice

variable {ext : Nat → UInt8} {startSection : UInt8} {f : Spm}

/-- The series of an update, in the line machine. -/
def extCalls (ext : Nat → UInt8) (startSection : UInt8) (f : Spm) (j : Nat) : Answer :=
  decCalls (extPackage ext startSection) Ihex.zero.dec f j

theorem extCalls_eq (j : Nat) : ihexCalls (extPackage ext startSection) Ihex.zero f j =
    ((extCalls ext startSection f j).1, (ihexCalls (extPackage ext startSection) Ihex.zero f j).2.1,
      (extCalls ext startSection f j).2.2) := by
  have h1 := ihexCalls_answer (extPackage ext startSection) Ihex.zero f j
  have h2 := ihexCalls_flash (extPackage ext startSection) Ihex.zero f j
  exact Prod.ext h1 (Prod.ext rfl h2)

theorem extCalls_succ (j : Nat) : extCalls ext startSection f (j + 1) =
    decProcess (extCalls ext startSection f j).2.1 (extCalls ext startSection f j).2.2
      (extPackage ext startSection j) := rfl

theorem extDec_eq (j : Nat) : extDec ext startSection f j = (extCalls ext startSection f j).2.1 :=
  congrArg (fun a : Answer => a.2.1) (ihexCalls_dec (extPackage ext startSection) inRange_zero f j).1

theorem extPackage_length (j : Nat) : (extPackage ext startSection j).length = 512 := by
  simp [extPackage, extFlashReadData]

/-- As long as the answers are 0: the decoder is clean. -/
theorem extCalls_clean {j : Nat} (h0 : ∀ i, i < j → (extCalls ext startSection f (i + 1)).1 = 0) :
    Clean f (extCalls ext startSection f j).2.1 (extCalls ext startSection f j).2.2 :=
  decCalls_clean _ (clean_init Ihex.zero f) j h0

/-- An update takes less than 512 pages. -/
theorem extCalls_pages {n p : Nat} (hn : n ≤ 157)
    (hp : 128 * p ≤ (goodData (extCalls ext startSection f n).2.1.lines).length) : p < 512 := by
  have hle := goodData_length_le (extCalls ext startSection f n).2.1.lines
  have hpk : ∀ j, (extPackage ext startSection j).length ≤ 512 := fun j => Nat.le_of_eq (extPackage_length j)
  have h := decCalls_dataOf_le hpk Ihex.zero f n
  have h' : 2 * (dataOf (extCalls ext startSection f n).2.1.lines).length ≤ 512 * n :=
    Nat.le_trans (Nat.le_add_right _ _) h
  omega

/-- **What call `j` does, by the text**: as the text says, or a first page is refused. -/
theorem extCalls_scan {j : Nat} (hj : j < 157) (h0 : ∀ i, i < j → (extCalls ext startSection f (i + 1)).1 = 0) :
    ((extCalls ext startSection f (j + 1)).1 = (extScan ext startSection f j).verdict.answer ∧
      goodData (extCalls ext startSection f (j + 1)).2.1.lines = extData ext startSection f j) ∨
    ((extCalls ext startSection f (j + 1)).1 = -1 ∧ BrokenAt f (extCalls ext startSection f (j + 1)) 0 ∧
      (EndsFile (extCalls ext startSection f (j + 1)).2.1.lines → (extScan ext startSection f j).verdict = .ended) ∧
      goodData (extCalls ext startSection f (j + 1)).2.1.lines <+: extData ext startSection f j) := by
  have hc := extCalls_clean h0
  have hf : (extCalls ext startSection f j).2.1.fifo.length < 256 := Nat.lt_trans hc.fifo_lt (by decide)
  have hdone := decProcess_clean hc (extPackage ext startSection j)
  obtain ⟨m, _, _, hcase⟩ := decProcess_scan _ (extCalls ext startSection f j).2.2 (extPackage ext startSection j) hf
  simp only [dec_feed_lines, ← extCalls_succ] at hcase hdone
  have hscan : (extCalls ext startSection f j).2.1.scan (extPackage ext startSection j) =
      extScan ext startSection f j := by
    unfold extScan
    rw [extDec_eq]
  have hdata : extData ext startSection f j =
      goodData (extCalls ext startSection f j).2.1.lines ++ (extScan ext startSection f j).data := by
    unfold extData
    rw [if_pos hj, extDec_eq]
  rw [hscan] at hcase
  rw [hdata]
  rcases hcase with ⟨_, ha, hg⟩ | ⟨_, ha, _, hend, hg⟩
  · exact Or.inl ⟨ha, hg⟩
  · obtain ⟨p, hb⟩ := hdone.broken (by omega)
    have hp : p < 512 := extCalls_pages hj hb.pages
    have hp0 : p = 0 := by
      have := (hb.refused ha).1
      omega
    subst hp0
    exact Or.inr ⟨ha, hb, hend, hg⟩

/-- A page that was refused shows in the data. -/
theorem refused_first {a : Answer} {data : Bytes} (hb : BrokenAt f a 0) (ha : a.1 = -1)
    (hend : ¬ EndsFile a.2.1.lines) (hpre : goodData a.2.1.lines <+: data) :
    validImage (pageOf data 0) = false := by
  obtain ⟨_, hinv, hlong⟩ := hb.refused ha
  obtain ⟨t, rfl⟩ := hpre
  rcases hlong with h | h
  · exact absurd h hend
  · rw [validImage_append _ (by omega)]
    exact hinv

/-- **If the first page found is an image, the calls answer 0 as long as the text reads on.** -/
theorem readsTo_zero {n : Nat} (hn : n ≤ 157) (hmore : ∀ i, i < n → (extScan ext startSection f i).verdict = .more)
    (hv : validImage (pageOf (extData ext startSection f n) 0) = true) :
    ∀ i, i < n → (extCalls ext startSection f (i + 1)).1 = 0 := by
  rcases first_answer (fun i => (extCalls ext startSection f (i + 1)).1) n with h | ⟨j, hj, hz, hne⟩
  · exact h
  · exfalso
    rcases extCalls_scan (by omega) hz with ⟨ha, _⟩ | ⟨ha, hb, hend, _⟩
    · rw [hmore j hj] at ha
      exact hne ha
    · have hno : ¬ EndsFile (extCalls ext startSection f (j + 1)).2.1.lines := fun h =>
        Verdict.noConfusion ((hmore j hj).symm.trans (hend h))
      have hpre : goodData (extCalls ext startSection f (j + 1)).2.1.lines <+: extData ext startSection f n := by
        unfold extData
        rw [extDec_eq]
        exact (goodData_mono (decCalls_lines _ _ _ (j + 1) n hj)).trans (List.prefix_append _ _)
      exact Bool.noConfusion (hv.symm.trans (refused_first hb ha hno hpre))

/-- As long as the calls answer 0 the text reads on. -/
theorem zero_readsTo {n : Nat} (hn : n ≤ 157) (h0 : ∀ i, i < n → (extCalls ext startSection f (i + 1)).1 = 0) :
    ∀ i, i < n → (extScan ext startSection f i).verdict = .more := by
  intro i hi
  have hz := h0 i hi
  rcases extCalls_scan (by omega) fun k hk => h0 k (Nat.lt_trans hk hi) with ⟨ha, _⟩ | ⟨ha, _⟩
  · rw [hz] at ha
    cases hv : (extScan ext startSection f i).verdict with
    | more => rfl
    | ended | failed =>
      rw [hv] at ha
      exact absurd ha (by decide)
  · rw [hz] at ha
    exact absurd ha (by decide)

/-- The loop of `ext_flash_main` through to the limit. -/
theorem extLoop_limit {n : Nat} (h0 : ∀ i, i < n → (extCalls ext startSection f (i + 1)).1 = 0) :
    (extFlashLoop ext n (startSection.toNat * 4096) Ihex.zero f).1 = -3 ∧
      (extFlashLoop ext n (startSection.toNat * 4096) Ihex.zero f).2.2 = (extCalls ext startSection f n).2.2 := by
  have hpk : (fun k => extFlashReadData ext (startSection.toNat * 4096 + 512 * k) 512) =
      extPackage ext startSection := rfl
  have h := extFlashLoop_limit ext (startSection.toNat * 4096) Ihex.zero f (n := n)
  rw [hpk] at h
  have hz : ∀ i, i < n → (ihexCalls (extPackage ext startSection) Ihex.zero f (i + 1)).1 = 0 := by
    intro i hi
    rw [extCalls_eq]
    exact h0 i hi
  rw [h hz, extCalls_eq]
  exact ⟨rfl, rfl⟩

/-- The loop of `ext_flash_main` up to an answer that is not 0. -/
theorem extLoop_stop {n j : Nat} (hj : j < n) (h0 : ∀ i, i < j → (extCalls ext startSection f (i + 1)).1 = 0)
    (h1 : (extCalls ext startSection f (j + 1)).1 ≠ 0) :
    (extFlashLoop ext n (startSection.toNat * 4096) Ihex.zero f).1 = (extCalls ext startSection f (j + 1)).1 ∧
      (extFlashLoop ext n (startSection.toNat * 4096) Ihex.zero f).2.2 =
        (extCalls ext startSection f (j + 1)).2.2 := by
  have hpk : (fun k => extFlashReadData ext (startSection.toNat * 4096 + 512 * k) 512) =
      extPackage ext startSection := rfl
  have h := extFlashLoop_stop ext (startSection.toNat * 4096) Ihex.zero f hj
  rw [hpk] at h
  have hz : ∀ i, i < j → (ihexCalls (extPackage ext startSection) Ihex.zero f (i + 1)).1 = 0 := by
    intro i hi
    rw [extCalls_eq]
    exact h0 i hi
  have hne : (ihexCalls (extPackage ext startSection) Ihex.zero f (j + 1)).1 ≠ 0 := by
    rw [extCalls_eq]
    exact h1
  rw [h hz hne, extCalls_eq]
  exact ⟨rfl, rfl⟩

/-- What `ext_flash_main` ends with when a call answers neither 0 nor with a bare flash. -/
theorem extFlashMain_started {j : Nat} {a : Answer} (ha : extCalls ext startSection f (j + 1) = a) (hj : j < 157)
    (h0 : ∀ i, i < j → (extCalls ext startSection f (i + 1)).1 = 0) (hne : a.1 ≠ 0)
    (hv : validImage a.2.2.mem = true) :
    extFlashMain ext startSection f = ⟨a.1, a.2.2, .startApp⟩ := by
  obtain ⟨hstatus, hflash⟩ := extLoop_stop hj h0 (by rw [ha]; exact hne)
  rw [ha] at hstatus hflash
  unfold extFlashMain
  simp only [hflash, hstatus, hv]
  rw [if_neg (fun h => Bool.noConfusion h.2)]

/-- An update that has failed with its `p` pages of `data` in the flash: the application is started
    exactly if an image ended up at address 0, and it is untouched exactly if `p` is 0. -/
theorem failed_update {data : Bytes} {p : Nat}
    (hstatus : (extFlashLoop ext 157 (startSection.toNat * 4096) Ihex.zero f).1 < 0)
    (hflash : (extFlashLoop ext 157 (startSection.toNat * 4096) Ihex.zero f).2.2 = program data p f) :
    WholeOrUntouched ext startSection f ↔ p = 0 ∨ validImage (pageOf data (256 * ((p - 1) / 256))) = false := by
  have hne : (extFlashLoop ext 157 (startSection.toNat * 4096) Ihex.zero f).1 ≠ 1 := by omega
  unfold WholeOrUntouched extFlashMain
  simp only [hflash, hstatus, true_and, hne, false_or]
  have hlog : (program data p f).log = f.log ↔ p = 0 := by
    constructor
    · intro h
      have := congrArg List.length h
      rw [program_log_length] at this
      omega
    · rintro rfl
      rfl
  rw [hlog]
  rcases Nat.eq_zero_or_pos p with h0 | hpos
  · exact ⟨fun _ => Or.inl h0, fun _ _ => h0⟩
  · rw [program_validImage _ _ hpos]
    cases hv : validImage (pageOf data (256 * ((p - 1) / 256))) with
    | true =>
      rw [if_neg Bool.noConfusion]
      exact ⟨fun h => Or.inl (h rfl), fun h _ => h.resolve_right Bool.noConfusion⟩
    | false =>
      refine ⟨fun _ => Or.inr rfl, fun _ h => ?_⟩
      rw [if_pos rfl] at h
      split at h <;> exact BootChoice.noConfusion h

/-- Reading stops where the first answer other than 0 is due. -/
theorem readsTo_unique {n m : Nat} (hn : ReadsTo ext startSection f n) (hm : ReadsTo ext startSection f m) :
    m = n := by
  obtain ⟨hn157, hnmore, hnstop⟩ := hn
  obtain ⟨hm157, hmmore, hmstop⟩ := hm
  rcases Nat.lt_trichotomy m n with h | h | h
  · exact absurd (hnmore m h) (hmstop (Nat.lt_of_lt_of_le h hn157))
  · exact h
  · exact absurd (hmmore n h) (hnstop (Nat.lt_of_lt_of_le h hm157))

/-- The condition, for a reading that stops short of the end of the file behind a first page that is
    an image. -/
theorem updateSafe_iff {n : Nat} (hr : ReadsTo ext startSection f n)
    (hno : ¬ (n < 157 ∧ (extScan ext startSection f n).verdict = .ended))
    (hfirst : 128 ≤ (extData ext startSection f n).length →
      validImage (pageOf (extData ext startSection f n) 0) = true) :
    UpdateSafe ext startSection f ↔ (extData ext startSection f n).length / 128 = 0 ∨
      validImage (pageOf (extData ext startSection f n)
        (256 * (((extData ext startSection f n).length / 128 - 1) / 256))) = false := by
  constructor
  · intro hs
    rcases hs n hr with h | h | h | h
    · exact absurd h hno
    · exact Or.inl (Nat.div_eq_of_lt h)
    · refine Or.inl (Nat.div_eq_of_lt (Nat.lt_of_not_le fun hle => ?_))
      exact Bool.noConfusion (h.symm.trans (hfirst hle))
    · exact Or.inr h
  · intro h m hm
    rw [readsTo_unique hr hm]
    rcases h with h | h
    · exact Or.inr (Or.inl (by omega))
    · exact Or.inr (Or.inr (Or.inr h))

/-- 157 packages, and no end. -/
theorem safe_limit (h0 : ∀ i, i < 157 → (extCalls ext startSection f (i + 1)).1 = 0) :
    WholeOrUntouched ext startSection f ↔ UpdateSafe ext startSection f := by
  have hc := extCalls_clean h0
  have hdata : extData ext startSection f 157 = dataOf (extCalls ext startSection f 157).2.1.lines := by
    unfold extData
    rw [if_neg (Nat.lt_irrefl 157), List.append_nil, extDec_eq, goodData_of_accepted hc.accepted]
  have hr : ReadsTo ext startSection f 157 :=
    ⟨Nat.le_refl 157, zero_readsTo (Nat.le_refl 157) h0, fun h => absurd h (Nat.lt_irrefl 157)⟩
  have hfirst := hc.first
  obtain ⟨hstatus, hflash⟩ := extLoop_limit h0
  rw [hc.flash, ← hdata] at hflash
  rw [← hdata] at hfirst
  rw [failed_update (by omega) hflash, updateSafe_iff hr (fun h => Nat.lt_irrefl 157 h.1) hfirst]

section Stopped

-- the first answer that is not 0 is that to package `j`
variable {j : Nat} (hj : j < 157) (h0 : ∀ i, i < j → (extCalls ext startSection f (i + 1)).1 = 0)
  (hne : (extCalls ext startSection f (j + 1)).1 ≠ 0)

include hj h0 hne

/-- Answer -2: the pages of what was found are in the flash. -/
theorem safe_failed (hr : ReadsTo ext startSection f j) (hv : (extScan ext startSection f j).verdict = .failed)
    (ha : (extCalls ext startSection f (j + 1)).1 = -2)
    (hg : goodData (extCalls ext startSection f (j + 1)).2.1.lines = extData ext startSection f j) :
    WholeOrUntouched ext startSection f ↔ UpdateSafe ext startSection f := by
  have hdone : Done f (extCalls ext startSection f (j + 1)) :=
    decCalls_done (extPackage ext startSection) (clean_init Ihex.zero f) j h0
  obtain ⟨hstatus, hflash⟩ := extLoop_stop hj h0 hne
  have hneg : (extCalls ext startSection f (j + 1)).1 < 0 := by
    rw [ha]
    exact Int.negSucc_lt_zero 1
  obtain ⟨p, hb⟩ := hdone.broken hneg
  have hpages := hb.pages
  have hstopped := hb.stopped ha
  have hbflash := hb.flash
  have hbfirst := hb.first
  rw [hg] at hpages hstopped hbflash hbfirst
  have hp : p = (extData ext startSection f j).length / 128 := by omega
  subst hp
  rw [hbflash] at hflash
  rw [← hstatus] at hneg
  rw [failed_update hneg hflash, updateSafe_iff hr (fun h => Verdict.noConfusion (hv.symm.trans h.2))
    fun h => hbfirst (by omega)]

/-- Answer -1: nothing is written, and the first page found is no image. -/
theorem safe_refused (ha : (extCalls ext startSection f (j + 1)).1 = -1)
    (hb : BrokenAt f (extCalls ext startSection f (j + 1)) 0)
    (hend : EndsFile (extCalls ext startSection f (j + 1)).2.1.lines →
      (extScan ext startSection f j).verdict = .ended)
    (hg : goodData (extCalls ext startSection f (j + 1)).2.1.lines <+: extData ext startSection f j) :
    WholeOrUntouched ext startSection f ↔ UpdateSafe ext startSection f := by
  have hmore := zero_readsTo (Nat.le_of_lt hj) h0
  obtain ⟨hstatus, hflash⟩ := extLoop_stop hj h0 hne
  have hneg : (extFlashLoop ext 157 (startSection.toNat * 4096) Ihex.zero f).1 < 0 := by
    rw [hstatus, ha]
    exact Int.negSucc_lt_zero 0
  rw [hb.flash] at hflash
  rw [failed_update hneg hflash]
  refine ⟨fun _ m hm => ?_, fun _ => Or.inl rfl⟩
  cases hvalid : validImage (pageOf (extData ext startSection f m) 0) with
  | false => exact Or.inr (Or.inr (Or.inl rfl))
  | true =>
    have hzero := readsTo_zero hm.1 hm.2.1 hvalid
    have hmj : m = j := by
      rcases Nat.lt_trichotomy m j with h | h | h
      · exact absurd (hmore m h) (hm.2.2 (Nat.lt_trans h hj))
      · exact h
      · exact absurd (hzero j h) hne
    subst hmj
    by_cases hends : EndsFile (extCalls ext startSection f (m + 1)).2.1.lines
    · exact Or.inl ⟨hj, hend hends⟩
    · exact Bool.noConfusion (hvalid.symm.trans (refused_first hb ha hends hg))

end Stopped

/-- **An update is safe exactly for the contents that can be left to it.** -/
theorem extFlashMain_safe_iff (ext : Nat → UInt8) (startSection : UInt8) (f : Spm) :
    WholeOrUntouched ext startSection f ↔ UpdateSafe ext startSection f := by
  rcases first_answer (fun i => (extCalls ext startSection f (i + 1)).1) 157 with h0 | ⟨j, hj, h0, hne⟩
  · exact safe_limit h0
  rcases extCalls_scan hj h0 with ⟨ha, hg⟩ | ⟨ha, hb, hend, hg⟩
  · have hstop : (extScan ext startSection f j).verdict ≠ .more := by
      intro hv
      rw [hv] at ha
      exact hne ha
    have hr : ReadsTo ext startSection f j :=
      ⟨Nat.le_of_lt hj, zero_readsTo (Nat.le_of_lt hj) h0, fun _ => hstop⟩
    cases hv : (extScan ext startSection f j).verdict with
    | more => exact absurd hv hstop
    | ended =>
      -- answer 1
      rw [hv] at ha
      refine ⟨fun _ m hm => ?_, fun _ _ => Or.inl ((extLoop_stop hj h0 hne).1.trans ha)⟩
      rw [readsTo_unique hr hm]
      exact Or.inl ⟨hj, hv⟩
    | failed =>
      rw [hv] at ha
      exact safe_failed hj h0 hne hr hv ha hg
  · exact safe_refused hj h0 hne ha hb hend hg

end Choice

/-- The first package of an external flash that begins with `text`. -/
theorem extPackage_text {text : Bytes} (h : text.length = 512) :
    extPackage (fun i => text.getD i 0xFF) 0 0 = text := by
  unfold extPackage extFlashReadData
  refine List.ext_getElem (by rw [List.length_map, List.length_range, h]) fun i hi hi' => ?_
  have hmod : ((0 : UInt8).toNat * 4096 + 512 * 0 + i) % 16777216 = i := by
    have h0 : (0 : UInt8).toNat = 0 := rfl
    omega
  simp only [List.getElem_map, List.getElem_range]
  rw [hmod, List.getD_eq_getElem _ _ hi']

/-- The first 128 bytes of a file, and an erased flash behind them. -/
def truncatedText : Bytes :=
  linesText (hexLines [0x0A] 0 (List.replicate 8 (vectors 4))) ++ List.replicate 160 0xFF

/-- An external flash that holds them from section 0 on. -/
def truncatedExt (i : Nat) : UInt8 := truncatedText.getD i 0xFF

/-- **A truncated file is started**: its first page is written, the erased flash behind it is no
    record, and the vectors of the new page pass for an application. -/
theorem truncatedExt_started :
    (extFlashMain truncatedExt 0 erasedFlash).choice = .startApp ∧
      (extFlashMain truncatedExt 0 erasedFlash).status = -2 ∧
      (extFlashMain truncatedExt 0 erasedFlash).spm.log ≠ erasedFlash.log ∧
      ¬ WholeOrUntouched truncatedExt 0 erasedFlash := by
  have hlen : truncatedText.length = 512 := by
    unfold truncatedText
    rw [List.length_append, length_hexLines, List.length_replicate]
    rfl
  obtain ⟨ha, hlog, hv⟩ : (firstLines erasedFlash truncatedText).1 = -2 ∧
      (firstLines erasedFlash truncatedText).2.2.log ≠ erasedFlash.log ∧
      validImage (firstLines erasedFlash truncatedText).2.2.mem = true := by
    decide +kernel
  have hpk : extPackage truncatedExt 0 0 = truncatedText := extPackage_text hlen
  have hcall : extCalls truncatedExt 0 erasedFlash (0 + 1) = _ := extCalls_succ 0
  rw [hpk] at hcall
  have hfirst := hcall.trans (decProcess_init erasedFlash (by rw [hlen]; decide))
  generalize firstLines erasedFlash truncatedText = a at ha hlog hv hfirst
  have hmain := extFlashMain_started hfirst (Nat.zero_lt_succ 156)
    (fun i hi => absurd hi (Nat.not_lt_zero i)) (by rw [ha]; decide) hv
  unfold WholeOrUntouched
  rw [hmain, ha]
  refine ⟨rfl, rfl, hlog, fun h => ?_⟩
  rcases h rfl with h1 | h1
  · exact absurd h1 (by simp)
  · exact hlog h1

end SmartHome.Bootloader
