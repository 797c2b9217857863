/-
  Subject:   WHAT A CALL OF THE DECODER MAKES OF ITS LINES.

  The purpose of the decoder, in its own terms: the data of the records, one after the other, cut
  into pages and programmed from address 0 on (`program`). As long as every call has answered 0,
  that is exactly where the decoder stands (`Clean`): all full pages are in the flash, the rest
  waits in the FIFO. This file says what one call does to that:

  * `lineStep_more`, `lineStep_stop` -- everything one line can do, said once;
  * `program`, `program_mem`, `program_log` -- the flash after the first `p` pages of a text;
  * `Clean`, `clean_more` -- the invariant and its step;
  * **`decProcess_clean`** -- from a clean state: answer 0 is clean again, answer 1 has every data
    byte in the flash (`Whole`), and a negative answer has flashed pages of good records only
    (`BrokenAt`).
-/
import SmartHome.Bootloader.LineMachine

namespace SmartHome.Bootloader

open SmartHome.Lib

/-! ## 1. One line, inverted -/

/-- The line a record came from, as the decoder tested it. -/
structure IsRecord (line : Bytes) : Prop where
  colon : line.getD 0 0 = 0x3A
  short : line.length ≤ 80
  long : 11 ≤ line.length
  len : (lineByte line 1).toNat * 2 + 11 = line.length
  chars : ∀ c ∈ line, LineChar c

theorem nextLine_isRecord {u line rest : Bytes} (h : nextLine u = .record line rest) :
    IsRecord line := by
  obtain ⟨hr, h80, h11, hcol, hlen⟩ := nextLine_record h
  have hc := readLine_lineChar u [] fun c hc => absurd hc List.not_mem_nil
  rw [hr] at hc
  exact ⟨hcol, h80, h11, hlen, hc⟩

/-- The length is odd, so a record never fills the line buffer. -/
theorem IsRecord.lt {line : Bytes} (h : IsRecord line) : line.length < 80 := by
  have := h.short
  have := h.len
  omega

theorem recData_length (line : Bytes) : (recData line).length = (lineByte line 1).toNat := by
  simp [recData]

/-- A record carries at most 34 data bytes. -/
theorem IsRecord.data_le {line : Bytes} (h : IsRecord line) : (recData line).length ≤ 34 := by
  rw [recData_length]
  have := h.short
  have := h.len
  omega

/-! Each kind of line, forward. -/

section Kinds

variable {p : Pending} {line rest : Bytes}

theorem lineStep_blank (h : nextLine p.d.unread = .blank) :
    lineStep p = .inl (if p.pageLen > 0 ∨ p.err = .empty then 0 else -2, p.d, p.f) := by
  unfold lineStep
  rw [h]

theorem lineStep_bad (h : nextLine p.d.unread = .bad) : lineStep p = .inl (-2, p.d, p.f) := by
  unfold lineStep
  rw [h]

theorem lineStep_incomplete (h : nextLine p.d.unread = .incomplete) : lineStep p = .inl (0, p.d, p.f) := by
  unfold lineStep
  rw [h]

theorem lineStep_data (h : nextLine p.d.unread = .record line rest) (h0 : recType line = 0) :
    lineStep p = dataStep (p.d.take line rest) p.f line := by
  unfold lineStep
  rw [h]
  exact if_pos h0

theorem lineStep_end (h : nextLine p.d.unread = .record line rest) (h1 : recType line = 1) :
    lineStep p = .inl (endStep (p.d.take line rest) p.f p.pageLen) := by
  unfold lineStep
  rw [h]
  simp only
  rw [if_neg (by rw [h1]; decide), if_pos h1]

theorem lineStep_pass (h : nextLine p.d.unread = .record line rest) (h0 : recType line ≠ 0)
    (h1 : recType line ≠ 1) : lineStep p = .inr ⟨p.d.take line rest, p.f, p.pageLen, .none⟩ := by
  unfold lineStep
  rw [h]
  simp only
  rw [if_neg h0, if_neg h1]

end Kinds

/-- **A line that goes on**: a data record that leaves the page open, one that fills it, or a
    record of a type the decoder passes over. -/
theorem lineStep_more {p p' : Pending} (h : lineStep p = .inr p') :
    ∃ line rest, nextLine p.d.unread = .record line rest ∧
      ((recType line = 0 ∧ recSum line = 0 ∧ ((p.d.take line rest).push (recData line)).fifo.length < 128 ∧
          p' = ⟨(p.d.take line rest).push (recData line), p.f,
            ((p.d.take line rest).push (recData line)).fifo.length, .none⟩) ∨ (recType line = 0 ∧ recSum line = 0 ∧
          128 ≤ ((p.d.take line rest).push (recData line)).fifo.length ∧
          ¬ ((p.d.take line rest).push (recData line)).refused 128 ∧
          p' = ⟨{ ((p.d.take line rest).push (recData line)).drop 128 with
              writeAddr := (p.d.writeAddr + 128) % 65536 },
            ((p.d.take line rest).push (recData line)).flash 128 p.f, 0, .empty⟩) ∨
        (recType line ≠ 0 ∧ recType line ≠ 1 ∧ p' = ⟨p.d.take line rest, p.f, p.pageLen, .none⟩)) := by
  unfold lineStep at h
  split at h
  · cases h
  · cases h
  · cases h
  · rename_i line rest hn
    refine ⟨line, rest, hn, ?_⟩
    simp only at h
    split at h
    · rename_i h0
      unfold dataStep at h
      simp only at h
      split at h
      · cases h
      · rename_i hs
        have hs0 : recSum line = 0 := by simpa using hs
        split at h
        · rename_i hl
          cases h
          exact Or.inl ⟨h0, hs0, hl, rfl⟩
        · rename_i hl
          split at h
          · cases h
          · rename_i hv
            cases h
            exact Or.inr (Or.inl ⟨h0, hs0, by omega, hv, rfl⟩)
    · rename_i h0
      split at h
      · cases h
      · rename_i h1
        cases h
        exact Or.inr (Or.inr ⟨h0, h1, rfl⟩)

/-- **A line that ends the call**: no record, or one that is not all there; a data record with a
    wrong checksum; a first page that is no image; the end record. -/
theorem lineStep_stop {p : Pending} {a : Answer} (h : lineStep p = .inl a) :
    ((a.1 = 0 ∨ a.1 = -2) ∧ a.2 = (p.d, p.f)) ∨ ∃ line rest, nextLine p.d.unread = .record line rest ∧
      ((recType line = 0 ∧ recSum line ≠ 0 ∧ a = (-2, (p.d.take line rest).push (recData line), p.f)) ∨
        (recType line = 0 ∧ recSum line = 0 ∧ 128 ≤ ((p.d.take line rest).push (recData line)).fifo.length ∧
          ((p.d.take line rest).push (recData line)).refused 128 ∧
          a = (-1, ((p.d.take line rest).push (recData line)).drop 128, p.f)) ∨
        (recType line = 1 ∧ a = endStep (p.d.take line rest) p.f p.pageLen)) := by
  unfold lineStep at h
  split at h
  · cases h
    refine Or.inl ⟨?_, rfl⟩
    simp only
    split
    · exact Or.inl rfl
    · exact Or.inr rfl
  · cases h
    exact Or.inl ⟨Or.inr rfl, rfl⟩
  · cases h
    exact Or.inl ⟨Or.inl rfl, rfl⟩
  · rename_i line rest hn
    refine Or.inr ⟨line, rest, hn, ?_⟩
    simp only at h
    split at h
    · rename_i h0
      unfold dataStep at h
      simp only at h
      split at h
      · rename_i hs
        cases h
        exact Or.inl ⟨h0, by simpa using hs, rfl⟩
      · rename_i hs
        split at h
        · cases h
        · rename_i hl
          split at h
          · rename_i hv
            cases h
            exact Or.inr (Or.inl ⟨h0, by simpa using hs, by omega, hv, rfl⟩)
          · cases h
    · split at h
      · rename_i h1
        cases h
        exact Or.inr (Or.inr ⟨h1, rfl⟩)
      · cases h

/-- **The induction over one package**: an invariant kept by every line that goes on gives what
    every line that ends the call makes of it. -/
theorem decProcess_rule (I : Pending → Prop) (Q : Answer → Prop) (hmore : ∀ p p', I p → lineStep p = .inr p' → I p')
    (hstop : ∀ p a, I p → lineStep p = .inl a → Q a) (d : Dec) (f : Spm) (package : Bytes)
    (h : I ⟨d.feed package, f, 0, .empty⟩) : Q (decProcess d f package) :=
  loop_rule (fun p => p.d.unread.length) I Q (fun _ _ hs => lineStep_lt hs) (fun p a hI hs => hstop p a hI hs)
    (fun p p' hI hs => hmore p p' hI hs) _ _ (Nat.lt_succ_self _) h

section Keeps

variable {L : List Bytes → Prop} {K : Spm → Prop} (hline : ∀ lines line, L lines → L (lines ++ [line]))
  (hpage : ∀ addr page g, K g → K (flashPage addr page g))

include hline hpage

/-- A line is taken or not, a page is written or not: what both keep, `lineStep` keeps. -/
theorem lineStep_keeps {p : Pending} (hL : L p.d.lines) (hK : K p.f) :
    (∀ p', lineStep p = .inr p' → L p'.d.lines ∧ K p'.f) ∧ (∀ a, lineStep p = .inl a → L a.2.1.lines ∧ K a.2.2) := by
  refine ⟨fun p' hs => ?_, fun a hs => ?_⟩
  · obtain ⟨line, rest, _, hcase⟩ := lineStep_more hs
    have h := hline _ line hL
    rcases hcase with ⟨_, _, _, rfl⟩ | ⟨_, _, _, _, rfl⟩ | ⟨_, _, rfl⟩
    · exact ⟨h, hK⟩
    · exact ⟨h, hpage _ _ _ hK⟩
    · exact ⟨h, hK⟩
  · rcases lineStep_stop hs with ⟨_, hdf⟩ | ⟨line, rest, _, hcase⟩
    · rw [hdf]
      exact ⟨hL, hK⟩
    · have h := hline _ line hL
      rcases hcase with ⟨_, _, rfl⟩ | ⟨_, _, _, _, rfl⟩ | ⟨_, rfl⟩
      · exact ⟨h, hK⟩
      · exact ⟨h, hK⟩
      · unfold endStep
        split
        · exact ⟨h, hK⟩
        · split
          · exact ⟨h, hK⟩
          · exact ⟨h, hpage _ _ _ hK⟩

/-- **A call takes lines and writes pages, and does nothing else**: what every line and every page
    keeps, it keeps. -/
theorem decProcess_keeps {d : Dec} {f : Spm} (package : Bytes) (hL : L d.lines) (hK : K f) :
    L (decProcess d f package).2.1.lines ∧ K (decProcess d f package).2.2 :=
  decProcess_rule (fun p => L p.d.lines ∧ K p.f) (fun a => L a.2.1.lines ∧ K a.2.2)
    (fun _ p' hI hs => (lineStep_keeps hline hpage hI.1 hI.2).1 p' hs)
    (fun _ a hI hs => (lineStep_keeps hline hpage hI.1 hI.2).2 a hs) d f package ⟨hL, hK⟩

end Keeps

/-- **The same, until something shows in the lines** that more lines do not take away. -/
theorem decProcess_until {L : List Bytes → Prop} (hline : ∀ lines line, L lines → L (lines ++ [line]))
    (I : Pending → Prop) (Q : Answer → Prop) (hmore : ∀ p p', I p → lineStep p = .inr p' → I p' ∨ L p'.d.lines)
    (hstop : ∀ p a, I p → lineStep p = .inl a → Q a ∨ L a.2.1.lines) (d : Dec) (f : Spm) (package : Bytes)
    (h : I ⟨d.feed package, f, 0, .empty⟩) :
    Q (decProcess d f package) ∨ L (decProcess d f package).2.1.lines := by
  have hkeeps : ∀ p : Pending, L p.d.lines → _ := fun p hL =>
    lineStep_keeps (K := fun _ => True) hline (fun _ _ _ _ => trivial) hL trivial
  refine decProcess_rule (fun p => I p ∨ L p.d.lines) (fun a => Q a ∨ L a.2.1.lines) ?_ ?_ d f package (Or.inl h)
  · rintro p p' (hI | hL) hs
    · exact hmore p p' hI hs
    · exact Or.inr ((hkeeps p hL).1 p' hs).1
  · rintro p a (hI | hL) hs
    · exact hstop p a hI hs
    · exact Or.inr ((hkeeps p hL).2 a hs).1

/-- With nothing unread, a package that fits the ring is all there is to read. -/
theorem feed_first {d : Dec} (hd : d.unread = []) {text : Bytes} (h : text.length < 592) :
    d.feed text = { d with unread := text } := by
  unfold Dec.feed
  rw [hd, pushList_append _ _ (by rw [List.length_nil, Nat.zero_add]; exact h), List.nil_append]

/-- A call on a decoder that has read everything: its lines are those of the package. -/
theorem decProcess_first {d : Dec} (hd : d.unread = []) (f : Spm) {text : Bytes} (h : text.length < 592) :
    decProcess d f text = lineLoop (text.length + 1) ⟨{ d with unread := text }, f, 0, .empty⟩ := by
  unfold decProcess
  rw [feed_first hd h]

/-- The lines of a text, read by a decoder that has just begun. -/
def firstLines (f : Spm) (text : Bytes) : Answer :=
  lineLoop (text.length + 1) ⟨⟨text, [], 0, []⟩, f, 0, .empty⟩

theorem decProcess_init (f : Spm) {text : Bytes} (h : text.length < 592) :
    decProcess ⟨[], [], 0, []⟩ f text = firstLines f text := decProcess_first rfl f h

/-! ## 2. Programming a text page by page -/

/-- Byte `i` of page `k` of a text; past its end 0xFF. -/
def pageOf (text : Bytes) (k i : Nat) : UInt8 := text.getD (128 * k + i) 0xFF

/-- The first `p` pages of a text, programmed one after the other from address 0 on. -/
def program (text : Bytes) : Nat → Spm → Spm
  | 0, f => f
  | p + 1, f => flashPage (128 * p % 65536) (pageOf text p) (program text p f)

theorem padded_take_drop (text : Bytes) (k n i : Nat) (h : text.length ≤ 128 * k + n ∨ i < n) :
    padded ((text.drop (128 * k)).take n) i = pageOf text k i := by
  unfold padded pageOf
  simp only [List.getD_eq_getElem?_getD, List.getElem?_take, List.getElem?_drop]
  by_cases hi : i < n
  · rw [if_pos hi]
  · rw [if_neg hi, List.getElem?_eq_none (by omega)]

/-- Pages that are full do not change when the text grows. -/
theorem pageOf_append (text more : Bytes) {k i : Nat} (h : 128 * k + i < text.length) :
    pageOf (text ++ more) k i = pageOf text k i := by
  unfold pageOf
  simp only [List.getD_eq_getElem?_getD, List.getElem?_append_left h]

theorem flashPage_congr (addr : Nat) {page page' : Nat → UInt8} (h : ∀ i, i < 128 → page i = page' i)
    (f : Spm) : flashPage addr page f = flashPage addr page' f := by
  have hw : ∀ k, k ≤ 64 → ∀ g, fillWords addr page k g = fillWords addr page' k g := by
    intro k
    induction k with
    | zero => intro _ _; rfl
    | succ k ih =>
      intro hk g
      unfold fillWords
      rw [ih (by omega)]
      congr 1
      unfold pageWord
      rw [h (2 * k) (by omega), h (2 * k + 1) (by omega)]
  unfold flashPage
  rw [hw 64 (Nat.le_refl _)]

theorem program_append (text more : Bytes) (f : Spm) : ∀ p, 128 * p ≤ text.length →
    program (text ++ more) p f = program text p f
  | 0, _ => rfl
  | p + 1, h => by
    unfold program
    rw [program_append text more f p (by omega)]
    exact flashPage_congr _ (fun i hi => pageOf_append text more (by omega)) _

/-- Programming logs an erase and a write for each page. -/
theorem program_log (text : Bytes) (f : Spm) : ∀ p, (program text p f).log = f.log ++
    (List.range p).flatMap fun k =>
      [.erase (128 * k % 65536), .write (128 * k % 65536) ((List.range 128).map (pageOf text k))]
  | 0 => by simp [program]
  | p + 1 => by
    unfold program
    have hr : List.range (p + 1) = List.range p ++ [p] := List.range_succ
    rw [flashPage_log (by omega), program_log text f p, hr, List.flatMap_append, List.append_assoc]
    simp

/-- The page of the flash the `k`th page of a text goes to. -/
theorem pageNo_page (k : Nat) : pageNo (128 * k % 65536) = k % 256 := by
  unfold pageNo
  omega

/-- **What is in the flash** after `p` pages: in page `k`, unless a later page went there too, the
    `k`th page of the text. -/
theorem program_mem (text : Bytes) (f : Spm) (k i : Nat) (hi : i < 128) : ∀ p, k < p → p ≤ k + 256 →
    (program text p f).mem (128 * (k % 256) + i) = pageOf text k i
  | 0, h, _ => absurd h (Nat.not_lt_zero _)
  | p + 1, h, h' => by
    unfold program
    rw [flashPage_mem (by omega), pageNo_page]
    have hpage : (128 * (k % 256) + i) / 128 = k % 256 := by omega
    have hoff : (128 * (k % 256) + i) % 128 = i := by omega
    rw [hpage, hoff]
    by_cases hk : k = p
    · rw [if_pos (by rw [hk]), hk]
    · rw [if_neg (by omega)]
      exact program_mem text f k i hi p (by omega) (by omega)

/-! ## 3. Where the decoder stands -/

/-- The data of a line: a data record's bytes, nothing for any other record. -/
def lineData (line : Bytes) : Bytes := if recType line = 0 then recData line else []

/-- The data of all lines, in order. -/
def dataOf (lines : List Bytes) : Bytes := lines.flatMap lineData

/-- The data of the lines whose checksum is right. -/
def goodData (lines : List Bytes) : Bytes :=
  dataOf (lines.filter fun l => recType l != 0 || recSum l == 0)

/-- A line the decoder accepts: a record, and its checksum is right if it is a data record. -/
structure Accepted (line : Bytes) : Prop extends IsRecord line where
  sum : recType line = 0 → recSum line = 0

theorem dataOf_snoc (lines : List Bytes) (line : Bytes) :
    dataOf (lines ++ [line]) = dataOf lines ++ lineData line := by
  simp [dataOf]

/-- A data record adds its bytes. -/
theorem dataOf_data (lines : List Bytes) {line : Bytes} (h0 : recType line = 0) :
    dataOf (lines ++ [line]) = dataOf lines ++ recData line := by
  rw [dataOf_snoc, lineData, if_pos h0]

/-- Any other adds nothing. -/
theorem dataOf_other (lines : List Bytes) {line : Bytes} (h0 : recType line ≠ 0) :
    dataOf (lines ++ [line]) = dataOf lines := by
  rw [dataOf_snoc, lineData, if_neg h0, List.append_nil]

theorem goodData_of_accepted {lines : List Bytes} (h : ∀ l ∈ lines, Accepted l) :
    goodData lines = dataOf lines := by
  unfold goodData
  rw [List.filter_eq_self.mpr]
  intro l hl
  have := (h l hl).sum
  simp only [Bool.or_eq_true, bne_iff_ne, beq_iff_eq]
  by_cases h0 : recType l = 0
  · exact Or.inr (this h0)
  · exact Or.inl h0

theorem goodData_snoc (lines : List Bytes) {line : Bytes} (h : recType line = 0 → recSum line = 0) :
    goodData (lines ++ [line]) = goodData lines ++ lineData line := by
  unfold goodData
  rw [List.filter_append]
  by_cases h0 : recType line = 0
  · simp [h0, h h0, dataOf]
  · simp [h0, dataOf]

theorem goodData_snoc_bad (lines : List Bytes) {line : Bytes} (h0 : recType line = 0)
    (hs : recSum line ≠ 0) : goodData (lines ++ [line]) = goodData lines := by
  unfold goodData
  rw [List.filter_append]
  simp [h0, hs]

theorem goodData_mono {ls ms : List Bytes} (h : ls <+: ms) : goodData ls <+: goodData ms := by
  obtain ⟨t, rfl⟩ := h
  unfold goodData dataOf
  rw [List.filter_append, List.flatMap_append]
  exact List.prefix_append _ _

/-- **A clean decoder**, over the flash `f₀` it started from: every line taken is accepted and none
    is the end record, the full pages of the data are in the flash, the first one an image, and the
    rest waits in the FIFO. -/
structure Clean (f₀ : Spm) (d : Dec) (f : Spm) : Prop where
  accepted : ∀ l ∈ d.lines, Accepted l
  noEnd : ∀ l ∈ d.lines, recType l ≠ 1
  fifo : d.fifo = (dataOf d.lines).drop (128 * ((dataOf d.lines).length / 128))
  addr : d.writeAddr = 128 * ((dataOf d.lines).length / 128) % 65536
  flash : f = program (dataOf d.lines) ((dataOf d.lines).length / 128) f₀
  first : 128 ≤ (dataOf d.lines).length → validImage (pageOf (dataOf d.lines) 0) = true

/-- The last line taken is an end record. -/
def EndsFile (lines : List Bytes) : Prop := ∃ before line, lines = before ++ [line] ∧ recType line = 1

/-- **Answer 1**: the last line taken is the end record, all before it were accepted, and every
    data byte is in the flash. -/
structure Whole (f₀ : Spm) (d : Dec) (f : Spm) : Prop where
  accepted : ∀ l ∈ d.lines, Accepted l
  ended : ∃ before line, d.lines = before ++ [line] ∧ recType line = 1 ∧ ∀ l ∈ before, recType l ≠ 1
  fifo : d.fifo = []
  partPage : (dataOf d.lines).length % 128 ≠ 0
  flash : f = program (dataOf d.lines) ((dataOf d.lines).length / 128 + 1) f₀

/-- **A negative answer** after `p` pages: what was flashed are the full pages of the records whose
    checksum is right, all of them (-2), or those before a page at address 0 that is no image (-1). -/
structure BrokenAt (f₀ : Spm) (a : Answer) (p : Nat) : Prop where
  pages : 128 * p ≤ (goodData a.2.1.lines).length
  flash : a.2.2 = program (goodData a.2.1.lines) p f₀
  first : 0 < p → validImage (pageOf (goodData a.2.1.lines) 0) = true
  stopped : a.1 = -2 → (goodData a.2.1.lines).length < 128 * p + 128
  refused : a.1 = -1 → p % 512 = 0 ∧ validImage (pageOf (goodData a.2.1.lines) p) = false ∧
    (EndsFile a.2.1.lines ∨ 128 * p + 128 ≤ (goodData a.2.1.lines).length)

theorem Clean.fifo_lt {f₀ : Spm} {d : Dec} {f : Spm} (h : Clean f₀ d f) : d.fifo.length < 128 := by
  rw [h.fifo, List.length_drop]
  omega

/-- A first page that is there stays what it is when the text grows. -/
theorem validImage_append {text : Bytes} (more : Bytes) (h : 128 ≤ text.length) :
    validImage (pageOf (text ++ more) 0) = validImage (pageOf text 0) :=
  validImage_congr fun i hi => pageOf_append text more (by omega)

/-- The waiting bytes of a clean decoder, with more data behind them. -/
theorem Clean.push_fifo {f₀ : Spm} {d : Dec} {f : Spm} (h : Clean f₀ d f) (line rest : Bytes)
    (hrec : IsRecord line) (h0 : recType line = 0) :
    ((d.take line rest).push (recData line)).fifo =
      (dataOf (d.lines ++ [line])).drop (128 * ((dataOf d.lines).length / 128)) := by
  have hlt := h.fifo_lt
  have hle := hrec.data_le
  rw [dec_push_fifo, dec_take_fifo, pushList_append _ _ (by omega), h.fifo, dataOf_data _ h0,
    List.drop_append_of_le_length (by omega)]

theorem accepted_snoc {lines : List Bytes} {line : Bytes} (h : ∀ l ∈ lines, Accepted l)
    (hline : Accepted line) : ∀ l ∈ lines ++ [line], Accepted l := by
  intro l hl
  rcases List.mem_append.mp hl with hl | hl
  · exact h l hl
  · rw [List.mem_singleton.mp hl]
    exact hline

theorem noEnd_snoc {lines : List Bytes} {line : Bytes} (h : ∀ l ∈ lines, recType l ≠ 1)
    (hline : recType line ≠ 1) : ∀ l ∈ lines ++ [line], recType l ≠ 1 := by
  intro l hl
  rcases List.mem_append.mp hl with hl | hl
  · exact h l hl
  · rw [List.mem_singleton.mp hl]
    exact hline

section Line

variable {f₀ : Spm} {d : Dec} {f : Spm} (hc : Clean f₀ d f) {line : Bytes} (rest : Bytes)
  (hrec : IsRecord line)

include hc hrec

/-- A data record that leaves the page open. -/
theorem Clean.unfilled (h0 : recType line = 0) (hsum : recSum line = 0)
    (hlt : ((d.take line rest).push (recData line)).fifo.length < 128) :
    Clean f₀ ((d.take line rest).push (recData line)) f := by
  have hfifo := hc.push_fifo line rest hrec h0
  have hd := dataOf_data d.lines h0
  rw [hfifo, List.length_drop] at hlt
  have hdiv : (dataOf (d.lines ++ [line])).length / 128 = (dataOf d.lines).length / 128 := by
    have hlen := congrArg List.length hd
    rw [List.length_append] at hlen
    omega
  refine ⟨accepted_snoc hc.accepted ⟨hrec, fun _ => hsum⟩, noEnd_snoc hc.noEnd (by rw [h0]; decide), ?_, ?_, ?_, ?_⟩
  · simp only [dec_push_lines, dec_take_lines]
    rw [hfifo, hdiv]
  · simp only [dec_push_lines, dec_take_lines, dec_push_writeAddr, dec_take_writeAddr]
    rw [hdiv]
    exact hc.addr
  · simp only [dec_push_lines, dec_take_lines]
    rw [hdiv, hd, program_append _ _ _ _ (by omega)]
    exact hc.flash
  · intro h128
    have h128' : 128 ≤ (dataOf d.lines).length := by
      simp only [dec_push_lines, dec_take_lines] at h128
      omega
    simp only [dec_push_lines, dec_take_lines]
    rw [hd, validImage_append _ h128']
    exact hc.first h128'

/-- A data record that fills the page: the page goes to the flash. -/
theorem Clean.filled (h0 : recType line = 0) (hsum : recSum line = 0)
    (hge : 128 ≤ ((d.take line rest).push (recData line)).fifo.length)
    (hv : ¬ ((d.take line rest).push (recData line)).refused 128) :
    Clean f₀ { ((d.take line rest).push (recData line)).drop 128 with writeAddr := (d.writeAddr + 128) % 65536 }
      (((d.take line rest).push (recData line)).flash 128 f) := by
  have hfifo := hc.push_fifo line rest hrec h0
  have hd := dataOf_data d.lines h0
  have hle := hrec.data_le
  have hlen := congrArg List.length hd
  rw [List.length_append] at hlen
  rw [hfifo, List.length_drop] at hge
  have hdiv : (dataOf (d.lines ++ [line])).length / 128 = (dataOf d.lines).length / 128 + 1 := by
    omega
  have haddr := hc.addr
  refine ⟨accepted_snoc hc.accepted ⟨hrec, fun _ => hsum⟩, noEnd_snoc hc.noEnd (by rw [h0]; decide), ?_, ?_, ?_, ?_⟩
  · simp only [dec_drop_fifo, dec_drop_lines, dec_push_lines, dec_take_lines]
    rw [hfifo, List.drop_drop, hdiv]
    congr 1
  · simp only [dec_drop_lines, dec_push_lines, dec_take_lines]
    rw [hdiv]
    omega
  · simp only [dec_drop_lines, dec_push_lines, dec_take_lines]
    rw [hdiv]
    unfold Dec.flash program
    simp only [dec_push_writeAddr, dec_take_writeAddr]
    rw [hfifo, haddr, hc.flash, hd, program_append _ _ _ _ (by omega), ← hd]
    exact flashPage_congr _ (fun i hi => padded_take_drop _ _ _ _ (Or.inr hi)) _
  · intro _
    simp only [dec_drop_lines, dec_push_lines, dec_take_lines]
    by_cases h128 : 128 ≤ (dataOf d.lines).length
    · rw [hd, validImage_append _ h128]
      exact hc.first h128
    · -- the first page, which was not refused
      have hfirst : (dataOf d.lines).length / 128 = 0 := by omega
      have hvalid : validImage (padded (((d.take line rest).push (recData line)).fifo.take 128)) = true :=
        Bool.of_not_eq_false fun hf => hv ⟨by
          rw [dec_push_writeAddr, dec_take_writeAddr, haddr, hfirst], hf⟩
      rw [hfifo, hfirst] at hvalid
      rw [← hvalid]
      exact validImage_congr fun i hi => (padded_take_drop _ 0 128 i (Or.inr (by omega))).symm

/-- A record the decoder passes over. -/
theorem Clean.pass (h0 : recType line ≠ 0) (h1 : recType line ≠ 1) : Clean f₀ (d.take line rest) f := by
  have hd := dataOf_other d.lines h0
  refine ⟨accepted_snoc hc.accepted ⟨hrec, fun h => absurd h h0⟩, noEnd_snoc hc.noEnd h1, ?_, ?_, ?_, ?_⟩
  · simp only [dec_take_lines, dec_take_fifo]
    rw [hd]
    exact hc.fifo
  · simp only [dec_take_lines, dec_take_writeAddr]
    rw [hd]
    exact hc.addr
  · simp only [dec_take_lines]
    rw [hd]
    exact hc.flash
  · simp only [dec_take_lines]
    rw [hd]
    exact hc.first

end Line

/-- Between two lines of a call: clean, and `page_len` is 0 or counts the waiting bytes. -/
def CleanPending (f₀ : Spm) (p : Pending) : Prop :=
  Clean f₀ p.d p.f ∧ (p.pageLen = 0 ∨ p.pageLen = p.d.fifo.length)

/-- **A line that goes on keeps the decoder clean.** -/
theorem clean_more {f₀ : Spm} {p p' : Pending} (h : CleanPending f₀ p) (hs : lineStep p = .inr p') :
    CleanPending f₀ p' := by
  obtain ⟨hc, hp⟩ := h
  obtain ⟨line, rest, hn, hcase⟩ := lineStep_more hs
  have hrec := nextLine_isRecord hn
  rcases hcase with ⟨h0, hsum, hlt, rfl⟩ | ⟨h0, hsum, hge, hv, rfl⟩ | ⟨h0, h1, rfl⟩
  · exact ⟨hc.unfilled rest hrec h0 hsum hlt, Or.inr rfl⟩
  · exact ⟨hc.filled rest hrec h0 hsum hge hv, Or.inl rfl⟩
  · exact ⟨hc.pass rest hrec h0 h1, hp⟩

/-- What a clean decoder makes of a call, by its answer. -/
structure Done (f₀ : Spm) (a : Answer) : Prop where
  answer : a.1 = 0 ∨ a.1 = 1 ∨ a.1 = -1 ∨ a.1 = -2
  clean : a.1 = 0 → Clean f₀ a.2.1 a.2.2
  whole : a.1 = 1 → Whole f₀ a.2.1 a.2.2
  broken : a.1 < 0 → ∃ p, BrokenAt f₀ a p

theorem Done.negative {f₀ : Spm} {a : Answer} (h : a.1 = -1 ∨ a.1 = -2) {p : Nat} (hb : BrokenAt f₀ a p) :
    Done f₀ a where
  answer := by omega
  clean h0 := by omega
  whole h1 := by omega
  broken _ := ⟨p, hb⟩

/-- A clean decoder that fails without a further page: all full pages of the good data are in the
    flash. -/
theorem Clean.failed {f₀ : Spm} {d : Dec} {f : Spm} (h : Clean f₀ d f) {d' : Dec}
    (hd : goodData d'.lines = dataOf d.lines) : Done f₀ (-2, d', f) := by
  refine Done.negative (p := (dataOf d.lines).length / 128) (Or.inr rfl) ?_
  refine ⟨?_, ?_, ?_, ?_, fun h1 => absurd h1 (by simp)⟩
  · rw [hd]
    omega
  · rw [hd]
    exact h.flash
  · intro hp
    rw [hd]
    exact h.first (by omega)
  · intro _
    rw [hd]
    omega

/-- **The end record** on a clean decoder. -/
theorem clean_endStep {f₀ : Spm} {p : Pending} (h : CleanPending f₀ p) {line rest : Bytes}
    (hrec : IsRecord line) (h1 : recType line = 1) :
    Done f₀ (endStep (p.d.take line rest) p.f p.pageLen) := by
  obtain ⟨hc, hp⟩ := h
  have h0 : recType line ≠ 0 := by
    rw [h1]
    decide
  have hline : Accepted line := ⟨hrec, fun h => absurd h h0⟩
  have hd := dataOf_other p.d.lines h0
  have hgood : goodData (p.d.lines ++ [line]) = dataOf p.d.lines := by
    rw [goodData_of_accepted (accepted_snoc hc.accepted hline), hd]
  have haddr := hc.addr
  unfold endStep
  by_cases hz : p.pageLen = 0
  · rw [if_pos hz]
    exact hc.failed hgood
  rw [if_neg hz]
  have hlen : p.pageLen = p.d.fifo.length := by
    rcases hp with hp | hp
    · exact absurd hp hz
    · exact hp
  have hfifo := congrArg List.length hc.fifo
  rw [List.length_drop] at hfifo
  have hpage : ∀ i, padded (p.d.fifo.take p.pageLen) i =
      pageOf (dataOf p.d.lines) ((dataOf p.d.lines).length / 128) i := by
    intro i
    rw [hc.fifo]
    exact padded_take_drop _ _ _ _ (Or.inl (by omega))
  by_cases hv : (p.d.take line rest).refused p.pageLen
  · rw [if_pos hv]
    obtain ⟨hw, hinv⟩ := hv
    refine Done.negative (p := (dataOf p.d.lines).length / 128) (Or.inl rfl) ?_
    refine ⟨?_, ?_, ?_, fun h2 => absurd h2 (by simp), fun _ => ⟨?_, ?_, Or.inl ⟨_, _, rfl, h1⟩⟩⟩
    · simp only [dec_drop_lines, dec_take_lines]
      rw [hgood]
      omega
    · simp only [dec_drop_lines, dec_take_lines]
      rw [hgood]
      exact hc.flash
    · intro hpos
      simp only [dec_drop_lines, dec_take_lines]
      rw [hgood]
      exact hc.first (by omega)
    · rw [dec_take_writeAddr] at hw
      omega
    · simp only [dec_drop_lines, dec_take_lines]
      rw [hgood, ← hinv]
      exact validImage_congr fun i _ => (hpage i).symm
  rw [if_neg hv]
  refine ⟨Or.inr (Or.inl rfl), fun h => absurd h Int.one_ne_zero, fun _ => ?_,
    fun h => absurd h (by simp)⟩
  refine ⟨accepted_snoc hc.accepted hline, ⟨p.d.lines, line, rfl, h1, hc.noEnd⟩, ?_, ?_, ?_⟩
  · simp [hlen]
  · simp only [dec_drop_lines, dec_take_lines]
    rw [hd]
    omega
  · simp only [dec_drop_lines, dec_take_lines]
    rw [hd]
    unfold Dec.flash program
    simp only [dec_take_writeAddr, dec_take_fifo]
    rw [hc.addr, ← hc.flash]
    exact flashPage_congr _ (fun i _ => hpage i) _

/-- **A line that ends the call**, on a clean decoder. -/
theorem clean_stop {f₀ : Spm} {p : Pending} {a : Answer} (h : CleanPending f₀ p)
    (hs : lineStep p = .inl a) : Done f₀ a := by
  have hc := h.1
  rcases lineStep_stop hs with ⟨h02, hdf⟩ | ⟨line, rest, hn, hcase⟩
  · obtain ⟨answer, d, f⟩ := a
    obtain ⟨rfl, rfl⟩ := Prod.mk.inj hdf
    rcases h02 with rfl | rfl
    · exact ⟨Or.inl rfl, fun _ => hc, fun h => absurd h (by simp), fun h => absurd h (by simp)⟩
    · exact hc.failed (goodData_of_accepted hc.accepted)
  · have hrec := nextLine_isRecord hn
    rcases hcase with ⟨h0, hsum, rfl⟩ | ⟨h0, hsum, hge, hv, rfl⟩ | ⟨h1, rfl⟩
    · -- the data of a record with a wrong checksum is in the FIFO, not in the flash
      refine hc.failed ?_
      rw [dec_push_lines, dec_take_lines, goodData_snoc_bad _ h0 hsum, goodData_of_accepted hc.accepted]
    · -- a page at address 0 that is no image
      have hline : Accepted line := ⟨hrec, fun _ => hsum⟩
      have hgood : goodData (p.d.lines ++ [line]) = dataOf p.d.lines ++ recData line := by
        rw [goodData_of_accepted (accepted_snoc hc.accepted hline), dataOf_data _ h0]
      have hfifo := hc.push_fifo line rest hrec h0
      rw [← goodData_of_accepted (accepted_snoc hc.accepted hline)] at hfifo
      rw [hfifo, List.length_drop] at hge
      obtain ⟨hw, hinv⟩ := hv
      have haddr := hc.addr
      rw [dec_push_writeAddr, dec_take_writeAddr] at hw
      refine Done.negative (p := (dataOf p.d.lines).length / 128) (Or.inl rfl) ?_
      refine ⟨?_, ?_, ?_, fun h2 => absurd h2 (by simp), fun _ => ⟨by omega, ?_, Or.inr ?_⟩⟩
      · simp only [dec_drop_lines, dec_push_lines, dec_take_lines]
        omega
      · simp only [dec_drop_lines, dec_push_lines, dec_take_lines]
        rw [hgood, program_append _ _ _ _ (by omega)]
        exact hc.flash
      · intro hpos
        simp only [dec_drop_lines, dec_push_lines, dec_take_lines]
        rw [hgood, validImage_append _ (by omega)]
        exact hc.first (by omega)
      · simp only [dec_drop_lines, dec_push_lines, dec_take_lines]
        rw [hfifo] at hinv
        rw [← hinv]
        exact validImage_congr fun i hi => (padded_take_drop _ _ 128 i (Or.inr (by omega))).symm
      · simp only [dec_drop_lines, dec_push_lines, dec_take_lines]
        omega
    · exact clean_endStep h hrec h1

/-- **One call of a clean decoder.** -/
theorem decProcess_clean {f₀ : Spm} {d : Dec} {f : Spm} (h : Clean f₀ d f) (package : Bytes) :
    Done f₀ (decProcess d f package) :=
  decProcess_rule (CleanPending f₀) (Done f₀) (fun _ _ h hs => clean_more h hs)
    (fun _ _ h hs => clean_stop h hs) d f package ⟨⟨h.accepted, h.noEnd, h.fifo, h.addr, h.flash, h.first⟩, Or.inl rfl⟩

/-- `ihex_init` leaves a clean decoder, whatever the flash holds. -/
theorem clean_init (s : Ihex) (f : Spm) : Clean f (ihexInit s).dec f where
  accepted _ h := absurd h List.not_mem_nil
  noEnd _ h := absurd h List.not_mem_nil
  fifo := by simp [Ihex.dec, ihexInit, dataOf]
  addr := by simp [Ihex.dec, ihexInit, dataOf]
  flash := by simp [Ihex.dec, ihexInit, dataOf, program]
  first h := absurd h (by simp [Ihex.dec, ihexInit, dataOf])

end SmartHome.Bootloader
