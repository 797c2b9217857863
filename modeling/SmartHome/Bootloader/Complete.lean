/-
  Subject:   WHICH HEX FILES THE DECODER FLASHES, cut into 512-byte packages.

  A package ends anywhere: in a line, between CR and LF, behind the last data record. Between two
  calls the decoder holds less than one line (`Waiting`), so the 592 bytes of the ring always
  suffice; in a call it takes every line that is all there. Data records never fail. The end record
  does: `page_len` is a local of `ihex_get_page`, so an end record that meets no data record of the
  same call with an open page behind it is answered -2, and the bytes of an open page are lost.

  * `HexFile.EndMeetsOpenPage` -- the files for which this does not happen: the last data record
    leaves its page open, and its last character comes in the same package as that of the end record;
  * `At`, `Waiting`, `Reading` -- where in the file the decoder is, between calls and between lines;
  * `reading_more`, `reading_stop` -- one line; `waiting_call` -- one call; `waiting_calls` -- all;
  * **`flashes_iff`** -- a file is flashed as it should be exactly if it meets that condition.
-/
import SmartHome.Bootloader.Calls

namespace SmartHome.Bootloader

open SmartHome.Lib

/-! ## 1. Files, packages, and what is asked of them -/

/-- Package `j` of a text cut every 512 bytes. -/
def package (text : Bytes) (j : Nat) : Bytes := (text.drop (512 * j)).take 512

/-- The number of data bytes of the last line. -/
def lastLen (ls : List HexLine) : Nat := (ls.getLast?.map fun l => l.data.length).getD 0

/-- The number of characters of the last line end. -/
def lastEol (ls : List HexLine) : Nat := (ls.getLast?.map fun l => l.eol.length).getD 0

/-- The last line leaves the page it begins in open. -/
def LastFits (ls : List HexLine) : Prop := ((linesData ls).length - lastLen ls) % 128 + lastLen ls < 128

/-- The number of characters up to the last one of the last data record. -/
def HexFile.dataEnd (h : HexFile) : Nat := (linesText h.lines).length - lastEol h.lines

/-- The number of characters up to the last one of the end record. -/
def HexFile.fileEnd (h : HexFile) : Nat := (linesText h.lines).length + endText.length

/-- The call that delivers the end record. -/
def HexFile.endCall (h : HexFile) : Nat := (h.fileEnd - 1) / 512

/-- **The end record meets an open page**: the last data record leaves its page open and comes to
    its end in the package in which the end record does. -/
def HexFile.EndMeetsOpenPage (h : HexFile) : Prop :=
  LastFits h.lines ∧ (h.dataEnd - 1) / 512 = h.endCall

instance (h : HexFile) : Decidable h.EndMeetsOpenPage := inferInstanceAs (Decidable (_ < _ ∧ _ = _))

/-- **The file is flashed**: every call before the one that delivers the end record answers 0, that
    one answers 1, and then the flash holds the image and 0xFF up to the end of its last page. -/
def Flashes (h : HexFile) (s : Ihex) (f : Spm) : Prop :=
  let calls := ihexCalls (package h.text) (ihexInit s) f
  (∀ j, j < h.endCall → (calls (j + 1)).1 = 0) ∧ (calls (h.endCall + 1)).1 = 1 ∧
    (∀ i, i < h.image.length → (calls (h.endCall + 1)).2.2.mem i = h.image.getD i 0) ∧
    ∀ i, h.image.length ≤ i → i < 128 * ((h.image.length + 127) / 128) →
      (calls (h.endCall + 1)).2.2.mem i = 0xFF

@[simp] theorem lastLen_snoc (ls : List HexLine) (l : HexLine) : lastLen (ls ++ [l]) = l.data.length := by
  simp [lastLen]

@[simp] theorem lastEol_snoc (ls : List HexLine) (l : HexLine) : lastEol (ls ++ [l]) = l.eol.length := by
  simp [lastEol]

/-- The last line end is part of the lines. -/
theorem lastEol_le (ls ms : List HexLine) (l : HexLine) :
    lastEol (ls ++ l :: ms) ≤ l.eol.length + (linesText ms).length := by
  induction ms using List.reverseRecOn with
  | nil =>
    rw [lastEol_snoc]
    exact Nat.le_add_right _ _
  | append_singleton ms m _ =>
    have hs : ls ++ l :: (ms ++ [m]) = (ls ++ l :: ms) ++ [m] := by simp
    rw [hs, lastEol_snoc, linesText_append, linesText_cons]
    simp only [List.length_append]
    omega

/-- A line of a file. -/
def HexLine.Ok (l : HexLine) : Prop :=
  ∃ addr, 1 ≤ l.data.length ∧ l.data.length ≤ 34 ∧ IsDataText addr l.data l.text ∧ IsEol l.eol

theorem Contiguous.ok : ∀ {ls : List HexLine} {addr : Nat}, Contiguous addr ls → ∀ l ∈ ls, l.Ok
  | [], _, _, _, hl => absurd hl List.not_mem_nil
  | _ :: _, addr, ⟨hl, hls⟩, m, hm => by
    rcases List.mem_cons.mp hm with rfl | hm
    · exact ⟨addr, hl⟩
    · exact hls.ok m hm

theorem HexLine.Ok.pos {l : HexLine} (h : l.Ok) : 1 ≤ l.data.length := by
  obtain ⟨_, hpos, _⟩ := h
  exact hpos

theorem HexLine.Ok.eol_le {l : HexLine} (h : l.Ok) : l.eol.length ≤ 2 := by
  obtain ⟨_, _, _, _, he | he⟩ := h
  · rw [he]
    exact Nat.le_succ 1
  · rw [he]
    exact Nat.le_refl 2

theorem HexLine.Ok.isRecord {l : HexLine} (h : l.Ok) : IsRecord l.text := by
  obtain ⟨_, _, hle, ht, _⟩ := h
  exact hexText_isRecord ht.hexText hle

theorem HexLine.Ok.recType {l : HexLine} (h : l.Ok) : Bootloader.recType l.text = 0 := by
  obtain ⟨_, _, _, ht, _⟩ := h
  exact hexText_recType ht.hexText

theorem HexLine.Ok.recData {l : HexLine} (h : l.Ok) : Bootloader.recData l.text = l.data := by
  obtain ⟨_, _, hle, ht, _⟩ := h
  exact hexText_recData ht.hexText hle

theorem HexLine.Ok.recSum {l : HexLine} (h : l.Ok) : Bootloader.recSum l.text = 0 := by
  obtain ⟨_, _, hle, ht, _⟩ := h
  exact dataText_recSum ht hle

theorem lastEol_le_two {ls : List HexLine} (h : ∀ l ∈ ls, l.Ok) : lastEol ls ≤ 2 := by
  unfold lastEol
  cases hl : ls.getLast? with
  | none => exact Nat.zero_le 2
  | some l => exact (h l (List.mem_of_getLast? hl)).eol_le

/-- The data the decoder reads off the lines of a file. -/
theorem dataOf_lines : ∀ {ls : List HexLine}, (∀ l ∈ ls, l.Ok) →
    dataOf (ls.map HexLine.text) = linesData ls
  | [], _ => rfl
  | l :: ls, h => by
    have hl := h l List.mem_cons_self
    have ih := dataOf_lines fun m hm => h m (List.mem_cons_of_mem _ hm)
    show lineData l.text ++ dataOf (ls.map HexLine.text) = l.data ++ linesData ls
    rw [ih, lineData, if_pos hl.recType, hl.recData]

/-! ## 2. Where in the file the decoder is -/

/-- The next line of the file: a data line, or the end record. -/
def headText : List HexLine → Bytes
  | [] => endText
  | l :: _ => l.text

/-- The decoder has taken the lines `ls`; `ms` are to come, `R` is what has not come in, and `z` the
    part of the last line end that stands before the next line. -/
structure At (h : HexFile) (R : Bytes) (d : Dec) (ls ms : List HexLine) (z : Bytes) : Prop where
  lines : h.lines = ls ++ ms
  taken : d.lines = ls.map HexLine.text
  stream : d.unread ++ R = z ++ (linesText ms ++ (endText ++ h.tail))
  blank : Blank z
  eol : z.length ≤ lastEol ls

/-- Between two calls, after `k` lines: less than a line is unread. -/
def Waiting (h : HexFile) (R : Bytes) (k : Nat) (d : Dec) : Prop :=
  ∃ ls ms z, At h R d ls ms z ∧ ls.length = k ∧ (d.unread = [] ∨ z = []) ∧
    d.unread.length < z.length + (headText ms).length

/-- Between two lines of a call that began after `k` lines. -/
structure Reading (h : HexFile) (f₀ : Spm) (R : Bytes) (k : Nat) (p : Pending)
    (ls ms : List HexLine) (z : Bytes) : Prop extends At h R p.d ls ms z where
  settled : k < ls.length → p.d.unread = [] ∨ z = []
  clean : CleanPending f₀ p
  idle : p.pageLen = 0 → p.err = .empty
  fresh : 0 < p.pageLen ↔ k < ls.length ∧ LastFits ls

section File

variable {h : HexFile} {f₀ : Spm} {R : Bytes} {k : Nat} {ls ms : List HexLine} {z : Bytes}

theorem At.ok {d : Dec} (a : At h R d ls ms z) : ∀ l ∈ ls ++ ms, l.Ok := by
  rw [← a.lines]
  exact h.contiguous.ok

theorem At.data {d : Dec} (a : At h R d ls ms z) : dataOf d.lines = linesData ls := by
  rw [a.taken, dataOf_lines fun l hl => a.ok l (List.mem_append_left _ hl)]

theorem At.image {d : Dec} (a : At h R d ls ms z) : h.image = linesData ls ++ linesData ms := by
  rw [HexFile.image, a.lines, linesData_append]

/-- How much is unread and how much is to come. -/
theorem At.length {d : Dec} (a : At h R d ls ms z) :
    d.unread.length + R.length = z.length + ((linesText ms).length + (endText.length + h.tail.length)) := by
  have := congrArg List.length a.stream
  simpa only [List.length_append] using this

theorem headText_le (ms : List HexLine) : (headText ms).length ≤ (linesText ms).length + endText.length := by
  cases ms with
  | nil => exact Nat.le_add_left _ _
  | cons l ms =>
    rw [headText, linesText_cons, List.length_append]
    omega

theorem headText_isRecord (hok : ∀ l ∈ ms, l.Ok) : IsRecord (headText ms) := by
  cases ms with
  | nil => exact endText_isRecord
  | cons l ms => exact (hok l List.mem_cons_self).isRecord

/-- **What the next line is**: a data line, the end record, or not all there. -/
theorem At.next {d : Dec} (a : At h R d ls ms z) :
    (∃ l ms' rest z', ms = l :: ms' ∧ nextLine d.unread = .record l.text rest ∧ Blank z' ∧
        z'.length ≤ l.eol.length ∧ rest ++ R = z' ++ (linesText ms' ++ (endText ++ h.tail)) ∧ (rest = [] ∨ z' = [])) ∨
      (ms = [] ∧ R.length ≤ h.tail.length ∧ ∃ rest, nextLine d.unread = .record endText rest) ∨
      (d.unread.length < z.length + (headText ms).length ∧
        (nextLine d.unread = .blank ∨ nextLine d.unread = .incomplete)) := by
  have hok : ∀ l ∈ ms, l.Ok := fun l hl => a.ok l (List.mem_append_right _ hl)
  have hrec := headText_isRecord hok
  have hstream := a.stream
  by_cases hlt : d.unread.length < z.length + (headText ms).length
  · -- part of a line
    right; right
    refine ⟨hlt, ?_⟩
    have hS : ∃ S, linesText ms ++ (endText ++ h.tail) = headText ms ++ S := by
      cases ms with
      | nil => exact ⟨h.tail, rfl⟩
      | cons l ms => exact ⟨l.eol ++ linesText ms ++ (endText ++ h.tail), by simp [headText]⟩
    obtain ⟨S, hS⟩ := hS
    rw [hS] at hstream
    exact nextLine_waits a.blank hrec hstream hlt
  · cases ms with
    | nil =>
      -- the end record, with whatever has come of its line end
      right; left
      rw [linesText_nil, List.nil_append] at hstream
      obtain ⟨after, hu, hafter⟩ := whole_of_line hstream (Nat.le_of_not_lt hlt)
      have hR := congrArg List.length hafter
      rw [List.length_append] at hR
      refine ⟨rfl, by omega, ?_⟩
      rw [hu]
      rcases h.tailEol with ht | ht
      · rw [ht] at hafter
        have h0 : after = [] := (List.append_eq_nil_iff.mp hafter).1
        refine ⟨[], nextLine_of_readLine hrec ?_⟩
        rw [h0, readLine_blank _ _ a.blank, readLine_chars _ _ _ endText_isRecord.chars (by decide)]
        rfl
      · have hafter' : after ++ R = h.tail ++ [] := by rw [hafter, List.append_nil]
        obtain ⟨rest, _, hn, _⟩ := nextLine_whole a.blank hrec ht hafter'
        exact ⟨rest, hn⟩
    | cons l ms =>
      left
      rw [linesText_cons, List.append_assoc, List.append_assoc] at hstream
      obtain ⟨_, _, _, _, heol⟩ := hok l List.mem_cons_self
      obtain ⟨rest, z', hn, hsuf, hr, he⟩ :=
        nextLine_taken a.blank hrec heol hstream (Nat.le_of_not_lt hlt)
      exact ⟨l, ms, rest, z', rfl, hn, heol.blank hsuf, hsuf.length_le, hr, he⟩

/-! ## 3. One line -/

/-- A first page that begins the image is an image. -/
theorem image_page {D more : Bytes} (hv : validImage (padded (D ++ more)) = true) {n : Nat}
    (hn : 128 ≤ n) (hD : 128 ≤ D.length) : validImage (padded (D.take n)) = true := by
  rw [← hv]
  refine validImage_congr fun i hi => ?_
  unfold padded
  rw [List.getD_append _ _ _ _ (by omega)]
  simp only [List.getD_eq_getElem?_getD, List.getElem?_take]
  rw [if_pos (by omega)]

/-- **A data line that goes on**: the decoder is one line further. -/
theorem reading_more {p p' : Pending} (r : Reading h f₀ R k p ls ms z) (hk : k ≤ ls.length)
    (hs : lineStep p = .inr p') :
    ∃ l ms' z', ms = l :: ms' ∧ Reading h f₀ R k p' (ls ++ [l]) ms' z' := by
  have hclean := clean_more r.clean hs
  obtain ⟨line, rest, hn, hcase⟩ := lineStep_more hs
  rcases r.toAt.next with ⟨l, ms', rest', z', rfl, hn', hb, hle, hr, he⟩ | ⟨_, _, rest', hn'⟩ | ⟨_, hn' | hn'⟩
  · rw [hn] at hn'
    obtain ⟨rfl, rfl⟩ := NextLine.record.inj hn'
    have hl := r.ok l (List.mem_append_right _ List.mem_cons_self)
    have hD := r.data
    have hfifo := r.clean.1.push_fifo l.text rest hl.isRecord hl.recType
    have hd : dataOf (p.d.lines ++ [l.text]) = linesData ls ++ l.data := by
      rw [dataOf_data _ hl.recType, hl.recData, hD]
    have hlen := congrArg List.length hfifo
    rw [List.length_drop, hd, List.length_append, hD] at hlen
    have h1 : 1 ≤ l.data.length := hl.pos
    have hfits : LastFits (ls ++ [l]) ↔ (linesData ls).length % 128 + l.data.length < 128 := by
      unfold LastFits
      rw [lastLen_snoc, linesData_append, List.length_append]
      simp only [linesData_cons, linesData_nil, List.append_nil]
      rw [Nat.add_sub_cancel]
    have hlines : h.lines = (ls ++ [l]) ++ ms' := by rw [r.lines, List.append_assoc]; rfl
    have htaken : p.d.lines ++ [l.text] = (ls ++ [l]).map HexLine.text := by
      rw [r.taken, List.map_append]
      rfl
    have hk' : k < (ls ++ [l]).length := by
      rw [List.length_append]
      exact Nat.lt_succ_of_le hk
    have heol : z'.length ≤ lastEol (ls ++ [l]) := by
      rw [lastEol_snoc]
      exact hle
    refine ⟨l, ms', z', rfl, ?_⟩
    rcases hcase with ⟨_, _, hlt, rfl⟩ | ⟨_, _, hge, _, rfl⟩ | ⟨h0, _, _⟩
    · -- the page stays open
      refine ⟨⟨hlines, htaken, hr, hb, heol⟩, fun _ => he, hclean, fun hz => ?_, ?_⟩
      · have hz' : ((p.d.take l.text rest).push (recData l.text)).fifo.length = 0 := hz
        omega
      · refine ⟨fun _ => ⟨hk', hfits.mpr (by omega)⟩, fun _ => ?_⟩
        show 0 < ((p.d.take l.text rest).push (recData l.text)).fifo.length
        omega
    · -- the page is full
      refine ⟨⟨hlines, htaken, hr, hb, heol⟩, fun _ => he, hclean, fun _ => rfl, ?_⟩
      refine ⟨fun hz => absurd hz (Nat.lt_irrefl 0), fun hf => ?_⟩
      have := hfits.mp hf.2
      omega
    · exact absurd hl.recType h0
  · rw [hn] at hn'
    obtain ⟨rfl, rfl⟩ := NextLine.record.inj hn'
    rcases hcase with ⟨h0, _⟩ | ⟨h0, _⟩ | ⟨_, h1, _⟩
    · exact absurd (endText_recType.symm.trans h0) (by decide)
    · exact absurd (endText_recType.symm.trans h0) (by decide)
    · exact absurd endText_recType h1
  · rw [hn] at hn'
    cases hn'
  · rw [hn] at hn'
    cases hn'

/-- What a call that began after `k` lines answers. -/
def CallEnds (h : HexFile) (R : Bytes) (k : Nat) (a : Answer) : Prop :=
  (a.1 = 0 ∧ ∃ ls ms z, At h R a.2.1 ls ms z ∧ k ≤ ls.length ∧
      (k < ls.length → a.2.1.unread = [] ∨ z = []) ∧ a.2.1.unread.length < z.length + (headText ms).length) ∨
    (R.length ≤ h.tail.length ∧ a.1 ≠ 0 ∧ dataOf a.2.1.lines = h.image ∧
      (a.1 = 1 ↔ k < h.lines.length ∧ LastFits h.lines))

/-- The data taken so far is part of the image. -/
theorem Reading.data_le {p : Pending} (r : Reading h f₀ R k p ls ms z) :
    (dataOf p.d.lines).length + (linesData ms).length = h.image.length := by
  rw [r.image, r.data, List.length_append]

/-- A clean decoder stands at the first page only before the first page is full. -/
theorem first_page {d : Dec} {f : Spm} (hc : Clean f₀ d f) (hle : (dataOf d.lines).length < 65536)
    (h0 : d.writeAddr = 0) : (dataOf d.lines).length / 128 = 0 := by
  have := hc.addr
  omega

section Stop

variable (hv : validImage (padded h.image) = true) (hmax : h.image.length ≤ 65536)

include hv hmax

/-- A data line of the file does not end the call: its checksum is right, and its first page is an image. -/
theorem reading_data {p : Pending} {l : HexLine} {ms' : List HexLine} (r : Reading h f₀ R k p ls (l :: ms') z)
    {rest : Bytes} (hn : nextLine p.d.unread = .record l.text rest) (a : Answer) : lineStep p ≠ .inl a := by
  have himg := r.image
  have hD := r.data
  have hl := r.ok l (List.mem_append_right _ List.mem_cons_self)
  have hnot : 128 ≤ ((p.d.take l.text rest).push (recData l.text)).fifo.length →
      ¬ ((p.d.take l.text rest).push (recData l.text)).refused 128 := by
    rintro hge ⟨h0, hinv⟩
    have hpart : (dataOf p.d.lines).length < 65536 := by
      have hle := r.data_le
      have hpos := hl.pos
      rw [linesData_cons, List.length_append] at hle
      omega
    have hfirst := first_page r.clean.1 hpart h0
    have hfifo := r.clean.1.push_fifo l.text rest hl.isRecord hl.recType
    rw [hfirst, Nat.mul_zero, List.drop_zero] at hfifo
    have hd : dataOf (p.d.lines ++ [l.text]) = linesData ls ++ l.data := by
      rw [dataOf_data _ hl.recType, hl.recData, hD]
    have hv' : validImage (padded ((linesData ls ++ l.data) ++ linesData ms')) = true := by
      rw [himg, linesData_cons, ← List.append_assoc] at hv
      exact hv
    rw [hfifo, hd] at hge hinv
    exact Bool.noConfusion (hinv.symm.trans (image_page hv' (Nat.le_refl _) hge))
  rw [lineStep_data hn hl.recType]
  unfold dataStep
  rw [if_neg (fun hne => hne hl.recSum)]
  by_cases hlt : ((p.d.take l.text rest).push (recData l.text)).fifo.length < 128
  · rw [if_pos hlt]
    exact Sum.inr_ne_inl
  · rw [if_neg hlt, if_neg (hnot (Nat.le_of_not_lt hlt))]
    exact Sum.inr_ne_inl

/-- The end record: answer 1 exactly if a page is open. -/
theorem reading_end {p : Pending} (r : Reading h f₀ R k p ls [] z) (rest : Bytes) :
    (endStep (p.d.take endText rest) p.f p.pageLen).1 ≠ 0 ∧
      dataOf (endStep (p.d.take endText rest) p.f p.pageLen).2.1.lines = h.image ∧
      ((endStep (p.d.take endText rest) p.f p.pageLen).1 = 1 ↔ 0 < p.pageLen) := by
  have himg := r.image
  have hD := r.data
  rw [linesData_nil, List.append_nil] at himg
  have hdata : dataOf (p.d.lines ++ [endText]) = h.image := by
    rw [dataOf_other _ (by rw [endText_recType]; decide), hD, himg]
  unfold endStep
  by_cases h0 : p.pageLen = 0
  · rw [if_pos h0]
    refine ⟨by simp, hdata, ?_⟩
    rw [h0]
    simp
  · rw [if_neg h0]
    have hlen : p.pageLen = p.d.fifo.length := r.clean.2.resolve_left h0
    have hnot : ¬ (p.d.take endText rest).refused p.pageLen := by
      rintro ⟨hw, hinv⟩
      have hfifo := r.clean.1.fifo
      -- 65536 bytes would leave no page open
      have hpart : (dataOf p.d.lines).length < 65536 := by
        have hle := r.data_le
        have hwait := congrArg List.length hfifo
        rw [List.length_drop] at hwait
        omega
      have hfirst := first_page r.clean.1 hpart hw
      rw [hfirst, Nat.mul_zero, List.drop_zero, hD, ← himg] at hfifo
      rw [dec_take_fifo, hlen, List.take_length, hfifo, hv] at hinv
      cases hinv
    rw [if_neg hnot]
    exact ⟨Int.one_ne_zero, hdata, fun _ => Nat.pos_of_ne_zero h0, fun _ => rfl⟩

/-- **A line that ends the call**: what is there of the next line waits, or it was the end record. -/
theorem reading_stop {p : Pending} {a : Answer} (r : Reading h f₀ R k p ls ms z) (hk : k ≤ ls.length)
    (hs : lineStep p = .inl a) : CallEnds h R k a := by
  rcases r.toAt.next with ⟨l, ms', rest, z', rfl, hn, _⟩ | ⟨rfl, hR, rest, hn⟩ | ⟨hlt, hn⟩
  · exact absurd hs (reading_data hv hmax r hn a)
  · right
    have hlines : h.lines = ls := by rw [r.lines, List.append_nil]
    rw [lineStep_end hn endText_recType] at hs
    rw [hlines, ← r.fresh, ← Sum.inl.inj hs]
    exact ⟨hR, reading_end hv hmax r rest⟩
  · -- not all there
    left
    have ha : a = (0, p.d, p.f) := by
      rcases hn with hn | hn
      · have hz : p.pageLen > 0 ∨ p.err = .empty := by
          rcases Nat.eq_zero_or_pos p.pageLen with h0 | h0
          · exact Or.inr (r.idle h0)
          · exact Or.inl h0
        rw [lineStep_blank hn, if_pos hz] at hs
        exact (Sum.inl.inj hs).symm
      · rw [lineStep_incomplete hn] at hs
        exact (Sum.inl.inj hs).symm
    rw [ha]
    exact ⟨rfl, ls, ms, z, r.toAt, hk, r.settled, hlt⟩

end Stop

/-! ## 4. One call, and all calls -/

/-- The unread bytes of a waiting decoder and a package fit into the ring. -/
theorem Waiting.feed {pkg : Bytes} {d : Dec} (hw : Waiting h R k d) (hle : pkg.length ≤ 512) :
    (d.feed pkg).unread = d.unread ++ pkg := by
  obtain ⟨ls, ms, z, a, _, he, hlt⟩ := hw
  have hrec := (headText_isRecord fun l hl => a.ok l (List.mem_append_right _ hl)).lt
  have hu : d.unread.length < 80 := by
    rcases he with he | he
    · rw [he]
      exact Nat.zero_lt_succ _
    · rw [he, List.length_nil] at hlt
      omega
  exact pushList_append _ _ (by omega)

/-- A full package has a whole line in it, so a call that took none has the end record. -/
theorem line_in_package {R' pkg : Bytes} {d d' : Dec} {ls₀ ms₀ : List HexLine} {z₀ : Bytes}
    (a₀ : At h (pkg ++ R') d ls₀ ms₀ z₀) (a : At h R' d' ls ms z) (hpkg : pkg.length = 512)
    (hk : ls₀.length ≤ ls.length) (hlt : d'.unread.length < z.length + (headText ms).length) :
    ls₀.length < ls.length := by
  rcases Nat.lt_or_eq_of_le hk with hlen | hlen
  · exact hlen
  · exfalso
    obtain ⟨rfl, rfl⟩ := List.append_inj (a₀.lines.symm.trans a.lines) hlen
    have hrec := (headText_isRecord fun l hl => a.ok l (List.mem_append_right _ hl)).lt
    have hz := lastEol_le_two fun l hl => a.ok l (List.mem_append_left _ hl)
    have := a₀.eol
    have h₀ := a₀.length
    have h₁ := a.length
    rw [List.length_append] at h₀
    omega

/-- **One call**: answer 0 and waiting again as long as the end record has not come in; else the
    end record is taken, with answer 1 exactly if a data line came before it in this call and the
    last one left its page open. -/
theorem waiting_call (hv : validImage (padded h.image) = true) (hmax : h.image.length ≤ 65536)
    {pkg : Bytes} {d : Dec} {f : Spm} (hw : Waiting h (pkg ++ R) k d) (hc : Clean f₀ d f)
    (hle : pkg.length ≤ 512) (hfull : 0 < R.length → pkg.length = 512) :
    (h.tail.length < R.length → (decProcess d f pkg).1 = 0 ∧ ∃ k', Waiting h R k' (decProcess d f pkg).2.1) ∧
    (R.length ≤ h.tail.length → dataOf (decProcess d f pkg).2.1.lines = h.image ∧
      ((decProcess d f pkg).1 = 1 ↔ k < h.lines.length ∧ LastFits h.lines)) := by
  have hfeed := hw.feed hle
  obtain ⟨ls₀, ms₀, z₀, a₀, rfl, _, _⟩ := hw
  have hstart : Reading h f₀ R ls₀.length ⟨d.feed pkg, f, 0, .empty⟩ ls₀ ms₀ z₀ := by
    refine ⟨⟨a₀.lines, a₀.taken, ?_, a₀.blank, a₀.eol⟩, fun hlt => absurd hlt (Nat.lt_irrefl _),
      ⟨⟨hc.accepted, hc.noEnd, hc.fifo, hc.addr, hc.flash, hc.first⟩, Or.inl rfl⟩, fun _ => rfl,
      fun hz => absurd hz (Nat.lt_irrefl 0), fun hz => absurd hz.1 (Nat.lt_irrefl _)⟩
    show (d.feed pkg).unread ++ R = _
    rw [hfeed, List.append_assoc]
    exact a₀.stream
  have hend : CallEnds h R ls₀.length (decProcess d f pkg) := by
    refine decProcess_rule (fun p => ∃ ls ms z, Reading h f₀ R ls₀.length p ls ms z ∧ ls₀.length ≤ ls.length)
      (CallEnds h R ls₀.length) ?_ ?_ d f pkg ⟨ls₀, ms₀, z₀, hstart, Nat.le_refl _⟩
    · rintro p p' ⟨ls, ms, z, r, hk⟩ hs
      obtain ⟨l, ms', z', _, r'⟩ := reading_more r hk hs
      refine ⟨ls ++ [l], ms', z', r', ?_⟩
      rw [List.length_append]
      exact Nat.le_add_right_of_le hk
    · rintro p a ⟨ls, ms, z, r, hk⟩ hs
      exact reading_stop hv hmax r hk hs
  rcases hend with ⟨h0, ls, ms, z, a, hk, hsettled, hlt⟩ | ⟨hR, _, hdata, hone⟩
  · have hR : h.tail.length < R.length := by
      have := a.length
      have := headText_le ms
      omega
    have hmore := line_in_package a₀ a (hfull (Nat.zero_lt_of_lt hR)) hk hlt
    exact ⟨fun _ => ⟨h0, ls.length, ls, ms, z, a, rfl, hsettled hmore, hlt⟩, fun hle => absurd hR (Nat.not_lt.mpr hle)⟩
  · exact ⟨fun hlt => absurd hR (Nat.not_le.mpr hlt), fun _ => ⟨hdata, hone⟩⟩

/-- Whether data lines are still to come can be told from the number of characters delivered. -/
theorem Waiting.lines_left {d : Dec} {n : Nat} (hw : Waiting h (h.text.drop n) k d) (hn : n ≤ h.text.length) :
    k < h.lines.length ↔ n < h.dataEnd := by
  obtain ⟨ls, ms, z, a, rfl, _, hlt⟩ := hw
  have htext : h.text.length = (linesText h.lines).length + (endText.length + h.tail.length) := by
    simp [HexFile.text]
  have hlen := a.length
  rw [List.length_drop] at hlen
  unfold HexFile.dataEnd
  rw [a.lines, linesText_append, List.length_append] at htext
  rw [a.lines, linesText_append, List.length_append, List.length_append]
  cases ms with
  | nil =>
    have := a.eol
    simp only [List.append_nil, linesText_nil, List.length_nil] at htext hlen ⊢
    omega
  | cons l ms =>
    have := lastEol_le ls ms l
    simp only [headText] at hlt
    simp only [linesText_cons, List.length_append, List.length_cons] at htext hlen ⊢
    omega

/-- What has come in and what has not, package by package. -/
theorem package_append (text : Bytes) (j : Nat) :
    text.drop (512 * j) = package text j ++ text.drop (512 * (j + 1)) := by
  have h512 : 512 * (j + 1) = 512 * j + 512 := rfl
  rw [package, h512, ← List.drop_drop, List.take_append_drop]

theorem package_length (text : Bytes) (j : Nat) :
    (package text j).length = min 512 (text.length - 512 * j) := by
  simp [package]

theorem HexFile.text_length (h : HexFile) : h.text.length = h.fileEnd + h.tail.length := by
  simp [HexFile.text, HexFile.fileEnd, Nat.add_assoc]

/-- A file with data has a character of it. -/
theorem HexFile.dataEnd_pos (h : HexFile) (hne : 0 < h.image.length) : 0 < h.dataEnd := by
  unfold HexFile.dataEnd
  cases hl : h.lines with
  | nil =>
    rw [HexFile.image, hl] at hne
    exact absurd hne (Nat.lt_irrefl 0)
  | cons l ms =>
    have hok := h.contiguous.ok l (by rw [hl]; exact List.mem_cons_self)
    have hlong := hok.isRecord.long
    have hle := lastEol_le [] ms l
    rw [List.nil_append] at hle
    rw [linesText_cons, List.length_append, List.length_append]
    omega

/-- **Every call before the one that delivers the end record answers 0 and leaves the decoder
    waiting.** -/
theorem waiting_calls (hv : validImage (padded h.image) = true) (hmax : h.image.length ≤ 65536)
    (s : Ihex) (f : Spm) : ∀ j, j ≤ h.endCall →
      (∀ i, i < j → (decCalls (package h.text) (ihexInit s).dec f (i + 1)).1 = 0) ∧
      ∃ k, Waiting h (h.text.drop (512 * j)) k (decCalls (package h.text) (ihexInit s).dec f j).2.1
  | 0, _ => by
    refine ⟨fun i hi => absurd hi (Nat.not_lt_zero i), 0, [], h.lines, [], ⟨rfl, rfl, ?_, ?_, Nat.le_refl 0⟩,
      rfl, Or.inl ?_, ?_⟩
    · simp [decCalls, Ihex.dec, ihexInit, HexFile.text]
    · exact fun c hc => absurd hc List.not_mem_nil
    · simp [decCalls, Ihex.dec, ihexInit]
    · have := (headText_isRecord h.contiguous.ok).long
      simp only [decCalls, Ihex.dec, ihexInit, window_self, List.length_nil]
      omega
  | j + 1, hj => by
    obtain ⟨h0, k, hw⟩ := waiting_calls hv hmax s f j (Nat.le_of_succ_le hj)
    have hc := decCalls_clean (package h.text) (clean_init s f) j h0
    have hlen := h.text_length
    have hpkg := package_length h.text j
    have hdrop : (h.text.drop (512 * (j + 1))).length = h.text.length - 512 * (j + 1) := List.length_drop
    rw [package_append] at hw
    unfold HexFile.endCall at hj
    obtain ⟨hzero, k', hw'⟩ := (waiting_call hv hmax hw hc (by omega) (by omega)).1 (by omega)
    refine ⟨fun i hi => ?_, k', hw'⟩
    rcases Nat.lt_succ_iff_lt_or_eq.mp hi with hi | rfl
    · exact h0 i hi
    · exact hzero

/-- **The call that delivers the end record** answers 1 exactly if the end record meets an open
    page; and then it has taken the whole image. -/
theorem endCall_answer (hv : validImage (padded h.image) = true) (hne : 0 < h.image.length)
    (hmax : h.image.length ≤ 65536) (s : Ihex) (f : Spm) :
    dataOf (decCalls (package h.text) (ihexInit s).dec f (h.endCall + 1)).2.1.lines = h.image ∧
    ((decCalls (package h.text) (ihexInit s).dec f (h.endCall + 1)).1 = 1 ↔ h.EndMeetsOpenPage) := by
  obtain ⟨h0, k, hw⟩ := waiting_calls hv hmax s f h.endCall (Nat.le_refl _)
  have hc := decCalls_clean (package h.text) (clean_init s f) h.endCall h0
  have hlen := h.text_length
  have hpkg := package_length h.text h.endCall
  have hdrop : (h.text.drop (512 * (h.endCall + 1))).length = h.text.length - 512 * (h.endCall + 1) :=
    List.length_drop
  have hpos : 11 ≤ h.fileEnd := Nat.le_add_left 11 (linesText h.lines).length
  have hdata : h.dataEnd ≤ h.fileEnd :=
    Nat.le_trans (Nat.sub_le _ _) (Nat.le_add_right (linesText h.lines).length endText.length)
  have he : h.endCall = (h.fileEnd - 1) / 512 := rfl
  have hleft := hw.lines_left (by omega)
  rw [package_append] at hw
  obtain ⟨himg, hone⟩ := (waiting_call hv hmax hw hc (by omega) (by omega)).2 (by omega)
  refine ⟨himg, ?_⟩
  rw [hleft] at hone
  refine hone.trans ⟨fun ⟨hlt, hfits⟩ => ⟨hfits, ?_⟩, fun ⟨hfits, heq⟩ => ⟨?_, hfits⟩⟩
  · omega
  · have := h.dataEnd_pos hne
    omega

end File

/-! ## 5. The files that are flashed -/

/-- **A file is flashed exactly if its end record meets an open page**: for every image of 52 bytes
    to 28 KiB whose first page passes `validImage`, every hex file of it, every state of the decoder
    before `ihex_init` and every flash. -/
theorem flashes_iff (h : HexFile) (s : Ihex) (f : Spm) (hmin : 52 ≤ h.image.length)
    (hmax : h.image.length ≤ 0x7000) (hv : validImage (fun i => h.image.getD i 0xFF) = true) :
    Flashes h s f ↔ h.EndMeetsOpenPage := by
  have hne : 0 < h.image.length := Nat.lt_of_lt_of_le (by decide) hmin
  have hlt : h.image.length < 65536 := Nat.lt_of_le_of_lt hmax (by decide)
  obtain ⟨himg, hone⟩ := endCall_answer hv hne (Nat.le_of_lt hlt) s f
  obtain ⟨h0, _⟩ := waiting_calls hv (Nat.le_of_lt hlt) s f h.endCall (Nat.le_refl _)
  unfold Flashes
  simp only [ihexCalls_answer, ihexCalls_flash]
  refine ⟨fun hf => hone.mp hf.2.1, fun hm => ?_⟩
  have h1 := hone.mpr hm
  have hw := (decCalls_done _ (clean_init s f) _ h0).whole h1
  have hmem : ∀ i, i < 128 * ((h.image.length + 127) / 128) →
      (decCalls (package h.text) (ihexInit s).dec f (h.endCall + 1)).2.2.mem i = h.image.getD i 0xFF := by
    intro i hi
    have hpart := hw.partPage
    rw [himg] at hpart
    have := hw.mem (i := i) (by rw [himg]; omega) (by rw [himg]; omega)
    rw [himg, Nat.mod_eq_of_lt (by omega)] at this
    exact this
  refine ⟨h0, h1, fun i hi => ?_, fun i hi hi' => ?_⟩
  · rw [hmem i (by omega), List.getD_eq_getElem _ _ hi, List.getD_eq_getElem _ _ hi]
  · rw [hmem i hi', List.getD_eq_default _ _ hi]

/-- An image of 52 bytes, in records of 28 and 24 bytes. -/
def shortFile : HexFile := HexFile.ofRecords [vectors 7, vectors 6] (by decide)

/-- An image of 128 bytes, in eight records of 16 bytes. -/
def pageFile : HexFile := HexFile.ofRecords (List.replicate 8 (vectors 4)) (by decide)

/-- The 52 byte image meets the condition and is flashed. -/
theorem flashes_iff_short : shortFile.EndMeetsOpenPage ∧ Flashes shortFile Ihex.zero erasedFlash :=
  have hm : shortFile.EndMeetsOpenPage := by decide +kernel
  ⟨hm, (flashes_iff shortFile Ihex.zero erasedFlash (by decide +kernel) (by decide +kernel)
    (by decide +kernel)).mpr hm⟩

/-- The image of exactly one page is not flashed: its last data record fills the page, and the end
    record is answered -2. -/
theorem pageFile_not_flashed :
    52 ≤ pageFile.image.length ∧ pageFile.image.length ≤ 0x7000 ∧
      validImage (fun i => pageFile.image.getD i 0xFF) = true ∧ ¬ Flashes pageFile Ihex.zero erasedFlash := by
  have hv : validImage (padded pageFile.image) = true := by decide +kernel
  have hmin : 52 ≤ pageFile.image.length := by decide +kernel
  have hmax : pageFile.image.length ≤ 0x7000 := by decide +kernel
  refine ⟨hmin, hmax, hv, fun hf => ?_⟩
  obtain ⟨_, hone⟩ := endCall_answer hv (Nat.lt_of_lt_of_le (by decide) hmin)
    (Nat.le_trans hmax (by decide)) Ihex.zero erasedFlash
  have h1 := hf.2.1
  rw [ihexCalls_answer] at h1
  exact absurd (hone.mp h1) (by decide +kernel)

end SmartHome.Bootloader
