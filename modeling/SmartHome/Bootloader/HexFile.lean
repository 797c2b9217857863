/-
  Subject:   INTEL-HEX FILES, from the format and not from the decoder.

  What a programmer's hex file is: data records that follow each other from address 0 on, two hex
  digits a byte in either case, the bytes of a record summing up to 0, a line end after each, and
  the record `:00000001FF`. Below it, what the decoder's own tests make of such lines:

  * `hexVal`, `HexText`, `IsDataText` -- digits, digit pairs, the text of one data record;
  * `HexFile` -- a whole file; a value of this type is well formed;
  * `hexText_isRecord`, `hexText_recData`, `dataText_recSum` -- the decoder reads a record as the
    format means it;
  * `nextLine_whole`, `nextLine_part` -- a line that is all there is taken, one that is not waits.
-/
import Mathlib.Algebra.GroupWithZero.Nat
import Mathlib.Data.List.GetD
import SmartHome.Bootloader.Decoded

namespace SmartHome.Bootloader

open SmartHome.Lib

/-! ## 1. The format -/

/-- The value of a hex digit. -/
def hexVal (c : UInt8) : Option Nat :=
  if 48 ≤ c.toNat ∧ c.toNat ≤ 57 then some (c.toNat - 48)
  else if 65 ≤ c.toNat ∧ c.toNat ≤ 70 then some (c.toNat - 55)
  else if 97 ≤ c.toNat ∧ c.toNat ≤ 102 then some (c.toNat - 87)
  else none

/-- `HexText cs bs`: the characters `cs` spell the bytes `bs`, two digits each. -/
inductive HexText : Bytes → Bytes → Prop where
  | nil : HexText [] []
  | cons {h l : UInt8} {x y : Nat} {cs bs : Bytes} (hh : hexVal h = some x) (hl : hexVal l = some y)
      (hcs : HexText cs bs) : HexText (h :: l :: cs) (UInt8.ofNat (16 * x + y) :: bs)

/-- The bytes of a data record for `addr`, up to its checksum byte. -/
def dataRecord (addr : Nat) (data : Bytes) (ck : UInt8) : Bytes :=
  [UInt8.ofNat data.length, UInt8.ofNat (addr / 256), UInt8.ofNat addr, 0] ++ data ++ [ck]

/-- The text of a data record: a colon, then its bytes, which sum up to 0 modulo 256. -/
def IsDataText (addr : Nat) (data text : Bytes) : Prop :=
  ∃ ck digits, text = 0x3A :: digits ∧ HexText digits (dataRecord addr data ck) ∧
    ((dataRecord addr data ck).map UInt8.toNat).sum % 256 = 0

/-- The bytes of a record of type `t`, up to its checksum byte. -/
def hexRecord (t : UInt8) (addr : Nat) (data : Bytes) (ck : UInt8) : Bytes :=
  [UInt8.ofNat data.length, UInt8.ofNat (addr / 256), UInt8.ofNat addr, t] ++ data ++ [ck]

/-- The text of a record of type `t`; a data record is one of type 0. -/
def IsHexText (t : UInt8) (addr : Nat) (data text : Bytes) : Prop :=
  ∃ ck digits, text = 0x3A :: digits ∧ HexText digits (hexRecord t addr data ck) ∧
    ((hexRecord t addr data ck).map UInt8.toNat).sum % 256 = 0

/-- A line end: LF or CR LF. -/
def IsEol (eol : Bytes) : Prop := eol = [0x0A] ∨ eol = [0x0D, 0x0A]

/-- A line of the file: the data it carries, its text, its line end. -/
structure HexLine where
  data : Bytes
  text : Bytes
  eol : Bytes

/-- Data lines that follow each other from `addr` on, 1 to 34 bytes each. -/
def Contiguous : Nat → List HexLine → Prop
  | _, [] => True
  | addr, l :: ls =>
    (1 ≤ l.data.length ∧ l.data.length ≤ 34 ∧ IsDataText addr l.data l.text ∧ IsEol l.eol) ∧
      Contiguous (addr + l.data.length) ls

/-- `:00000001FF`. -/
def endText : Bytes :=
  [0x3A, 0x30, 0x30, 0x30, 0x30, 0x30, 0x30, 0x30, 0x31, 0x46, 0x46]

/-- The characters of data lines. -/
def linesText (ls : List HexLine) : Bytes := ls.flatMap fun l => l.text ++ l.eol

/-- The bytes of data lines. -/
def linesData (ls : List HexLine) : Bytes := ls.flatMap HexLine.data

/-- **A hex file**: data lines from address 0 on, then the end record with or without a line end. -/
structure HexFile where
  lines : List HexLine
  tail : Bytes
  contiguous : Contiguous 0 lines
  tailEol : tail = [] ∨ IsEol tail

/-- The image a file carries. -/
def HexFile.image (h : HexFile) : Bytes := linesData h.lines

/-- The characters of a file. -/
def HexFile.text (h : HexFile) : Bytes := linesText h.lines ++ (endText ++ h.tail)

@[simp] theorem linesText_nil : linesText [] = [] := rfl
@[simp] theorem linesText_cons (l : HexLine) (ls : List HexLine) :
    linesText (l :: ls) = l.text ++ (l.eol ++ linesText ls) := by
  simp [linesText]
@[simp] theorem linesText_append (ls ms : List HexLine) :
    linesText (ls ++ ms) = linesText ls ++ linesText ms := by
  simp [linesText]
@[simp] theorem linesData_nil : linesData [] = [] := rfl
@[simp] theorem linesData_cons (l : HexLine) (ls : List HexLine) :
    linesData (l :: ls) = l.data ++ linesData ls := rfl
@[simp] theorem linesData_append (ls ms : List HexLine) :
    linesData (ls ++ ms) = linesData ls ++ linesData ms := by
  simp [linesData]

/-! ## 2. Digits, as the decoder reads them -/

theorem hexVal_spec {c : UInt8} {x : Nat} (h : hexVal c = some x) :
    x < 16 ∧ (xtod c).toUInt8 = UInt8.ofNat x ∧ LineChar c := by
  have hall : ∀ k : Fin 256, ∀ y : Fin 16, hexVal (UInt8.ofNat k) = some y.val →
      (xtod (UInt8.ofNat k)).toUInt8 = UInt8.ofNat y ∧ 0x30 ≤ UInt8.ofNat k ∧ UInt8.ofNat k ≤ 0x66 := by
    decide +kernel
  have hx : x < 16 := by
    unfold hexVal at h
    split at h
    · cases h; omega
    · split at h
      · cases h; omega
      · split at h
        · cases h; omega
        · cases h
  have hc : UInt8.ofNat c.toNat = c := UInt8.ofNat_toNat
  have := hall ⟨c.toNat, c.toNat_lt⟩ ⟨x, hx⟩
  simp only [hc] at this
  exact ⟨hx, this h⟩

theorem nibbles : ∀ x y : Fin 16, UInt8.ofNat x <<< 4 ||| UInt8.ofNat y = UInt8.ofNat (16 * x.val + y.val) := by
  decide +kernel

theorem ascii2bin_hexVal {h l : UInt8} {x y : Nat} (hh : hexVal h = some x) (hl : hexVal l = some y) :
    ascii2bin h l = UInt8.ofNat (16 * x + y) := by
  obtain ⟨hx, ex, _⟩ := hexVal_spec hh
  obtain ⟨hy, ey, _⟩ := hexVal_spec hl
  unfold ascii2bin
  rw [ex, ey]
  exact nibbles ⟨x, hx⟩ ⟨y, hy⟩

theorem HexText.length {cs bs : Bytes} (h : HexText cs bs) : cs.length = 2 * bs.length := by
  induction h with
  | nil => rfl
  | cons _ _ _ ih =>
    simp only [List.length_cons, ih]
    omega

theorem HexText.lineChar {cs bs : Bytes} (h : HexText cs bs) : ∀ c ∈ cs, LineChar c := by
  induction h with
  | nil => exact fun c hc => absurd hc List.not_mem_nil
  | cons hh hl _ ih =>
    intro c hc
    rcases List.mem_cons.mp hc with rfl | hc
    · exact (hexVal_spec hh).2.2
    · rcases List.mem_cons.mp hc with rfl | hc
      · exact (hexVal_spec hl).2.2
      · exact ih c hc

/-- The decoder reads byte `i` of a digit text as the byte it spells. -/
theorem HexText.byte {cs bs : Bytes} (h : HexText cs bs) :
    ∀ i, i < bs.length → ascii2bin (cs.getD (2 * i) 0) (cs.getD (2 * i + 1) 0) = bs.getD i 0 := by
  induction h with
  | nil => exact fun i hi => absurd hi (Nat.not_lt_zero _)
  | cons hh hl _ ih =>
    intro i hi
    cases i with
    | zero => exact ascii2bin_hexVal hh hl
    | succ i =>
      have := ih i (by simpa using hi)
      simpa [Nat.mul_succ] using this

/-- The same behind the colon of a line. -/
theorem HexText.lineByte {cs bs : Bytes} (h : HexText cs bs) (i : Nat) (hi : i < bs.length) :
    lineByte (0x3A :: cs) (2 * i + 1) = bs.getD i 0 := by
  have := h.byte i hi
  simpa [Bootloader.lineByte] using this

/-! ## 3. A record, as the decoder reads it -/

theorem hexRecord_length (t : UInt8) (addr : Nat) (data : Bytes) (ck : UInt8) :
    (hexRecord t addr data ck).length = data.length + 5 := by
  simp [hexRecord]

/-- Byte `4 + i` of a record is its `i`th data byte. -/
theorem hexRecord_data (t : UInt8) (addr : Nat) (data : Bytes) (ck : UInt8) {i : Nat} (hi : i < data.length) :
    (hexRecord t addr data ck).getD (4 + i) 0 = data.getD i 0 := by
  unfold hexRecord
  rw [List.append_assoc, List.getD_append_right _ _ _ _ (by simp), List.getD_append _ _ _ _ (by simpa using hi)]
  simp

theorem dataRecord_check (addr : Nat) (data : Bytes) (ck : UInt8) :
    (dataRecord addr data ck).getD (4 + data.length) 0 = ck := by
  unfold dataRecord
  rw [List.getD_append_right _ _ _ _ (by simp; omega)]
  have h0 : 4 + data.length - ([UInt8.ofNat data.length, UInt8.ofNat (addr / 256), UInt8.ofNat addr, 0] ++
      data).length = 0 := by
    simp only [List.length_append, List.length_cons, List.length_nil]
    omega
  rw [h0]
  rfl

theorem IsDataText.hexText {addr : Nat} {data text : Bytes} (h : IsDataText addr data text) :
    IsHexText 0 addr data text := h

section HexText

variable {t : UInt8} {addr : Nat} {data text : Bytes}

theorem hexText_length (h : IsHexText t addr data text) : text.length = 2 * data.length + 11 := by
  obtain ⟨ck, digits, rfl, hd, _⟩ := h
  simp only [List.length_cons, hd.length, hexRecord_length]
  omega

theorem hexText_lineChar (h : IsHexText t addr data text) : ∀ c ∈ text, LineChar c := by
  obtain ⟨ck, digits, rfl, hd, _⟩ := h
  intro c hc
  rcases List.mem_cons.mp hc with rfl | hc
  · exact ⟨by decide, by decide⟩
  · exact hd.lineChar c hc

theorem hexText_len (h : IsHexText t addr data text) (hle : data.length ≤ 34) :
    (lineByte text 1).toNat = data.length := by
  obtain ⟨ck, digits, rfl, hd, _⟩ := h
  have := hd.lineByte 0 (by rw [hexRecord_length]; omega)
  simp only [Nat.mul_zero, Nat.zero_add] at this
  rw [this]
  show (UInt8.ofNat data.length).toNat = _
  rw [UInt8.toNat_ofNat']
  omega

/-- **A record passes the decoder's tests.** -/
theorem hexText_isRecord (h : IsHexText t addr data text) (hle : data.length ≤ 34) : IsRecord text where
  colon := by
    obtain ⟨ck, digits, rfl, _, _⟩ := h
    rfl
  short := by
    rw [hexText_length h]
    omega
  long := by
    rw [hexText_length h]
    omega
  len := by
    rw [hexText_len h hle, hexText_length h]
    omega
  chars := hexText_lineChar h

theorem hexText_recType (h : IsHexText t addr data text) : recType text = t := by
  obtain ⟨ck, digits, rfl, hd, _⟩ := h
  exact hd.lineByte 3 (by rw [hexRecord_length]; omega)

/-- **The decoder reads the record's data.** -/
theorem hexText_recData (h : IsHexText t addr data text) (hle : data.length ≤ 34) : recData text = data := by
  have hlen := hexText_len h hle
  obtain ⟨ck, digits, rfl, hd, _⟩ := h
  refine List.ext_getElem (by rw [recData_length, hlen]) fun i hi hi' => ?_
  have hb := hd.lineByte (4 + i) (by rw [hexRecord_length]; omega)
  rw [hexRecord_data _ _ _ _ hi', List.getD_eq_getElem _ _ hi'] at hb
  rw [← hb]
  simp only [recData, List.getElem_map, List.getElem_range]
  congr 1
  omega

end HexText

theorem toNat_foldl_add : ∀ (bs : Bytes) (a : UInt8),
    (bs.foldl (· + ·) a).toNat = (a.toNat + (bs.map UInt8.toNat).sum) % 256
  | [], a => by
    have := a.toNat_lt
    simp only [List.foldl_nil, List.map_nil, List.sum_nil]
    omega
  | b :: bs, a => by
    simp only [List.foldl_cons, List.map_cons, List.sum_cons]
    rw [toNat_foldl_add bs (a + b), UInt8.toNat_add]
    omega

/-- **The decoder's checksum of a data record is 0.** It leaves the type out of the sum, which is 0
    in a data record. -/
theorem dataText_recSum {addr : Nat} {data text : Bytes} (h : IsDataText addr data text)
    (hle : data.length ≤ 34) : recSum text = 0 := by
  have hdata := hexText_recData h.hexText hle
  have hlen := hexText_len h.hexText hle
  obtain ⟨ck, digits, rfl, hd, hsum⟩ := h
  have hrec : (dataRecord addr data ck).length = data.length + 5 := hexRecord_length 0 addr data ck
  have h1 : lineByte (0x3A :: digits) 1 = UInt8.ofNat data.length := hd.lineByte 0 (by omega)
  have h3 : lineByte (0x3A :: digits) 3 = UInt8.ofNat (addr / 256) := hd.lineByte 1 (by omega)
  have h5 : lineByte (0x3A :: digits) 5 = UInt8.ofNat addr := hd.lineByte 2 (by omega)
  have hck := hd.lineByte (4 + data.length) (by omega)
  rw [dataRecord_check] at hck
  have hpos : 9 + 2 * data.length = 2 * (4 + data.length) + 1 := by omega
  unfold recSum
  rw [hdata, hlen, hpos, hck, h1, h3, h5]
  apply UInt8.toNat_inj.mp
  rw [UInt8.toNat_add, toNat_foldl_add, UInt8.toNat_add, UInt8.toNat_add]
  simp only [dataRecord, List.map_append, List.map_cons, List.map_nil, List.sum_append, List.sum_cons,
    List.sum_nil] at hsum
  show _ = 0
  have h00 : (0 : UInt8).toNat = 0 := rfl
  omega

theorem endText_isRecord : IsRecord endText :=
  ⟨by decide, by decide, by decide, by decide, by unfold LineChar; decide +kernel⟩

theorem endText_recType : recType endText = 1 := by decide

/-! ## 4. Whole lines and parts of lines -/

/-- Characters that are no part of a line. -/
def Blank (z : Bytes) : Prop := ∀ c ∈ z, c = 0x0A ∨ c = 0x0D

theorem readLine_chars : ∀ (cs line u : Bytes), (∀ c ∈ cs, LineChar c) →
    line.length + cs.length < 80 → readLine line (cs ++ u) = readLine (line ++ cs) u
  | [], line, u, _, _ => by simp
  | c :: cs, line, u, hc, hl => by
    have h0 : 0x30 ≤ c ∧ c ≤ 0x66 := hc c List.mem_cons_self
    simp only [List.length_cons] at hl
    rw [List.cons_append, readLine, if_pos h0, if_neg (by simp; omega),
      readLine_chars cs _ u (fun x hx => hc x (List.mem_cons_of_mem _ hx)) (by simp; omega)]
    simp

theorem readLine_blank : ∀ (z u : Bytes), Blank z → readLine [] (z ++ u) = readLine [] u
  | [], _, _ => rfl
  | c :: z, u, h => by
    have ih := readLine_blank z u fun x hx => h x (List.mem_cons_of_mem _ hx)
    rcases h c List.mem_cons_self with rfl | rfl
    · rw [List.cons_append, readLine, if_neg (by decide), if_pos rfl, if_neg (by decide)]
      exact ih
    · rw [List.cons_append, readLine, if_neg (by decide), if_neg (by decide), if_pos rfl]
      exact ih

/-- What is left of a line end is blank. -/
theorem IsEol.blank {eol z : Bytes} (h : IsEol eol) (hz : z <:+ eol) : Blank z := by
  intro c hc
  have hc' := hz.subset hc
  rcases h with rfl | rfl
  · exact Or.inl (List.mem_singleton.mp hc')
  · rcases List.mem_cons.mp hc' with rfl | hc'
    · exact Or.inr rfl
    · exact Or.inl (List.mem_singleton.mp hc')

/-- What stands behind a whole line when only part of it has come in: `after` of the line end `eol`
    and what follows has come, `R` has not, `S` follows the line end. The decoder goes on with
    `rest`, and `z` is the part of the line end that is still to come. -/
theorem readLine_eol {line eol after R S : Bytes} (hline : 0 < line.length) (heol : IsEol eol)
    (h : after ++ R = eol ++ S) :
    ∃ rest z, readLine line after = (line.length, line, rest) ∧ z <:+ eol ∧ rest ++ R = z ++ S ∧
      (rest = [] ∨ z = []) := by
  have hlf : ∀ u, readLine line (0x0A :: u) = (line.length, line, u) := fun u => by
    rw [readLine, if_neg (by decide), if_pos rfl, if_pos hline]
  have hcr : ∀ u, readLine line (0x0D :: u) = readLine line u := fun u => by
    rw [readLine, if_neg (by decide), if_neg (by decide), if_pos rfl]
  rcases heol with rfl | rfl
  · rcases after with _ | ⟨a, u⟩
    · exact ⟨[], [0x0A], rfl, List.suffix_refl _, h, Or.inl rfl⟩
    · simp only [List.cons_append, List.nil_append, List.cons.injEq] at h
      obtain ⟨rfl, hu⟩ := h
      exact ⟨u, [], hlf u, List.nil_suffix, hu, Or.inr rfl⟩
  · rcases after with _ | ⟨a, _ | ⟨b, u⟩⟩
    · exact ⟨[], [0x0D, 0x0A], rfl, List.suffix_refl _, h, Or.inl rfl⟩
    · simp only [List.cons_append, List.nil_append, List.cons.injEq] at h
      obtain ⟨rfl, hu⟩ := h
      refine ⟨[], [0x0A], ?_, List.suffix_cons _ _, hu, Or.inl rfl⟩
      rw [hcr]
      rfl
    · simp only [List.cons_append, List.nil_append, List.cons.injEq] at h
      obtain ⟨rfl, rfl, hu⟩ := h
      refine ⟨u, [], ?_, List.nil_suffix, hu, Or.inr rfl⟩
      rw [hcr, hlf]

/-- A record that was read is the next line. -/
theorem nextLine_of_readLine {u line rest : Bytes} (hrec : IsRecord line)
    (h : readLine [] u = (line.length, line, rest)) : nextLine u = .record line rest := by
  have hlong := hrec.long
  have hshort := hrec.short
  have hlen := hrec.len
  unfold nextLine
  simp only [h]
  rw [if_neg (by omega), if_neg (by omega), if_neg (by simpa using hrec.colon), if_neg (by omega)]

/-- **A line that is all there is taken**, however much of its line end has come in. -/
theorem nextLine_whole {z text after eol R S : Bytes} (hz : Blank z) (hrec : IsRecord text)
    (heol : IsEol eol) (h : after ++ R = eol ++ S) :
    ∃ rest z', nextLine (z ++ (text ++ after)) = .record text rest ∧ z' <:+ eol ∧ rest ++ R = z' ++ S ∧
      (rest = [] ∨ z' = []) := by
  have hpos : 0 < text.length := Nat.lt_of_lt_of_le (by decide) hrec.long
  obtain ⟨rest, z', hr, hsuf, hS, he⟩ := readLine_eol (R := R) (S := S) hpos heol h
  refine ⟨rest, z', nextLine_of_readLine hrec ?_, hsuf, hS, he⟩
  rw [readLine_blank _ _ hz, readLine_chars _ _ _ hrec.chars (by simpa using hrec.lt), List.nil_append]
  exact hr

/-- The length field of a line can be read off its first three characters. -/
theorem lineByte_one_take (text : Bytes) {n : Nat} (h : 3 ≤ n) :
    lineByte (text.take n) 1 = lineByte text 1 := by
  simp only [lineByte, List.getD_eq_getElem?_getD, List.getElem?_take]
  rw [if_pos (by omega), if_pos (by omega)]

/-- **A line that is not all there waits**: nothing but blanks, or less of it than its length field
    says. -/
theorem nextLine_part {z text : Bytes} (hz : Blank z) (hrec : IsRecord text) {n : Nat} (hn : n < text.length) :
    nextLine (z ++ text.take n) = if n = 0 then .blank else .incomplete := by
  have htake : (text.take n).length = n := by
    rw [List.length_take]
    omega
  have hlt := hrec.lt
  have hr : readLine [] (z ++ text.take n) = (n, text.take n, []) := by
    have h1 := readLine_chars (text.take n) [] [] (fun c h => hrec.chars c (List.mem_of_mem_take h))
      (by rw [htake, List.length_nil]; omega)
    rw [List.append_nil, List.nil_append] at h1
    rw [readLine_blank _ _ hz, h1, readLine, htake]
  unfold nextLine
  simp only [hr]
  by_cases h0 : n = 0
  · rw [if_pos h0, if_pos h0]
  · have hcol : (text.take n).getD 0 0 = 0x3A := by
      have := hrec.colon
      simpa [List.getD_eq_getElem?_getD, List.getElem?_take, Nat.pos_of_ne_zero h0] using this
    rw [if_neg h0, if_neg h0, if_neg (by omega), if_neg (by simpa using hcol), if_pos]
    by_cases h11 : n < 11
    · exact Or.inl h11
    · right
      rw [lineByte_one_take text (by omega)]
      have := hrec.len
      omega

/-- The unread characters when less has come in than `z` and a whole line: blanks, then a part. -/
theorem part_of_line {u R z text S : Bytes} (hpos : 0 < text.length) (h : u ++ R = z ++ (text ++ S))
    (hlt : u.length < z.length + text.length) :
    ∃ z' n, u = z' ++ text.take n ∧ n < text.length ∧ ∀ c ∈ z', c ∈ z := by
  have hu : u = (z ++ (text ++ S)).take u.length := by
    rw [← h, List.take_left]
  rw [List.take_append] at hu
  by_cases hle : u.length ≤ z.length
  · refine ⟨u, 0, by simp, hpos, fun c hc => ?_⟩
    rw [Nat.sub_eq_zero_of_le hle, List.take_zero, List.append_nil] at hu
    rw [hu] at hc
    exact List.mem_of_mem_take hc
  · refine ⟨z, u.length - z.length, ?_, by omega, fun c hc => hc⟩
    rw [List.take_of_length_le (by omega), List.take_append_of_le_length (by omega)] at hu
    exact hu

/-- The unread characters when `z` and a whole line have come in. -/
theorem whole_of_line {u R z text S : Bytes} (h : u ++ R = z ++ (text ++ S))
    (hle : z.length + text.length ≤ u.length) :
    ∃ after, u = z ++ (text ++ after) ∧ after ++ R = S := by
  rw [← List.append_assoc] at h
  rcases List.append_eq_append_iff.mp h with ⟨a, ha, hR⟩ | ⟨after, ha, hS⟩
  · have := congrArg List.length ha
    rw [List.length_append, List.length_append] at this
    have ha0 : a = [] := List.eq_nil_of_length_eq_zero (by omega)
    subst ha0
    exact ⟨[], by simpa using ha.symm, by simpa using hR⟩
  · exact ⟨after, by rw [ha, List.append_assoc], hS.symm⟩

/-- **The next line of a stream**, when less has come in than `z` and that line: it waits. -/
theorem nextLine_waits {u R z text S : Bytes} (hz : Blank z) (hrec : IsRecord text)
    (h : u ++ R = z ++ (text ++ S)) (hlt : u.length < z.length + text.length) :
    nextLine u = .blank ∨ nextLine u = .incomplete := by
  obtain ⟨z', n, hu, hn, hmem⟩ := part_of_line (Nat.lt_of_lt_of_le (by decide) hrec.long) h hlt
  rw [hu, nextLine_part (fun c hc => hz c (hmem c hc)) hrec hn]
  by_cases h0 : n = 0
  · exact Or.inl (if_pos h0)
  · exact Or.inr (if_neg h0)

/-- **The next line of a stream**, when it has come in: it is taken. -/
theorem nextLine_taken {u R z text eol S : Bytes} (hz : Blank z) (hrec : IsRecord text) (heol : IsEol eol)
    (h : u ++ R = z ++ (text ++ (eol ++ S))) (hle : z.length + text.length ≤ u.length) :
    ∃ rest z', nextLine u = .record text rest ∧ z' <:+ eol ∧ rest ++ R = z' ++ S ∧ (rest = [] ∨ z' = []) := by
  obtain ⟨after, hu, hafter⟩ := whole_of_line h hle
  obtain ⟨rest, z', hn, htaken⟩ := nextLine_whole hz hrec heol hafter
  refine ⟨rest, z', ?_, htaken⟩
  rw [hu]
  exact hn

/-! ## 5. Writing a hex file -/

/-- A digit of a byte, in upper case. -/
def hexDigit (x : Nat) : UInt8 := UInt8.ofNat (if x < 10 then 48 + x else 55 + x)

/-- The two digits of a byte. -/
def hexDigits (b : UInt8) : Bytes := [hexDigit (b.toNat / 16), hexDigit (b.toNat % 16)]

/-- The checksum byte of a data record. -/
def hexCheck (addr : Nat) (data : Bytes) : UInt8 :=
  UInt8.ofNat (256 - ((dataRecord addr data 0).map UInt8.toNat).sum % 256)

/-- A data record for `addr`, with its line end. -/
def hexLine (addr : Nat) (data eol : Bytes) : HexLine where
  data := data
  text := 0x3A :: (dataRecord addr data (hexCheck addr data)).flatMap hexDigits
  eol := eol

/-- Data records one after the other, from `addr` on. -/
def hexLines (eol : Bytes) : Nat → List Bytes → List HexLine
  | _, [] => []
  | addr, d :: ds => hexLine addr d eol :: hexLines eol (addr + d.length) ds

theorem hexVal_hexDigit {x : Nat} (h : x < 16) : hexVal (hexDigit x) = some x := by
  have hall : ∀ k : Fin 16, hexVal (hexDigit k) = some k.val := by decide +kernel
  exact hall ⟨x, h⟩

theorem hexText_hexDigits : ∀ bs : Bytes, HexText (bs.flatMap hexDigits) bs
  | [] => .nil
  | b :: bs => by
    have hb := b.toNat_lt
    have h := HexText.cons (hexVal_hexDigit (x := b.toNat / 16) (by omega))
      (hexVal_hexDigit (x := b.toNat % 16) (by omega)) (hexText_hexDigits bs)
    rw [Nat.div_add_mod, UInt8.ofNat_toNat] at h
    exact h

theorem hexLine_isDataText (addr : Nat) (data eol : Bytes) :
    IsDataText addr data (hexLine addr data eol).text := by
  refine ⟨hexCheck addr data, _, rfl, hexText_hexDigits _, ?_⟩
  unfold hexCheck dataRecord
  simp only [List.map_append, List.map_cons, List.map_nil, List.sum_append, List.sum_cons, List.sum_nil,
    UInt8.toNat_ofNat']
  have h00 : (0 : UInt8).toNat = 0 := rfl
  omega

/-- How many characters written lines have. -/
theorem length_hexLines (eol : Bytes) : ∀ (ds : List Bytes) (addr : Nat),
    (linesText (hexLines eol addr ds)).length = (ds.map fun d => 2 * d.length + 11 + eol.length).sum
  | [], _ => rfl
  | d :: ds, addr => by
    have htext := hexText_length (hexLine_isDataText addr d eol).hexText
    have heol : (hexLine addr d eol).eol = eol := rfl
    have hrest := length_hexLines eol ds (addr + d.length)
    unfold linesText at hrest ⊢
    rw [hexLines, List.flatMap_cons, List.length_append, List.length_append, htext, heol, hrest, List.map_cons,
      List.sum_cons]

/-- Written lines are contiguous. -/
theorem hexLines_contiguous {eol : Bytes} (heol : IsEol eol) : ∀ (ds : List Bytes) (addr : Nat),
    (∀ d ∈ ds, 1 ≤ d.length ∧ d.length ≤ 34) → Contiguous addr (hexLines eol addr ds)
  | [], _, _ => trivial
  | d :: ds, addr, h => by
    have hd := h d List.mem_cons_self
    exact ⟨⟨hd.1, hd.2, hexLine_isDataText addr d eol, heol⟩,
      hexLines_contiguous heol ds _ fun x hx => h x (List.mem_cons_of_mem _ hx)⟩

/-- **Every image has a hex file**: the file of its records, LF line ends. -/
def HexFile.ofRecords (ds : List Bytes) (h : ∀ d ∈ ds, 1 ≤ d.length ∧ d.length ≤ 34) : HexFile where
  lines := hexLines [0x0A] 0 ds
  tail := [0x0A]
  contiguous := hexLines_contiguous (Or.inl rfl) ds 0 h
  tailEol := Or.inr (Or.inl rfl)

end SmartHome.Bootloader
