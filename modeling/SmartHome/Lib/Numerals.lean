/-
  Subject:   NUMBERS WRITTEN IN A TEXT. Nothing here names a program.

  A numeral is a sign or none, and digits. A text is read from the front, as the conversions of `scanf` do, or
  all numerals in it are looked for, each as long as it goes.

  * `Numeral`, `Numeral.value` -- a numeral and its number; `value_extend` -- with more digits it is the same
    number only if it is 0;
  * `takeNumeral` -- the numeral a text begins with; `takeNumeral_text` -- the text is the numeral and the rest;
  * `numerals` -- all of them; `numerals_text` -- a numeral in front of a character that is not a digit is the
    first of them.
-/
import Mathlib.Data.List.TakeWhile
import Mathlib.Data.UInt

namespace SmartHome.Lib

/-! ## 1. Digits -/

/-- The digit a character is; more than any digit if it is none. -/
def digitValue (c : UInt8) : Nat :=
  if 48 ≤ c ∧ c ≤ 57 then c.toNat - 48
  else if 65 ≤ c ∧ c ≤ 70 then c.toNat - 55
  else if 97 ≤ c ∧ c ≤ 102 then c.toNat - 87
  else 255

def isDigit (base : Nat) (c : UInt8) : Bool := digitValue c < base

/-- The number that digits make. -/
def digitsValue (base : Nat) (digits : List UInt8) : Nat := digits.foldl (fun v c => v * base + digitValue c) 0

theorem digitsValue_append (base : Nat) (a b : List UInt8) :
    digitsValue base (a ++ b) = digitsValue base a * base ^ b.length + digitsValue base b := by
  induction b using List.reverseRecOn with
  | nil => simp [digitsValue]
  | append_singleton b c ih =>
    have hsnoc : ∀ l, digitsValue base (l ++ [c]) = digitsValue base l * base + digitValue c := fun l => by
      simp [digitsValue, List.foldl_append]
    rw [← List.append_assoc, hsnoc, hsnoc, ih, List.length_append, List.length_singleton, Nat.pow_succ,
      Nat.add_mul, Nat.mul_assoc, Nat.add_assoc]

theorem digitsValue_lt {base : Nat} {digits : List UInt8} (h : ∀ c ∈ digits, isDigit base c = true) :
    digitsValue base digits < base ^ digits.length := by
  induction digits using List.reverseRecOn with
  | nil => exact Nat.zero_lt_one
  | append_singleton l c ih =>
    have hl := ih fun d hd => h d (List.mem_append_left _ hd)
    have hc : digitValue c < base := of_decide_eq_true (h c (List.mem_append_right _ List.mem_cons_self))
    have hlast : digitsValue base [c] = digitValue c := by simp [digitsValue]
    rw [digitsValue_append, hlast, List.length_append, List.length_singleton, Nat.pow_one, Nat.pow_succ]
    calc digitsValue base l * base + digitValue c
        < digitsValue base l * base + base := Nat.add_lt_add_left hc _
      _ = (digitsValue base l + 1) * base := (Nat.succ_mul _ _).symm
      _ ≤ base ^ l.length * base := Nat.mul_le_mul_right _ hl

def isSign (c : UInt8) : Bool := c == 43 || c == 45

/-! ## 2. Numerals -/

/-- A sign or none, and digits. -/
structure Numeral where
  sign : List UInt8
  digits : List UInt8
  deriving DecidableEq, Repr

/-- As it is written. -/
def Numeral.text (n : Numeral) : List UInt8 := n.sign ++ n.digits

/-- Its number. -/
def Numeral.value (base : Nat) (n : Numeral) : Int :=
  if n.sign = [45] then -(digitsValue base n.digits : Int) else digitsValue base n.digits

/-- With more digits behind it a numeral is the same number only if that is 0. -/
theorem value_extend {base : Nat} (hbase : 2 ≤ base) (n : Numeral) {more : List UInt8} (hmore : more ≠ []) :
    n.value base = Numeral.value base ⟨n.sign, n.digits ++ more⟩ ↔
      Numeral.value base ⟨n.sign, n.digits ++ more⟩ = 0 := by
  have hpow : 2 ≤ base ^ more.length := by
    obtain ⟨k, hk⟩ : ∃ k, more.length = k + 1 := ⟨more.length - 1, by
      have := List.length_pos_iff.2 hmore
      omega⟩
    rw [hk, Nat.pow_succ]
    exact le_trans hbase (Nat.le_mul_of_pos_left _ (Nat.pow_pos (by omega)))
  have hle : digitsValue base n.digits * 2 ≤ digitsValue base n.digits * base ^ more.length :=
    Nat.mul_le_mul_left _ hpow
  have happ := digitsValue_append base n.digits more
  unfold Numeral.value
  simp only
  split <;> omega

/-- The numeral a text begins with, and what follows. -/
def takeNumeral (base : Nat) (s : List UInt8) : Option (Numeral × List UInt8) :=
  let sign := (s.take 1).filter isSign
  let body := s.drop sign.length
  let digits := body.takeWhile (isDigit base)
  if digits = [] then none else some (⟨sign, digits⟩, body.dropWhile (isDigit base))

/-- What makes a numeral. -/
structure Numeral.Proper (base : Nat) (n : Numeral) : Prop where
  sign : n.sign = [] ∨ ∃ c, isSign c = true ∧ n.sign = [c]
  digits : n.digits ≠ []
  all : ∀ c ∈ n.digits, isDigit base c = true

/-- Where a numeral can end. -/
def Stops (base : Nat) (s : List UInt8) : Prop := ∀ c ∈ s.head?, isDigit base c = false

theorem stops_dropWhile (base : Nat) (s : List UInt8) : Stops base (s.dropWhile (isDigit base)) := by
  intro c hc
  have h := List.head?_dropWhile_not (isDigit base) s
  rw [Option.mem_def.1 hc] at h
  simpa using h

theorem takeNumeral_text {base : Nat} {s rest : List UInt8} {n : Numeral} (h : takeNumeral base s = some (n, rest)) :
    s = n.text ++ rest ∧ n.Proper base ∧ Stops base rest := by
  unfold takeNumeral at h
  simp only at h
  have hsign : ((s.take 1).filter isSign = [] ∨ ∃ c, isSign c = true ∧ (s.take 1).filter isSign = [c]) ∧
      s = (s.take 1).filter isSign ++ s.drop ((s.take 1).filter isSign).length := by
    cases s with
    | nil => exact ⟨.inl rfl, rfl⟩
    | cons c s =>
      by_cases hc : isSign c = true
      · have hf : ((c :: s).take 1).filter isSign = [c] := by simp [hc]
        rw [hf]
        exact ⟨.inr ⟨c, hc, rfl⟩, rfl⟩
      · have hf : ((c :: s).take 1).filter isSign = [] := by simp [hc]
        rw [hf]
        exact ⟨.inl rfl, rfl⟩
  split at h
  · cases h
  · rename_i hne
    injection h with h
    obtain ⟨rfl, rfl⟩ := Prod.mk.inj h
    refine ⟨?_, ⟨hsign.1, hne, fun c hc => List.mem_takeWhile_imp hc⟩, stops_dropWhile base _⟩
    rw [Numeral.text, List.append_assoc, List.takeWhile_append_dropWhile]
    exact hsign.2

/-! ## 3. All numerals of a text -/

/-- A numeral, if there are digits. -/
def Numeral.emit (n : Numeral) : List Numeral := if n.digits = [] then [] else [n]

/-- The numerals of a text of which `n` was begun. -/
def numeralsFrom (base : Nat) : Numeral → List UInt8 → List Numeral
  | n, [] => n.emit
  | n, c :: s =>
    if isDigit base c then numeralsFrom base ⟨n.sign, n.digits ++ [c]⟩ s
    else n.emit ++ numeralsFrom base ⟨[c].filter isSign, []⟩ s

/-- All numerals of a text, each as long as it goes. -/
def numerals (base : Nat) (s : List UInt8) : List Numeral := numeralsFrom base ⟨[], []⟩ s

section Numerals

variable {base : Nat}

theorem numeralsFrom_digits {ds : List UInt8} (hds : ∀ c ∈ ds, isDigit base c = true) (n : Numeral) (s : List UInt8) :
    numeralsFrom base n (ds ++ s) = numeralsFrom base ⟨n.sign, n.digits ++ ds⟩ s := by
  induction ds generalizing n with
  | nil => simp
  | cons c ds ih =>
    rw [List.cons_append, numeralsFrom, if_pos (hds c List.mem_cons_self),
      ih (fun d hd => hds d (List.mem_cons_of_mem c hd)), List.append_assoc]
    rfl

/-- A numeral ends where no digit follows. -/
theorem numeralsFrom_stops (n : Numeral) {s : List UInt8} (h : Stops base s) :
    numeralsFrom base n s = n.emit ++ numerals base s := by
  cases s with
  | nil => exact (List.append_nil _).symm
  | cons c s =>
    have hc : ¬ isDigit base c = true := by simp [h c rfl]
    rw [numerals, numeralsFrom, if_neg hc, numeralsFrom, if_neg hc]
    rfl

/-- Signs are not digits. -/
theorem isDigit_sign {c : UInt8} (hbase : base ≤ 16) (h : isSign c = true) : isDigit base c = false := by
  unfold isSign at h
  rw [Bool.or_eq_true, beq_iff_eq, beq_iff_eq] at h
  unfold isDigit
  rw [decide_eq_false_iff_not, Nat.not_lt]
  rcases h with rfl | rfl <;> exact hbase.trans (by decide)

/-- **A numeral and the digits behind it are the first numeral.** -/
theorem numerals_extend (hbase : base ≤ 16) {n : Numeral} (hn : n.Proper base) (s : List UInt8) :
    numerals base (n.text ++ s) = ⟨n.sign, n.digits ++ s.takeWhile (isDigit base)⟩ ::
      numerals base (s.dropWhile (isDigit base)) := by
  have hbody : numeralsFrom base ⟨n.sign, []⟩ (n.digits ++ s) = ⟨n.sign, n.digits ++ s.takeWhile (isDigit base)⟩ ::
      numerals base (s.dropWhile (isDigit base)) := by
    have hsplit : s = s.takeWhile (isDigit base) ++ s.dropWhile (isDigit base) := List.takeWhile_append_dropWhile.symm
    have hne : n.digits ++ s.takeWhile (isDigit base) ≠ [] := fun h => hn.digits (List.append_eq_nil_iff.1 h).1
    rw [numeralsFrom_digits hn.all]
    conv_lhs => rw [hsplit]
    rw [numeralsFrom_digits (fun c hc => List.mem_takeWhile_imp hc), numeralsFrom_stops _ (stops_dropWhile base s)]
    simp only [Numeral.emit, List.nil_append]
    rw [if_neg hne]
    rfl
  rw [Numeral.text, List.append_assoc, numerals]
  rcases hn.sign with h | ⟨c, hc, h⟩
  · rw [h] at hbody ⊢
    exact hbody
  · rw [h] at hbody ⊢
    rw [List.singleton_append, numeralsFrom, if_neg (by rw [isDigit_sign hbase hc]; decide),
      show ([c].filter isSign) = [c] by simp [hc]]
    exact hbody

theorem numerals_text (hbase : base ≤ 16) {n : Numeral} (hn : n.Proper base) {s : List UInt8} (hs : Stops base s) :
    numerals base (n.text ++ s) = n :: numerals base s := by
  have htake : s.takeWhile (isDigit base) = [] := by
    cases s with
    | nil => rfl
    | cons c s => exact List.takeWhile_cons_of_neg (by simp [hs c rfl])
  have hdrop : s.dropWhile (isDigit base) = s := by
    have h := List.takeWhile_append_dropWhile (p := isDigit base) (l := s)
    rwa [htake] at h
  rw [numerals_extend hbase hn, htake, hdrop, List.append_nil]

/-- A character that can not belong to a numeral. -/
theorem numerals_sep {c : UInt8} (hc : isDigit base c = false) (hs : isSign c = false) (s : List UInt8) :
    numerals base (c :: s) = numerals base s := by
  rw [numerals, numeralsFrom, if_neg (by simp [hc]), show ([c].filter isSign) = [] by simp [hs]]
  rfl

end Numerals

end SmartHome.Lib
