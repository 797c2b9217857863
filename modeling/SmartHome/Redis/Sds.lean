/-
  Subject:   STRINGS AND NUMBERS OF THE SERVER (sds.c, util.c).

  An sds has a length and a NUL behind it: what is searched with the functions of C ends at the first NUL,
  what is copied by its length does not. Numbers are written in decimal and read back with care; a list of
  arguments is written on a line in quotes and split again.

  * `strchr`, `string2ll`, `ll2string`, `sdssplitargs`, `sdscatrepr` -- the source;
  * `strchr_cut` -- a search in what has come so far of a text;
  * **`string2ll_iff`** -- a number of 64 bits comes back, and no other text is taken for one;
  * **`sdssplitargs_sdscatrepr`** -- every list of arguments, of any bytes, comes back from the line it is
    written on, whatever blanks stand between them.
-/
import Mathlib.Data.List.TakeWhile
import Mathlib.Data.UInt
import SmartHome.Lib.Loop

namespace SmartHome.Redis

open SmartHome.Lib

/-- The bytes of an sds, without the NUL behind them. -/
abbrev Sds := List UInt8

/-- A string of the source. -/
def chars (s : String) : Sds := s.toList.map fun c => UInt8.ofNat c.toNat

/-! ## 1. Searching -/

/-- `strchr(s, c)` as an index, of a character other than NUL: it looks no further than the first NUL. -/
def strchr (s : Sds) (c : UInt8) : Option Nat :=
  let n := (s.takeWhile fun b => b != c && b != 0).length
  if s[n]? = some c then some n else none

section Strchr

variable {a b s : Sds} {c : UInt8}

theorem takeWhile_before (ha : c ∉ a) (h0 : 0 ∉ a) : (a.takeWhile fun b => b != c && b != 0) = a := by
  refine List.takeWhile_eq_self_iff.2 fun x hx => ?_
  have hxc : x ≠ c := fun h => ha (h ▸ hx)
  have hx0 : x ≠ 0 := fun h => h0 (h ▸ hx)
  simp [hxc, hx0]

theorem strchr_append (ha : c ∉ a) (h0 : 0 ∉ a) (b : Sds) : strchr (a ++ c :: b) c = some a.length := by
  have htake : ((a ++ c :: b).takeWhile fun b => b != c && b != 0) = a := by
    rw [List.takeWhile_append, takeWhile_before ha h0, if_pos rfl, List.takeWhile_cons_of_neg (by simp),
      List.append_nil]
  simp [strchr, htake]

theorem strchr_none (ha : c ∉ a) : strchr a c = none := by
  unfold strchr
  refine if_neg fun h => ha ?_
  exact List.mem_of_getElem? h

/-- What is found. -/
theorem strchr_some {n : Nat} (h : strchr s c = some n) :
    ∃ a b, s = a ++ c :: b ∧ a.length = n ∧ c ∉ a ∧ 0 ∉ a := by
  unfold strchr at h
  simp only at h
  split at h
  · rename_i hget
    cases h
    have hall : ∀ x ∈ s.takeWhile fun b => b != c && b != 0, (x != c && x != 0) = true := fun x hx =>
      List.mem_takeWhile_imp (p := fun b => b != c && b != 0) hx
    refine ⟨s.takeWhile fun b => b != c && b != 0, s.drop ((s.takeWhile fun b => b != c && b != 0).length + 1), ?_,
      rfl, fun hc => by simpa using hall c hc, fun h0 => by simpa using hall 0 h0⟩
    obtain ⟨hlt, hc⟩ := List.getElem?_eq_some_iff.1 hget
    have hdrop := List.drop_eq_getElem_cons hlt
    rw [hc] at hdrop
    rw [← hdrop]
    nth_rewrite 1 [← List.take_append_drop (s.takeWhile fun b => b != c && b != 0).length s]
    rw [(List.prefix_iff_eq_take.1 (List.takeWhile_prefix _)).symm]
  · cases h

/-- **A search in what has come of a text**: the character has come, or it is still to come. -/
theorem strchr_cut {got rest : Sds} (h : got ++ rest = a ++ c :: b) (ha : c ∉ a) (h0 : 0 ∉ a) :
    (∃ b', got = a ++ c :: b' ∧ b = b' ++ rest ∧ strchr got c = some a.length) ∨
      ∃ a', a = got ++ a' ∧ rest = a' ++ c :: b ∧ strchr got c = none := by
  rcases List.append_eq_append_iff.1 h with ⟨a', rfl, hrest⟩ | ⟨b', rfl, hb⟩
  · exact .inr ⟨a', rfl, hrest, strchr_none fun hc => ha (List.mem_append_left _ hc)⟩
  · cases b' with
    | nil =>
      refine .inr ⟨[], by rw [List.append_nil, List.append_nil], hb.symm, ?_⟩
      rw [List.append_nil]
      exact strchr_none ha
    | cons d b' =>
      obtain ⟨rfl, rfl⟩ := List.cons.inj hb
      exact .inl ⟨b', rfl, rfl, strchr_append ha h0 b'⟩

end Strchr

/-! ## 2. Numbers -/

/-- `ULLONG_MAX`. -/
def ullongMax : Nat := 18446744073709551615

/-- `LLONG_MAX`; `LLONG_MIN` is `-llongMax - 1`. -/
def llongMax : Nat := 9223372036854775807

/-- The loop of `string2ll` over the digits behind the first; it ends with success if all bytes were used. -/
def moreDigits (v : Nat) : Sds → Option Nat
  | [] => some v
  | c :: p =>
    if 0x30 ≤ c ∧ c ≤ 0x39 then
      if v > ullongMax / 10 then none
      else if v * 10 > ullongMax - (c.toNat - 48) then none
      else moreDigits (v * 10 + (c.toNat - 48)) p
    else none

/-- What is behind the sign, if any: `slen` is the length with it. -/
def unsignedDigits (slen : Nat) : Sds → Option Nat
  | [] => none
  | c :: p =>
    if 0x31 ≤ c ∧ c ≤ 0x39 then moreDigits (c.toNat - 48) p
    else if c = 0x30 ∧ slen = 1 then some 0
    else none

/-- `string2ll`. -/
def string2ll (s : Sds) : Option Int :=
  if s = [0x30] then some 0
  else if s.head? = some 0x2D then
    (unsignedDigits s.length s.tail).bind fun v => if v > llongMax + 1 then none else some (-(v : Int))
  else (unsignedDigits s.length s).bind fun v => if v > llongMax then none else some (v : Int)

/-- The digits that `ll2string` writes from the last to the first; a number of 64 bits has at most 20. -/
def digitsLoop : Nat → Nat → Sds → Sds
  | 0, _, p => p
  | n + 1, v, p =>
    let p := UInt8.ofNat (48 + v % 10) :: p
    if v / 10 = 0 then p else digitsLoop n (v / 10) p

/-- `ll2string` into a buffer of `len` bytes. -/
def ll2string (len : Nat) (value : Int) : Sds :=
  let digits := digitsLoop 20 value.natAbs []
  (if value < 0 then 0x2D :: digits else digits).take (len - 1)

/-- The digits of a number. -/
def decimal (v : Nat) : Sds := digitsLoop 20 v []

section Numbers

theorem digitsLoop_append (n v : Nat) (p : Sds) : digitsLoop n v p = digitsLoop n v [] ++ p := by
  induction n generalizing v p with
  | zero => rfl
  | succ n ih =>
    simp only [digitsLoop]
    split
    · rfl
    · rw [ih _ (_ :: p), ih _ [_], List.append_assoc]
      rfl

/-- A round more than needed changes nothing. -/
theorem digitsLoop_succ {n v : Nat} (h : v < 10 ^ n) (hn : 0 < n) (p : Sds) :
    digitsLoop (n + 1) v p = digitsLoop n v p := by
  induction n generalizing v p with
  | zero => exact absurd hn (Nat.lt_irrefl 0)
  | succ n ih =>
    have hround : ∀ m, digitsLoop (m + 1) v p =
        if v / 10 = 0 then UInt8.ofNat (48 + v % 10) :: p
        else digitsLoop m (v / 10) (UInt8.ofNat (48 + v % 10) :: p) := fun _ => rfl
    rw [hround (n + 1), hround n]
    split
    · rfl
    · rename_i hv
      have hlow : v / 10 < 10 ^ n := by
        rw [Nat.pow_succ] at h
        omega
      refine ih hlow (Nat.pos_of_ne_zero fun h0 => ?_) _
      rw [h0, Nat.pow_zero] at hlow
      exact hv (Nat.lt_one_iff.1 hlow)

theorem decimal_lt {v : Nat} (h : v < 10) : decimal v = [UInt8.ofNat (48 + v)] := by
  rw [decimal, digitsLoop, if_pos (by omega), Nat.mod_eq_of_lt h]

theorem decimal_ge {v : Nat} (h : 10 ≤ v) (hv : v ≤ ullongMax) :
    decimal v = decimal (v / 10) ++ [UInt8.ofNat (48 + v % 10)] := by
  have hlow : v / 10 < 10 ^ 19 := by
    have : ullongMax < 10 ^ 20 := by decide
    omega
  rw [decimal, decimal, digitsLoop_succ hlow (by decide), digitsLoop, if_neg (by omega), digitsLoop_append]

theorem digit_toNat {d : Nat} (h : d < 10) : (UInt8.ofNat (48 + d)).toNat = 48 + d := by
  rw [UInt8.toNat_ofNat']
  exact Nat.mod_eq_of_lt (by omega)

theorem digit_le {d : Nat} (h : d < 10) : 0x30 ≤ UInt8.ofNat (48 + d) ∧ UInt8.ofNat (48 + d) ≤ 0x39 := by
  rw [UInt8.le_iff_toNat_le, UInt8.le_iff_toNat_le, digit_toNat h]
  have h30 : (0x30 : UInt8).toNat = 48 := rfl
  have h39 : (0x39 : UInt8).toNat = 57 := rfl
  omega

/-- Only digits are written. -/
theorem digitsLoop_digits (n v : Nat) : ∀ c ∈ digitsLoop n v [], 0x30 ≤ c ∧ c ≤ 0x39 := by
  induction n generalizing v with
  | zero => exact fun c hc => absurd hc List.not_mem_nil
  | succ n ih =>
    have hlast := digit_le (Nat.mod_lt v (by decide : 0 < 10))
    intro c hc
    rw [digitsLoop] at hc
    split at hc
    · rw [List.mem_singleton.1 hc]
      exact hlast
    · rw [digitsLoop_append] at hc
      rcases List.mem_append.1 hc with hc | hc
      · exact ih _ c hc
      · rw [List.mem_singleton.1 hc]
        exact hlast

theorem length_digitsLoop_le (n v : Nat) : (digitsLoop n v []).length ≤ n := by
  induction n generalizing v with
  | zero => exact Nat.le_refl 0
  | succ n ih =>
    rw [digitsLoop]
    split
    · exact Nat.succ_le_succ (Nat.zero_le n)
    · rw [digitsLoop_append, List.length_append]
      exact Nat.succ_le_succ (ih _)

/-- A character that is not a digit is not in a number. -/
theorem not_mem_decimal {c : UInt8} (hc : c < 0x30) (v : Nat) : c ∉ decimal v := fun hmem =>
  absurd (digitsLoop_digits 20 v c hmem).1 (UInt8.not_le.2 hc)

theorem moreDigits_snoc (v : Nat) (p : Sds) (c : UInt8) :
    moreDigits v (p ++ [c]) = (moreDigits v p).bind fun w => moreDigits w [c] := by
  induction p generalizing v with
  | nil => rfl
  | cons d p ih =>
    rw [List.cons_append, moreDigits, moreDigits]
    split
    · split
      · rfl
      · split
        · rfl
        · exact ih _
    · rfl

theorem moreDigits_digit {v d : Nat} (hd : d < 10) (hv : v * 10 + d ≤ ullongMax) :
    moreDigits v [UInt8.ofNat (48 + d)] = some (v * 10 + d) := by
  have hmax : ullongMax = 18446744073709551615 := rfl
  have hnat : (UInt8.ofNat (48 + d)).toNat - 48 = d := by
    rw [digit_toNat hd]
    omega
  rw [moreDigits, if_pos (digit_le hd), hnat, if_neg (by omega), if_neg (by omega), moreDigits]

/-- A positive number begins with a digit other than 0, and the loop over the others gives it back. -/
theorem decimal_read {v : Nat} (h1 : 1 ≤ v) (hv : v ≤ ullongMax) :
    ∃ c p, decimal v = c :: p ∧ (0x31 ≤ c ∧ c ≤ 0x39) ∧ moreDigits (c.toNat - 48) p = some v := by
  induction v using Nat.strong_induction_on with
  | _ v ih =>
    by_cases h10 : v < 10
    · refine ⟨UInt8.ofNat (48 + v), [], decimal_lt h10, ⟨?_, (digit_le h10).2⟩, ?_⟩
      · rw [UInt8.le_iff_toNat_le, digit_toNat h10]
        have h31 : (0x31 : UInt8).toNat = 49 := rfl
        omega
      · rw [moreDigits, digit_toNat h10, Nat.add_sub_cancel_left]
    · obtain ⟨c, p, hdec, hc, hmore⟩ := ih (v / 10) (by omega) (by omega) (by omega)
      refine ⟨c, p ++ [UInt8.ofNat (48 + v % 10)], ?_, hc, ?_⟩
      · rw [decimal_ge (by omega) hv, hdec, List.cons_append]
      · rw [moreDigits_snoc, hmore, Option.bind_some, moreDigits_digit (Nat.mod_lt v (by decide)) (by omega)]
        congr 1
        omega

theorem unsignedDigits_decimal {v : Nat} (h1 : 1 ≤ v) (hv : v ≤ ullongMax) (slen : Nat) :
    unsignedDigits slen (decimal v) = some v := by
  obtain ⟨c, p, hdec, hc, hmore⟩ := decimal_read h1 hv
  rw [hdec, unsignedDigits, if_pos hc, hmore]

/-- The first digit is not a sign. -/
theorem decimal_head (v : Nat) : (decimal v).head? ≠ some 0x2D := fun hhead =>
  not_mem_decimal (by decide) v (List.mem_of_mem_head? hhead)

theorem decimal_ne_zero {v : Nat} (h1 : 1 ≤ v) (hv : v ≤ ullongMax) : decimal v ≠ [0x30] := by
  obtain ⟨c, p, hdec, hc, -⟩ := decimal_read h1 hv
  rw [hdec]
  intro h
  rw [(List.cons.inj h).1] at hc
  exact absurd hc.1 (by decide)

theorem string2ll_decimal {v : Nat} (hv : v ≤ llongMax) : string2ll (decimal v) = some (v : Int) := by
  have hmax : llongMax ≤ ullongMax := by decide
  rcases Nat.eq_zero_or_pos v with rfl | h1
  · rfl
  · rw [string2ll, if_neg (decimal_ne_zero h1 (hv.trans hmax)), if_neg (decimal_head v),
      unsignedDigits_decimal h1 (hv.trans hmax), Option.bind_some, if_neg (by omega)]

theorem string2ll_negative {v : Nat} (h1 : 1 ≤ v) (hv : v ≤ llongMax + 1) :
    string2ll (0x2D :: decimal v) = some (-(v : Int)) := by
  have hmax : llongMax + 1 ≤ ullongMax := by decide
  have hzero : (0x2D :: decimal v : Sds) ≠ [0x30] := fun h => absurd (List.cons.inj h).1 (by decide)
  rw [string2ll, if_neg hzero, List.head?_cons, if_pos rfl, List.tail_cons, unsignedDigits_decimal h1 (hv.trans hmax),
    Option.bind_some, if_neg (by omega)]

theorem ll2string_decimal {len : Nat} (hlen : 22 ≤ len) (v : Nat) : ll2string len v = decimal v := by
  have hshort := length_digitsLoop_le 20 v
  unfold ll2string
  simp only [Int.natAbs_natCast]
  rw [if_neg (by omega), List.take_of_length_le (by omega), decimal]

theorem ll2string_negative {len : Nat} (hlen : 22 ≤ len) {v : Nat} (h1 : 1 ≤ v) :
    ll2string len (-(v : Int)) = 0x2D :: decimal v := by
  have hshort := length_digitsLoop_le 20 v
  unfold ll2string
  simp only [Int.natAbs_neg, Int.natAbs_natCast]
  rw [if_pos (by omega), List.take_of_length_le (by rw [List.length_cons]; omega), decimal]

/-- Every number of 64 bits comes back. -/
theorem string2ll_ll2string {len : Nat} (hlen : 22 ≤ len) {value : Int} (hlow : -(llongMax : Int) - 1 ≤ value)
    (hhigh : value ≤ llongMax) : string2ll (ll2string len value) = some value := by
  obtain ⟨v, rfl | rfl⟩ := Int.eq_nat_or_neg value
  · rw [ll2string_decimal hlen]
    exact string2ll_decimal (by omega)
  rcases Nat.eq_zero_or_pos v with rfl | h1
  · exact (congrArg string2ll (ll2string_decimal hlen 0)).trans (string2ll_decimal (Nat.zero_le _))
  · rw [ll2string_negative hlen h1]
    exact string2ll_negative h1 (by omega)

/-- What the loop over the digits has read it writes. -/
theorem decimal_of_moreDigits {v w : Nat} {p : Sds} (h1 : 1 ≤ v) (h : moreDigits v p = some w) :
    v ≤ w ∧ (w ≤ ullongMax → decimal w = decimal v ++ p) := by
  induction p generalizing v with
  | nil =>
    cases h
    exact ⟨le_refl _, fun _ => (List.append_nil _).symm⟩
  | cons c p ih =>
    rw [moreDigits, Option.ite_none_right_eq_some, Option.ite_none_left_eq_some, Option.ite_none_left_eq_some] at h
    obtain ⟨⟨hlow, hhigh⟩, -, -, h⟩ := h
    rw [UInt8.le_iff_toNat_le] at hlow hhigh
    have h30 : (0x30 : UInt8).toNat = 48 := rfl
    have h39 : (0x39 : UInt8).toNat = 57 := rfl
    obtain ⟨hle, hdec⟩ := ih (by omega) h
    refine ⟨by omega, fun hw => ?_⟩
    have hdigit : UInt8.ofNat (48 + (v * 10 + (c.toNat - 48)) % 10) = c := by
      rw [show 48 + (v * 10 + (c.toNat - 48)) % 10 = c.toNat by omega, UInt8.ofNat_toNat]
    rw [hdec hw, decimal_ge (by omega) (by omega), hdigit, show (v * 10 + (c.toNat - 48)) / 10 = v by omega,
      List.append_assoc, List.singleton_append]

/-- The digits behind the sign, if any, are those of the number. -/
theorem decimal_of_unsignedDigits {slen v : Nat} {p : Sds} (h : unsignedDigits slen p = some v) (hv : v ≤ ullongMax)
    (hzero : p.head? = some 0x30 → slen ≠ 1) : 1 ≤ v ∧ p = decimal v := by
  cases p with
  | nil => cases h
  | cons c p =>
    rw [unsignedDigits] at h
    split at h
    · rename_i hc
      rw [UInt8.le_iff_toNat_le, UInt8.le_iff_toNat_le] at hc
      have h31 : (0x31 : UInt8).toNat = 49 := rfl
      have h39 : (0x39 : UInt8).toNat = 57 := rfl
      obtain ⟨hle, hdec⟩ := decimal_of_moreDigits (by omega) h
      refine ⟨by omega, ?_⟩
      rw [hdec hv, decimal_lt (by omega), show 48 + (c.toNat - 48) = c.toNat by omega, UInt8.ofNat_toNat,
        List.singleton_append]
    · rw [Option.ite_none_right_eq_some] at h
      obtain ⟨⟨rfl, hslen⟩, -⟩ := h
      exact absurd hslen (hzero rfl)

/-- **`string2ll` takes exactly what `ll2string` writes**: every number of 64 bits comes back, and no other text is
    taken for a number -- no blanks, no sign plus, no zeros in front, nothing beyond the 64 bits. -/
theorem string2ll_iff {len : Nat} (hlen : 22 ≤ len) (s : Sds) (value : Int) :
    string2ll s = some value ↔ (-(llongMax : Int) - 1 ≤ value ∧ value ≤ llongMax) ∧ s = ll2string len value := by
  constructor
  · intro h
    have hmax : llongMax + 1 ≤ ullongMax := by decide
    have hwrite : ∀ v : Nat, ll2string len v = decimal v := ll2string_decimal hlen
    unfold string2ll at h
    split at h
    · rename_i hs
      cases h
      exact ⟨⟨by decide, by decide⟩, hs.trans (hwrite 0).symm⟩
    rename_i hzero
    split at h
    · rename_i hminus
      obtain ⟨v, hv, h⟩ := Option.bind_eq_some_iff.1 h
      obtain ⟨hle, h⟩ := Option.ite_none_left_eq_some.1 h
      cases h
      cases s with
      | nil => cases hminus
      | cons c p =>
        cases hminus
        obtain ⟨h1, rfl⟩ := decimal_of_unsignedDigits hv (by omega) fun hhead hslen => by
          rw [List.length_cons, Nat.add_eq_right, List.length_eq_zero_iff] at hslen
          rw [List.tail_cons, hslen] at hhead
          cases hhead
        refine ⟨⟨by omega, by omega⟩, ?_⟩
        exact (ll2string_negative hlen h1).symm
    · obtain ⟨v, hv, h⟩ := Option.bind_eq_some_iff.1 h
      obtain ⟨hle, h⟩ := Option.ite_none_left_eq_some.1 h
      cases h
      obtain ⟨-, rfl⟩ := decimal_of_unsignedDigits hv (by omega) fun hhead hslen => by
        obtain ⟨c, rfl⟩ := List.length_eq_one_iff.1 hslen
        cases hhead
        exact hzero rfl
      exact ⟨⟨by omega, by omega⟩, (hwrite v).symm⟩
  · intro h
    obtain ⟨⟨hlow, hhigh⟩, rfl⟩ := h
    exact string2ll_ll2string hlen hlow hhigh

/-- The smallest number. -/
theorem string2ll_iff_min : string2ll (chars "-9223372036854775808") = some (-9223372036854775808) ∧
    string2ll (chars "-9223372036854775809") = none := by
  refine ⟨(string2ll_iff (le_refl 22) _ _).2 ⟨⟨by decide, by decide⟩, by decide⟩, by decide⟩

end Numbers

/-! ## 3. Lines of arguments -/

/-- `isspace` in the C locale. -/
def isSpace (c : UInt8) : Bool := c == 0x20 || (decide (0x09 ≤ c) && decide (c ≤ 0x0D))

/-- `isprint` in the C locale. -/
def isPrint (c : UInt8) : Bool := decide (0x20 ≤ c) && decide (c ≤ 0x7E)

/-- `is_hex_digit`. -/
def isHexDigit (c : UInt8) : Bool :=
  (decide (0x30 ≤ c) && decide (c ≤ 0x39)) || (decide (0x61 ≤ c) && decide (c ≤ 0x66)) ||
    (decide (0x41 ≤ c) && decide (c ≤ 0x46))

/-- `hex_digit_to_int`. -/
def hexDigitToInt (c : UInt8) : UInt8 :=
  if 0x30 ≤ c ∧ c ≤ 0x39 then c - 0x30
  else if 0x61 ≤ c ∧ c ≤ 0x66 then c - 0x57
  else if 0x41 ≤ c ∧ c ≤ 0x46 then c - 0x37
  else 0

/-- The `switch` behind a backslash. -/
def unescape (c : UInt8) : UInt8 :=
  if c = 0x6E then 0x0A
  else if c = 0x72 then 0x0D
  else if c = 0x74 then 0x09
  else if c = 0x62 then 0x08
  else if c = 0x61 then 0x07
  else c

/-- `inq` and `insq`. -/
inductive Quotes where
  | none
  | double
  | single
  deriving DecidableEq

/-- What must stand behind a closing quote. -/
def closes : Sds → Bool
  | [] => true
  | c :: _ => isSpace c

/-- The loop over a token: the token, and what is behind it; `none` is `goto err`. The line ends where the list
    does. -/
def getToken : Quotes → Sds → Sds → Option (Sds × Sds)
  | .none, current, [] => some (current, [])
  | .double, _, [] => none
  | .single, _, [] => none
  | .none, current, c :: p =>
    if c = 0x20 ∨ c = 0x0A ∨ c = 0x0D ∨ c = 0x09 then some (current, p)
    else if c = 0x22 then getToken .double current p
    else if c = 0x27 then getToken .single current p
    else getToken .none (current ++ [c]) p
  | .double, current, c :: p =>
    if c = 0x5C then
      match p with
      | e :: a :: b :: q =>
        if e = 0x78 ∧ isHexDigit a = true ∧ isHexDigit b = true then
          getToken .double (current ++ [hexDigitToInt a * 16 + hexDigitToInt b]) q
        else getToken .double (current ++ [unescape e]) (a :: b :: q)
      | [e, a] => getToken .double (current ++ [unescape e]) [a]
      -- the line ends, the quotes are not closed
      | _ => none
    else if c = 0x22 then if closes p then some (current, p) else none
    else getToken .double (current ++ [c]) p
  | .single, current, c :: p =>
    if c = 0x5C then
      match p with
      | [] => none
      | e :: q => if e = 0x27 then getToken .single (current ++ [e]) q else getToken .single (current ++ [c]) (e :: q)
    else if c = 0x27 then if closes p then some (current, p) else none
    else getToken .single (current ++ [c]) p

/-- A round of the loop over the line: `vector` and `p`. -/
def splitStep : List Sds × Sds → Option (List Sds) ⊕ (List Sds × Sds)
  | (vector, p) =>
    match p.dropWhile isSpace with
    | [] => .inl (some vector)
    | c :: q =>
      match getToken .none [] (c :: q) with
      | none => .inl none
      | some (token, rest) => .inr (vector ++ [token], rest)

/-- `sdssplitargs`: a C string. -/
def sdssplitargs (line : Sds) : Option (List Sds) :=
  let p := line.takeWhile (· != 0)
  loop splitStep (fun s => some s.1) (p.length + 1) ([], p)

/-- A digit of `%02x`. -/
def hexChar (n : UInt8) : UInt8 := if n < 10 then 0x30 + n else 0x57 + n

/-- What `sdscatrepr` writes for a byte. -/
def reprByte (c : UInt8) : Sds :=
  if c = 0x5C ∨ c = 0x22 then [0x5C, c]
  else if c = 0x0A then chars "\\n"
  else if c = 0x0D then chars "\\r"
  else if c = 0x09 then chars "\\t"
  else if c = 0x07 then chars "\\a"
  else if c = 0x08 then chars "\\b"
  else if isPrint c then [c]
  else [0x5C, 0x78, hexChar (c / 16), hexChar (c % 16)]

/-- `sdscatrepr`. -/
def sdscatrepr (s p : Sds) : Sds := s ++ [0x22] ++ p.flatMap reprByte ++ [0x22]

section Repr

/-- What is checked for all bytes. -/
theorem forall_byte {q : UInt8 → Bool} (h : (List.range 256).all (fun n => q (UInt8.ofNat n)) = true) (c : UInt8) :
    q c = true := by
  have hc := List.all_eq_true.1 h c.toNat (List.mem_range.2 c.toNat_lt)
  rwa [UInt8.ofNat_toNat] at hc

/-- The two digits of `%02x` are read back. -/
theorem hexChar_read (c : UInt8) : isHexDigit (hexChar (c / 16)) = true ∧ isHexDigit (hexChar (c % 16)) = true ∧
    hexDigitToInt (hexChar (c / 16)) * 16 + hexDigitToInt (hexChar (c % 16)) = c := by
  have h := forall_byte (q := fun c => isHexDigit (hexChar (c / 16)) && isHexDigit (hexChar (c % 16)) &&
    (hexDigitToInt (hexChar (c / 16)) * 16 + hexDigitToInt (hexChar (c % 16)) == c)) (by decide +kernel) c
  simpa [and_assoc] using h

/-- A backslash and a character that is not the x of two hexadecimal digits. -/
theorem getToken_escape {e : UInt8} (he : e ≠ 0x78) (current p : Sds) (hp : p ≠ []) :
    getToken .double current (0x5C :: e :: p) = getToken .double (current ++ [unescape e]) p := by
  rcases p with _ | ⟨a, _ | ⟨b, p⟩⟩
  · exact absurd rfl hp
  · rfl
  · rw [getToken, if_pos rfl]
    exact if_neg fun h => he h.1

theorem getToken_double {c : UInt8} (hc : c ≠ 0x5C) (current p : Sds) :
    getToken .double current (c :: p) =
      if c = 0x22 then if closes p then some (current, p) else none else getToken .double (current ++ [c]) p := by
  rcases p with _ | ⟨e, _ | ⟨a, _ | ⟨b, p⟩⟩⟩ <;> exact if_neg hc

/-- **A byte, written and read inside double quotes.** -/
theorem getToken_reprByte (c : UInt8) (current : Sds) {p : Sds} (hp : p ≠ []) :
    getToken .double current (reprByte c ++ p) = getToken .double (current ++ [c]) p := by
  have hescape : ∀ e, e ≠ 0x78 → unescape e = c →
      getToken .double current ([0x5C, e] ++ p) = getToken .double (current ++ [c]) p := by
    rintro e he rfl
    exact getToken_escape he current p hp
  unfold reprByte
  split
  · rename_i h
    rcases h with rfl | rfl <;> exact hescape _ (by decide) rfl
  split
  · rename_i h
    exact hescape 0x6E (by decide) h.symm
  split
  · rename_i h
    exact hescape 0x72 (by decide) h.symm
  split
  · rename_i h
    exact hescape 0x74 (by decide) h.symm
  split
  · rename_i h
    exact hescape 0x61 (by decide) h.symm
  split
  · rename_i h
    exact hescape 0x62 (by decide) h.symm
  split
  · rename_i h _ _ _ _ _ _
    rw [not_or] at h
    rw [List.singleton_append, getToken_double h.1, if_neg h.2]
  · obtain ⟨ha, hb, hc⟩ := hexChar_read c
    rw [List.cons_append, List.cons_append, List.cons_append, List.cons_append, List.nil_append, getToken, if_pos rfl]
    simp only [ha, hb, hc, and_self, if_true]

/-- **An argument in quotes is one token**, if a blank or nothing stands behind it. -/
theorem getToken_repr (arg : Sds) {rest : Sds} (hrest : closes rest = true) :
    getToken .none [] (sdscatrepr [] arg ++ rest) = some (arg, rest) := by
  have hbody : ∀ current, getToken .double current (arg.flatMap reprByte ++ 0x22 :: rest) =
    some (current ++ arg, rest) := by
    induction arg with
    | nil =>
      intro current
      rw [List.flatMap_nil, List.nil_append, List.append_nil, getToken_double (by decide), if_pos rfl, if_pos hrest]
    | cons c arg ih =>
      intro current
      rw [List.flatMap_cons, List.append_assoc, getToken_reprByte _ _ (by simp), ih, List.append_assoc]
      rfl
  have hline : sdscatrepr [] arg ++ rest = 0x22 :: (arg.flatMap reprByte ++ 0x22 :: rest) := by
    simp [sdscatrepr]
  rw [hline, getToken, if_neg (by decide), if_pos rfl, hbody, List.nil_append]

/-- Blanks only. -/
def Blanks (s : Sds) : Prop := ∀ c ∈ s, isSpace c = true

/-- Arguments, each with the blanks behind it: none but the last may be followed by nothing. -/
def Separated : List (Sds × Sds) → Prop
  | [] => True
  | [x] => Blanks x.2
  | x :: y :: args => Blanks x.2 ∧ x.2 ≠ [] ∧ Separated (y :: args)

/-- The line they make. -/
def reprLine (args : List (Sds × Sds)) : Sds := args.flatMap fun x => sdscatrepr [] x.1 ++ x.2

theorem Separated.blanks {x : Sds × Sds} {args : List (Sds × Sds)} (h : Separated (x :: args)) : Blanks x.2 := by
  cases args with
  | nil => exact h
  | cons y args => exact h.1

theorem Separated.tail {x : Sds × Sds} {args : List (Sds × Sds)} (h : Separated (x :: args)) : Separated args := by
  cases args with
  | nil => exact trivial
  | cons y args => exact h.2.2

/-- Behind an argument stands a blank, or the line ends. -/
theorem Separated.closes {x : Sds × Sds} {args : List (Sds × Sds)} (h : Separated (x :: args)) :
    closes (x.2 ++ reprLine args) = true := by
  cases hx : x.2 with
  | nil =>
    cases args with
    | nil => rfl
    | cons y args => exact absurd hx h.2.1
  | cons c blanks => exact h.blanks c (by rw [hx]; exact List.mem_cons_self)

/-- The blanks in front of an argument are skipped. -/
theorem splitStep_arg (vector : List Sds) {lead : Sds} (hlead : Blanks lead) {x : Sds × Sds} {args : List (Sds × Sds)}
    (h : Separated (x :: args)) :
    splitStep (vector, lead ++ reprLine (x :: args)) = .inr (vector ++ [x.1], x.2 ++ reprLine args) := by
  have htoken := getToken_repr x.1 h.closes
  have hline : reprLine (x :: args) = 0x22 :: (x.1.flatMap reprByte ++ [0x22] ++ (x.2 ++ reprLine args)) := by
    simp [reprLine, sdscatrepr]
  have hskip : (lead ++ reprLine (x :: args)).dropWhile isSpace = reprLine (x :: args) := by
    rw [List.dropWhile_append_of_pos hlead, hline, List.dropWhile_cons_of_neg (by decide)]
  have hsame : reprLine (x :: args) = sdscatrepr [] x.1 ++ (x.2 ++ reprLine args) := by
    rw [reprLine, List.flatMap_cons, List.append_assoc]
    rfl
  rw [← hsame] at htoken
  rw [splitStep, hskip]
  rw [hline] at htoken ⊢
  simp only [htoken]

theorem split_reprLine (args : List (Sds × Sds)) (vector : List Sds) {lead : Sds} (hlead : Blanks lead)
    (h : Separated args) {n : Nat} (hn : (lead ++ reprLine args).length < n) :
    loop splitStep (fun s => some s.1) n (vector, lead ++ reprLine args) = some (vector ++ args.map Prod.fst) := by
  induction args generalizing vector lead n with
  | nil =>
    obtain ⟨n, rfl⟩ : ∃ m, n = m + 1 := ⟨n - 1, by omega⟩
    have hskip : lead.dropWhile isSpace = [] := List.dropWhile_eq_nil_iff.2 hlead
    have hstop : splitStep (vector, lead ++ reprLine []) = .inl (some vector) := by
      rw [reprLine, List.flatMap_nil, List.append_nil, splitStep, hskip]
    rw [loop_stop n hstop, List.map_nil, List.append_nil]
  | cons x args ih =>
    obtain ⟨n, rfl⟩ : ∃ m, n = m + 1 := ⟨n - 1, by omega⟩
    have hshort : (x.2 ++ reprLine args).length < n := by
      have hlen : (reprLine (x :: args)).length = (sdscatrepr [] x.1).length + (x.2 ++ reprLine args).length := by
        simp [reprLine]
      have hquotes : 0 < (sdscatrepr [] x.1).length := by simp [sdscatrepr]
      rw [List.length_append, hlen] at hn
      omega
    rw [loop_more n (splitStep_arg vector hlead h), ih _ h.blanks h.tail hshort, List.map_cons, List.append_assoc]
    rfl

theorem reprByte_ne_zero (c : UInt8) : (reprByte c).all (· != 0) = true :=
  forall_byte (q := fun c => (reprByte c).all (· != 0)) (by decide +kernel) c

theorem isSpace_ne_zero {c : UInt8} (h : isSpace c = true) : c ≠ 0 := fun h0 => by
  rw [h0] at h
  exact absurd h (by decide)

/-- No NUL is written. -/
theorem reprLine_ne_zero {args : List (Sds × Sds)} (h : Separated args) : ∀ c ∈ reprLine args, (c != 0) = true := by
  induction args with
  | nil => exact fun c hc => absurd hc List.not_mem_nil
  | cons x args ih =>
    intro c hc
    rw [reprLine, List.flatMap_cons, List.append_assoc] at hc
    rcases List.mem_append.1 hc with hc | hc
    · have hrepr : sdscatrepr [] x.1 = 0x22 :: (x.1.flatMap reprByte ++ [0x22]) := rfl
      rw [hrepr, List.mem_cons, List.mem_append, List.mem_flatMap, List.mem_singleton] at hc
      rcases hc with rfl | ⟨d, -, hd⟩ | rfl
      · decide
      · exact List.all_eq_true.1 (reprByte_ne_zero d) c hd
      · decide
    · rcases List.mem_append.1 hc with hc | hc
      · exact bne_iff_ne.2 (isSpace_ne_zero (h.blanks c hc))
      · exact ih h.tail c hc

/-- **Arguments written by `sdscatrepr` are read back by `sdssplitargs`**: any number of them, of any bytes, with any
    blanks in front, between and behind. -/
theorem sdssplitargs_sdscatrepr (lead : Sds) (args : List (Sds × Sds)) (hlead : Blanks lead) (hargs : Separated args) :
    sdssplitargs (lead ++ reprLine args) = some (args.map Prod.fst) := by
  have hall : ((lead ++ reprLine args).takeWhile (· != 0)) = lead ++ reprLine args := by
    refine List.takeWhile_eq_self_iff.2 fun c hc => ?_
    rcases List.mem_append.1 hc with hc | hc
    · exact bne_iff_ne.2 (isSpace_ne_zero (hlead c hc))
    · exact reprLine_ne_zero hargs c hc
  rw [sdssplitargs, hall]
  exact split_reprLine args [] hlead hargs (Nat.lt_succ_self _)

/-- A NUL and a byte above 127, an empty argument and one with a blank and a quote. -/
theorem sdssplitargs_sdscatrepr_binary :
    sdssplitargs (chars " \"\\x00\\xff\" \"\"\t\"a \\\"\"") = some [[0x00, 0xFF], [], [0x61, 0x20, 0x22]] := by
  have hblank : ∀ {c : UInt8}, isSpace c = true → Blanks [c] := fun h d hd => by
    rw [List.mem_singleton.1 hd]
    exact h
  exact sdssplitargs_sdscatrepr [0x20] [([0x00, 0xFF], [0x20]), ([], [0x09]), ([0x61, 0x20, 0x22], [])] (hblank rfl)
    ⟨hblank rfl, List.cons_ne_nil _ _, hblank rfl, List.cons_ne_nil _ _, fun c hc => absurd hc List.not_mem_nil⟩

end Repr

end SmartHome.Redis
