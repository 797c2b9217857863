/-
  Subject:   STRINGS OF C in memory, and what the functions of <string.h> read of it. Nothing here names a
             program.

  A search goes from an address upwards until a byte ends it. What it finds is `span`, what it reads on the
  way `spanReads`.

  * `strnlen`, `strlen`, `strchr`, `strcasecmp`, `strcpy` -- the functions, each with its `…Reads`;
  * `CStrAt mem i s` -- at `i` stands the string `s`, terminated; `CStrAt.drop`, `CStrAt.cut` -- its ends, and
    its two parts when a byte of it is made the terminator;
  * `CStrAt.strlen_eq`, `CStrAt.strchr_eq`, `CStrAt.strcasecmp_iff`, `CStrAt.strcpy_eq` -- what the functions do
    at such an address, `CStrAt.reads` -- and that they stay inside.
-/
import Mathlib.Data.List.TakeWhile
import Mathlib.Data.UInt
import Mathlib.Logic.Function.Basic

namespace SmartHome.Lib

/-- The bytes by address, counted from some array. -/
abbrev Memory := Int → UInt8

/-! ## 1. Searches -/

section Span

variable (stop : UInt8 → Bool) (mem : Memory)

/-- The number of bytes from `i` on before the first that ends the search; `limit` at most. -/
def span : Nat → Int → Nat
  | 0, _ => 0
  | limit + 1, i => if stop (mem i) then 0 else span limit (i + 1) + 1

/-- The addresses such a search reads. -/
def spanReads : Nat → Int → List Int
  | 0, _ => []
  | limit + 1, i => i :: if stop (mem i) then [] else spanReads limit (i + 1)

/-- The `n` bytes from `i` on. -/
def bytesFrom : Nat → Int → List UInt8
  | 0, _ => []
  | n + 1, i => mem i :: bytesFrom n (i + 1)

variable {stop mem}

@[simp] theorem length_bytesFrom (n : Nat) (i : Int) : (bytesFrom mem n i).length = n := by
  induction n generalizing i with
  | zero => rfl
  | succ n ih => rw [bytesFrom, List.length_cons, ih]

theorem bytesFrom_add (m n : Nat) (i : Int) :
    bytesFrom mem (m + n) i = bytesFrom mem m i ++ bytesFrom mem n (i + m) := by
  induction m generalizing i with
  | zero =>
    rw [Nat.zero_add, Int.natCast_zero, Int.add_zero]
    rfl
  | succ m ih =>
    rw [Nat.succ_add, bytesFrom, bytesFrom, ih, Int.natCast_add, Int.natCast_one, Int.add_comm (m : Int),
      ← Int.add_assoc]
    rfl

theorem bytesFrom_congr {mem' : Memory} {n : Nat} {i : Int} (h : ∀ x, i ≤ x → x < i + n → mem x = mem' x) :
    bytesFrom mem n i = bytesFrom mem' n i := by
  induction n generalizing i with
  | zero => rfl
  | succ n ih => rw [bytesFrom, bytesFrom, h i (by omega) (by omega), ih fun x h₁ h₂ => h x (by omega) (by omega)]

/-- A search finds what `takeWhile` does. -/
theorem bytesFrom_span (limit : Nat) (i : Int) :
    bytesFrom mem (span stop mem limit i) i = (bytesFrom mem limit i).takeWhile fun b => !stop b := by
  induction limit generalizing i with
  | zero => rfl
  | succ limit ih =>
    rw [span, bytesFrom]
    by_cases h : stop (mem i) = true
    · rw [if_pos h, List.takeWhile_cons_of_neg (by simp [h])]
      rfl
    · rw [if_neg h, List.takeWhile_cons_of_pos (by simp [h]), bytesFrom, ih]

theorem getElem?_bytesFrom {n k : Nat} (h : k < n) (i : Int) : (bytesFrom mem n i)[k]? = some (mem (i + k)) := by
  induction n generalizing i k with
  | zero => exact absurd h (Nat.not_lt_zero k)
  | succ n ih =>
    cases k with
    | zero => rw [bytesFrom, List.getElem?_cons_zero, Int.natCast_zero, Int.add_zero]
    | succ k => rw [bytesFrom, List.getElem?_cons_succ, ih (by omega), Int.natCast_add, Int.natCast_one,
        Int.add_comm (k : Int), ← Int.add_assoc]

theorem mem_spanReads {limit : Nat} {i x : Int} (h : x ∈ spanReads stop mem limit i) :
    i ≤ x ∧ x ≤ i + span stop mem limit i ∧ x < i + limit := by
  induction limit generalizing i with
  | zero => exact absurd h List.not_mem_nil
  | succ limit ih =>
    rw [spanReads] at h
    rw [span]
    by_cases hs : stop (mem i) = true
    · rw [if_pos hs] at h ⊢
      rw [List.mem_singleton] at h
      omega
    · rw [if_neg hs] at h ⊢
      rcases List.mem_cons.1 h with rfl | h
      · omega
      · have := ih h
        omega

end Span

/-! ## 2. <string.h> -/

/-- Addresses have sixteen bits: no search is longer. -/
def addressSpace : Nat := 65536

def isNul (b : UInt8) : Bool := b == 0

/-- `strnlen`. -/
def strnlen (mem : Memory) (i : Int) (maxlen : Nat) : Nat := span isNul mem maxlen i

def strnlenReads (mem : Memory) (i : Int) (maxlen : Nat) : List Int := spanReads isNul mem maxlen i

/-- `strlen`. -/
def strlen (mem : Memory) (i : Int) : Nat := span isNul mem addressSpace i

def strlenReads (mem : Memory) (i : Int) : List Int := spanReads isNul mem addressSpace i

/-- `strchr` of a character other than NUL. -/
def strchr (mem : Memory) (i : Int) (c : UInt8) : Option Int :=
  let p := i + span (fun b => b == c || isNul b) mem addressSpace i
  if mem p = c then some p else none

def strchrReads (mem : Memory) (i : Int) (c : UInt8) : List Int :=
  spanReads (fun b => b == c || isNul b) mem addressSpace i

/-- `tolower`. -/
def tolower (c : UInt8) : UInt8 := if 65 ≤ c ∧ c ≤ 90 then c + 32 else c

/-- `strcasecmp(s, i) == 0`: character by character, until they differ or both end. -/
def strcasecmp (mem : Memory) : List UInt8 → Int → Bool
  | [], i => mem i == 0
  | c :: s, i => tolower (mem i) == tolower c && strcasecmp mem s (i + 1)

def strcasecmpReads (mem : Memory) : List UInt8 → Int → List Int
  | [], i => [i]
  | c :: s, i => i :: if tolower (mem i) = tolower c then strcasecmpReads mem s (i + 1) else []

/-- What `strcpy` writes, from the first byte of its target on; it reads what `strlen` does. -/
def strcpy (mem : Memory) (i : Int) : List UInt8 := bytesFrom mem (strlen mem i + 1) i

/-! ## 3. Where a string stands -/

/-- At `i` stands `s`, with a NUL behind it and none in it. -/
def CStrAt (mem : Memory) : Int → List UInt8 → Prop
  | i, [] => mem i = 0
  | i, c :: s => mem i = c ∧ c ≠ 0 ∧ CStrAt mem (i + 1) s

section CStrAt

variable {mem : Memory} {i : Int} {s : List UInt8}

theorem cStrAt_iff : CStrAt mem i s ↔ bytesFrom mem (s.length + 1) i = s ++ [0] ∧ 0 ∉ s := by
  induction s generalizing i with
  | nil => simp [CStrAt, bytesFrom]
  | cons c s ih =>
    have hb : bytesFrom mem (s.length + 1 + 1) i = mem i :: bytesFrom mem (s.length + 1) (i + 1) := rfl
    rw [CStrAt, ih, List.length_cons, hb, List.cons_append, List.cons.injEq, List.mem_cons, not_or]
    constructor
    · rintro ⟨hc, hne, hs, h0⟩
      exact ⟨⟨hc, hs⟩, hne.symm, h0⟩
    · rintro ⟨⟨hc, hs⟩, hne, h0⟩
      exact ⟨hc, fun h => hne h.symm, hs, h0⟩

/-- A search for NUL that succeeds has passed a string. -/
theorem cStrAt_span {limit : Nat} (h : span isNul mem limit i < limit) :
    CStrAt mem i (bytesFrom mem (span isNul mem limit i) i) := by
  induction limit generalizing i with
  | zero => exact absurd h (Nat.not_lt_zero _)
  | succ limit ih =>
    rw [span] at h ⊢
    by_cases h0 : isNul (mem i) = true
    · rw [if_pos h0]
      exact beq_iff_eq.1 h0
    · rw [if_neg h0] at h ⊢
      exact ⟨rfl, fun hz => h0 (beq_iff_eq.2 hz), ih (by omega)⟩

/-- A search that NUL ends, and no character of the string does. -/
theorem CStrAt.span_eq {stop : UInt8 → Bool} (h : CStrAt mem i s) (h0 : stop 0 = true)
    {limit : Nat} (hl : s.length < limit) :
    span stop mem limit i = (s.takeWhile fun b => !stop b).length := by
  induction s generalizing i limit with
  | nil =>
    obtain ⟨limit, rfl⟩ : ∃ k, limit = k + 1 := ⟨limit - 1, by omega⟩
    have hi : mem i = 0 := h
    rw [span, hi, if_pos h0]
    rfl
  | cons c s ih =>
    obtain ⟨limit, rfl⟩ : ∃ k, limit = k + 1 := ⟨limit - 1, by omega⟩
    obtain ⟨hc, -, hs⟩ := h
    rw [span, hc]
    by_cases hstop : stop c = true
    · rw [if_pos hstop, List.takeWhile_cons_of_neg (by simp [hstop])]
      rfl
    · rw [if_neg hstop, List.takeWhile_cons_of_pos (by simp [hstop]), List.length_cons,
        ih hs (by rw [List.length_cons] at hl; omega)]

theorem CStrAt.takeWhile (h : CStrAt mem i s) : (s.takeWhile fun b => !isNul b) = s := by
  refine List.takeWhile_eq_self_iff.2 fun b hb => ?_
  have hne : b ≠ 0 := fun h0 => (cStrAt_iff.1 h).2 (h0 ▸ hb)
  simp [isNul, hne]

theorem CStrAt.strnlen_eq (h : CStrAt mem i s) {maxlen : Nat} (hl : s.length < maxlen) :
    strnlen mem i maxlen = s.length := by
  rw [strnlen, h.span_eq rfl hl, h.takeWhile]

theorem CStrAt.strlen_eq (h : CStrAt mem i s) (hl : s.length < addressSpace) : strlen mem i = s.length :=
  h.strnlen_eq hl

theorem CStrAt.strcpy_eq (h : CStrAt mem i s) (hl : s.length < addressSpace) : strcpy mem i = s ++ [0] := by
  rw [strcpy, h.strlen_eq hl, (cStrAt_iff.1 h).1]

/-- A search that NUL ends reads the string and its terminator at most. -/
theorem CStrAt.reads {stop : UInt8 → Bool} (h : CStrAt mem i s) (h0 : stop 0 = true)
    {limit : Nat} (hl : s.length < limit)
    {x : Int} (hx : x ∈ spanReads stop mem limit i) : i ≤ x ∧ x ≤ i + s.length := by
  have hr := mem_spanReads hx
  rw [h.span_eq h0 hl] at hr
  have := (List.takeWhile_prefix (l := s) fun b => !stop b).length_le
  omega

/-- The end of a string is a string. -/
theorem CStrAt.append {a b : List UInt8} (h : CStrAt mem i (a ++ b)) : CStrAt mem (i + a.length) b := by
  induction a generalizing i with
  | nil =>
    rw [List.length_nil, Int.natCast_zero, Int.add_zero]
    exact h
  | cons c a ih =>
    have := ih h.2.2
    rw [List.length_cons, Int.natCast_add, Int.natCast_one, Int.add_comm (a.length : Int), ← Int.add_assoc]
    exact this

theorem cStrAt_update {x : Int} {v : UInt8} (hx : x < i ∨ i + s.length < x) :
    CStrAt (Function.update mem x v) i s ↔ CStrAt mem i s := by
  induction s generalizing i with
  | nil =>
    rw [CStrAt, CStrAt, Function.update_of_ne]
    rw [List.length_nil] at hx
    omega
  | cons c s ih =>
    rw [List.length_cons] at hx
    rw [CStrAt, CStrAt, Function.update_of_ne (by omega), ih (by omega)]

/-- A character of the string made its terminator: what stood before it. -/
theorem CStrAt.cut {a b : List UInt8} (h : CStrAt mem i (a ++ b)) :
    CStrAt (Function.update mem (i + a.length) 0) i a := by
  induction a generalizing i with
  | nil =>
    rw [List.length_nil, Int.natCast_zero, Int.add_zero]
    exact Function.update_self _ _ _
  | cons c a ih =>
    have hnext := ih h.2.2
    rw [List.length_cons, Int.natCast_add, Int.natCast_one, Int.add_comm (a.length : Int), ← Int.add_assoc]
    refine ⟨?_, h.2.1, hnext⟩
    rw [Function.update_of_ne (by omega)]
    exact h.1

/-- And what stands behind it. -/
theorem CStrAt.behind {a b : List UInt8} {c : UInt8} (h : CStrAt mem i (a ++ c :: b)) (v : UInt8) :
    CStrAt (Function.update mem (i + a.length) v) (i + a.length + 1) b :=
  (cStrAt_update (by omega)).2 h.append.2.2

theorem CStrAt.strchr_eq {a b : List UInt8} {c : UInt8} (h : CStrAt mem i (a ++ c :: b)) (hc : c ∉ a)
    (hl : (a ++ c :: b).length < addressSpace) : strchr mem i c = some (i + a.length) := by
  have hall : ∀ x ∈ a, (!(x == c || isNul x)) = true := by
    intro x hx
    have h0 : x ≠ 0 := fun h0 => (cStrAt_iff.1 h).2 (List.mem_append_left _ (h0 ▸ hx))
    have hxc : x ≠ c := fun hxc => hc (hxc ▸ hx)
    simp [isNul, h0, hxc]
  have hspan : span (fun b => b == c || isNul b) mem addressSpace i = a.length := by
    rw [h.span_eq (by simp [isNul]) hl, List.takeWhile_append_of_pos hall, List.takeWhile_cons_of_neg (by simp),
      List.append_nil]
  simp only [strchr]
  rw [hspan, if_pos h.append.1]

theorem CStrAt.strchr_none {c : UInt8} (h : CStrAt mem i s) (hc : c ∉ s) (h0 : c ≠ 0) (hl : s.length < addressSpace) :
    strchr mem i c = none := by
  have hall : ∀ x ∈ s, (!(x == c || isNul x)) = true := by
    intro x hx
    have h0 : x ≠ 0 := fun h0 => (cStrAt_iff.1 h).2 (h0 ▸ hx)
    have hxc : x ≠ c := fun hxc => hc (hxc ▸ hx)
    simp [isNul, h0, hxc]
  have hspan : span (fun b => b == c || isNul b) mem addressSpace i = s.length := by
    rw [h.span_eq (by simp [isNul]) hl, List.takeWhile_eq_self_iff.2 hall]
  have hend : mem (i + s.length) = 0 := by
    have h' : CStrAt mem i (s ++ []) := by rwa [List.append_nil]
    exact h'.append
  simp only [strchr]
  rw [hspan, hend, if_neg h0.symm]

theorem tolower_eq_zero {c : UInt8} : tolower c = 0 ↔ c = 0 := by
  unfold tolower
  constructor
  · intro h
    split at h
    · rename_i hc
      have h1 : c.toNat ≤ 90 := UInt8.le_iff_toNat_le.1 hc.2
      have h2 : (c + 32).toNat = 0 := congrArg UInt8.toNat h
      rw [UInt8.toNat_add] at h2
      have h3 : (32 : UInt8).toNat = 32 := rfl
      omega
    · exact h
  · rintro rfl
    rfl

/-- **`strcasecmp` compares the whole strings.** -/
theorem CStrAt.strcasecmp_iff {t : List UInt8} (h : CStrAt mem i s) (ht : 0 ∉ t) :
    strcasecmp mem t i = true ↔ s.map tolower = t.map tolower := by
  induction t generalizing i s with
  | nil =>
    rw [strcasecmp, beq_iff_eq]
    cases s with
    | nil => exact iff_of_true h rfl
    | cons c s => exact iff_of_false (fun h0 => h.2.1 (h.1 ▸ h0)) (List.cons_ne_nil _ _)
  | cons d t ih =>
    rw [List.mem_cons, not_or] at ht
    rw [strcasecmp, Bool.and_eq_true, beq_iff_eq]
    cases s with
    | nil =>
      have hi : mem i = 0 := h
      refine iff_of_false (fun hd => ht.1 ?_) (List.cons_ne_nil _ _).symm
      have h0 := hd.1.symm
      rw [hi] at h0
      exact (tolower_eq_zero.1 h0).symm
    | cons c s => rw [h.1, ih h.2.2 ht.2, List.map_cons, List.map_cons, List.cons.injEq]

theorem mem_strcasecmpReads {t : List UInt8} {x : Int} (h : x ∈ strcasecmpReads mem t i) :
    i ≤ x ∧ x ≤ i + t.length := by
  induction t generalizing i with
  | nil =>
    rw [strcasecmpReads, List.mem_singleton] at h
    rw [h]
    exact ⟨le_refl _, by simp⟩
  | cons c t ih =>
    rw [strcasecmpReads, List.mem_cons] at h
    rw [List.length_cons]
    rcases h with rfl | h
    · omega
    · split at h
      · have := ih h
        omega
      · exact absurd h List.not_mem_nil

end CStrAt

end SmartHome.Lib
