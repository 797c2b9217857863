/-
  Subject:   TABLES OF CHAINS: lists of lists in which every entry has its place.

  A hash table is a list of chains. Where every entry is in the chain its key has its place in, looking
  through one chain finds what looking through all of them would; and moving entries from one chain, or one
  table, to another leaves the same entries in another order.

  * `push`, `flatten_push`, `flatten_perm` -- an entry more, a chain emptied;
  * `Placed`, `placed_push`, `placed_set_nil` -- every entry has its place;
  * `find?_flatten` -- one chain is enough;
  * `find?_perm` -- and the order of the entries does not matter, where at most one is looked for;
  * `doubleTo`, `doubleTo_isPowerOfTwo` -- a number doubled until it is large enough.
-/
import Mathlib.Data.List.GetD
import Mathlib.Data.List.Perm.Basic

namespace SmartHome.Lib

section Buckets

variable {α : Type} {place : α → Nat} {table : List (List α)} {p : α → Bool}

/-- An entry more, at the head of a chain. -/
def push (table : List (List α)) (i : Nat) (e : α) : List (List α) := table.set i (e :: table.getD i [])

theorem length_push (table : List (List α)) (i : Nat) (e : α) : (push table i e).length = table.length :=
  List.length_set

/-- A chain in front of what comes before it. -/
theorem flatten_set {i : Nat} (h : i < table.length) (chain : List α) :
    (table.set i chain).flatten.Perm (chain ++ (table.set i []).flatten) := by
  induction table generalizing i with
  | nil => exact absurd h (Nat.not_lt_zero i)
  | cons b table ih =>
    cases i with
    | zero => exact .refl _
    | succ i =>
      rw [List.set_cons_succ, List.set_cons_succ, List.flatten_cons, List.flatten_cons]
      refine ((ih (Nat.lt_of_succ_lt_succ h)).append_left b).trans ?_
      rw [← List.append_assoc, ← List.append_assoc]
      exact List.perm_append_comm.append_right _

/-- The table with one of its chains in front. -/
theorem flatten_perm {i : Nat} (h : i < table.length) :
    table.flatten.Perm (table.getD i [] ++ (table.set i []).flatten) := by
  have hset := flatten_set h table[i]
  rw [List.set_getElem_self] at hset
  rw [List.getD_eq_getElem _ _ h]
  exact hset

theorem flatten_push {i : Nat} (h : i < table.length) (e : α) : (push table i e).flatten.Perm (e :: table.flatten) :=
  (flatten_set h _).trans ((flatten_perm h).symm.cons e)

/-- **Every entry has its place.** -/
def Placed (place : α → Nat) (table : List (List α)) : Prop := ∀ i, ∀ e ∈ table.getD i [], place e = i

theorem getD_set (table : List (List α)) (i j : Nat) (chain : List α) (h : i < table.length) :
    (table.set i chain).getD j [] = if i = j then chain else table.getD j [] := by
  rw [List.getD_eq_getElem?_getD, List.getElem?_set, List.getD_eq_getElem?_getD]
  by_cases hij : i = j
  · rw [if_pos hij, if_pos hij, if_pos h, Option.getD_some]
  · rw [if_neg hij, if_neg hij]

theorem placed_push {e : α} (h : Placed place table) (he : place e < table.length) :
    Placed place (push table (place e) e) := by
  intro j x hx
  rw [push, getD_set _ _ _ _ he] at hx
  split at hx
  · rename_i hj
    rcases List.mem_cons.1 hx with rfl | hx
    · exact hj
    · exact (h _ x hx).trans hj
  · exact h j x hx

theorem placed_set_nil (h : Placed place table) {i : Nat} (hi : i < table.length) : Placed place (table.set i []) := by
  intro j x hx
  rw [getD_set _ _ _ _ hi] at hx
  split at hx
  · exact absurd hx List.not_mem_nil
  · exact h j x hx

theorem placed_replicate (n : Nat) : Placed place (List.replicate n []) := by
  intro i x hx
  rw [List.getD_eq_getElem?_getD, List.getElem?_replicate] at hx
  split at hx
  · exact absurd hx List.not_mem_nil
  · exact absurd hx List.not_mem_nil

theorem find?_flatten_of_getD (i : Nat) (h : ∀ j, j ≠ i → ∀ e ∈ table.getD j [], p e = false) :
    table.flatten.find? p = (table.getD i []).find? p := by
  induction table generalizing i with
  | nil => rfl
  | cons b table ih =>
    rw [List.flatten_cons, List.find?_append]
    cases i with
    | zero =>
      have hrest : table.flatten.find? p = none := by
        refine List.find?_eq_none.2 fun x hx => ?_
        obtain ⟨c, hc, hxc⟩ := List.mem_flatten.1 hx
        obtain ⟨j, hj, rfl⟩ := List.mem_iff_getElem.1 hc
        rw [h (j + 1) (Nat.succ_ne_zero j) x (by rw [List.getD_cons_succ, List.getD_eq_getElem _ _ hj]; exact hxc)]
        exact Bool.false_ne_true
      rw [hrest, Option.or_none]
      rfl
    | succ i =>
      have hfirst : b.find? p = none := by
        refine List.find?_eq_none.2 fun x hx => ?_
        rw [h 0 (Nat.succ_ne_zero i).symm x hx]
        exact Bool.false_ne_true
      rw [hfirst, Option.none_or, List.getD_cons_succ]
      exact ih i fun j hj e he => h (j + 1) (fun hc => hj (Nat.succ.inj hc)) e he

/-- **One chain is enough**, where all that is looked for has its place there. -/
theorem find?_flatten (h : Placed place table) {i : Nat} (hp : ∀ e, p e = true → place e = i) :
    table.flatten.find? p = (table.getD i []).find? p := by
  refine find?_flatten_of_getD i fun j hj e he => ?_
  by_contra hpe
  exact hj ((h j e he).symm.trans (hp e (Bool.of_not_eq_false hpe)))

end Buckets

/-- **The order does not matter**, where at most one entry is looked for. -/
theorem find?_perm {α : Type} {p : α → Bool} {l l' : List α} (hperm : l.Perm l')
    (hone : ∀ a ∈ l, ∀ b ∈ l, p a = true → p b = true → a = b) : l.find? p = l'.find? p := by
  cases h : l.find? p with
  | none =>
    refine (List.find?_eq_none.2 fun x hx => ?_).symm
    exact List.find?_eq_none.1 h x (hperm.mem_iff.2 hx)
  | some a =>
    have ha := List.mem_of_find?_eq_some h
    cases h' : l'.find? p with
    | none => exact absurd (List.find?_some h) (List.find?_eq_none.1 h' a (hperm.mem_iff.1 ha))
    | some b =>
      have hb := hperm.mem_iff.2 (List.mem_of_find?_eq_some h')
      rw [hone a ha b hb (List.find?_some h) (List.find?_some h')]

/-- `i` doubled until it is `size` at least, `rounds` times at most. -/
def doubleTo (size : Nat) : Nat → Nat → Nat
  | 0, i => i
  | rounds + 1, i => if size ≤ i then i else doubleTo size rounds (i * 2)

/-- A power of two stays one. -/
theorem doubleTo_isPowerOfTwo (size : Nat) {rounds i : Nat} (h : i.isPowerOfTwo) :
    (doubleTo size rounds i).isPowerOfTwo := by
  induction rounds generalizing i with
  | zero => exact h
  | succ rounds ih =>
    rw [doubleTo]
    split
    · exact h
    · exact ih (Nat.isPowerOfTwo_mul_two_of_isPowerOfTwo h)

end SmartHome.Lib
