/-
  Subject:   CIRCULAR BUFFERS READ AS LISTS. Nothing here names a program.

  A ring of `n` slots is a memory `buf : Nat → α` with two positions below `n`: what waits in it
  are the slots from `trail` up to, not including, `head`. Such a ring cannot tell "full" from
  "empty": a push into a ring that already holds `n - 1` elements makes `head` meet `trail`, and
  everything that waited is gone.

  * `next`, `held`, `slotAt` -- the position arithmetic;
  * `window` -- the waiting elements, oldest first;
  * `window_self`, `window_cons`, `window_push` -- the reading of an empty ring, of one read and
    of one write, the last one exact also when the ring runs over (`pushed`);
  * `pushList` -- many writes; with room it appends (`pushList_append`), `pushList_full` empties it.
-/
import Mathlib.Data.List.Basic
import Mathlib.Logic.Function.Basic

namespace SmartHome.Lib

variable {α : Type}

/-! ## 1. Positions -/

/-- The slot after `i`. -/
def next (n i : Nat) : Nat := if i + 1 ≥ n then 0 else i + 1

/-- How many slots lie from `trail` up to `head`. -/
def held (n trail head : Nat) : Nat := if trail ≤ head then head - trail else head + n - trail

/-- The slot `j` places after `i`. -/
def slotAt (n i j : Nat) : Nat := if i + j < n then i + j else i + j - n

theorem next_lt {n i : Nat} (h : i < n) : next n i < n := by
  unfold next
  split <;> omega

theorem next_eq_mod {n i : Nat} (h : i < n) : next n i = (i + 1) % n := by
  unfold next
  split
  · have e : i + 1 = n := by omega
    rw [e, Nat.mod_self]
  · rw [Nat.mod_eq_of_lt (by omega)]

theorem held_lt {n trail head : Nat} (ht : trail < n) (hh : head < n) : held n trail head < n := by
  unfold held
  split <;> omega

theorem held_eq_mod {n trail head : Nat} (ht : trail < n) (hh : head < n) :
    held n trail head = (head + n - trail) % n := by
  unfold held
  split
  · have e : head + n - trail = head - trail + n := by omega
    rw [e, Nat.add_mod_right, Nat.mod_eq_of_lt (by omega)]
  · rw [Nat.mod_eq_of_lt (by omega)]

theorem held_eq_zero {n trail head : Nat} (ht : trail < n) : held n trail head = 0 ↔ trail = head := by
  unfold held
  split <;> omega

theorem held_next_trail {n trail head : Nat} (ht : trail < n) (hh : head < n) (hne : trail ≠ head) :
    held n trail head = held n (next n trail) head + 1 := by
  unfold held next
  split_ifs <;> omega

theorem held_next_head {n trail head : Nat} (ht : trail < n) (hh : head < n) :
    held n trail (next n head) = if held n trail head + 1 = n then 0 else held n trail head + 1 := by
  unfold held next
  split_ifs <;> omega

/-! ## 2. The waiting elements -/

/-- What waits between `trail` and `head`, oldest first. -/
def window (n : Nat) (buf : Nat → α) (trail head : Nat) : List α :=
  (List.range (held n trail head)).map fun j => buf (slotAt n trail j)

@[simp] theorem window_length (n : Nat) (buf : Nat → α) (trail head : Nat) :
    (window n buf trail head).length = held n trail head := by
  simp [window]

@[simp] theorem window_self (n : Nat) (buf : Nat → α) (i : Nat) : window n buf i i = [] := by
  simp [window, held]

/-- **Reading one slot** takes the oldest element off the window. -/
theorem window_cons {n : Nat} (buf : Nat → α) {trail head : Nat} (ht : trail < n) (hh : head < n)
    (hne : trail ≠ head) : window n buf trail head = buf trail :: window n buf (next n trail) head := by
  have hs : ∀ j, j < held n (next n trail) head → slotAt n trail (j + 1) = slotAt n (next n trail) j := by
    intro j hj
    have := held_lt (next_lt ht) hh
    revert hj
    unfold slotAt next held
    split_ifs <;> omega
  unfold window
  rw [held_next_trail ht hh hne, List.range_succ_eq_map, List.map_cons, List.map_map]
  congr 1
  · simp [slotAt, ht]
  · refine List.map_congr_left fun j hj => ?_
    simp only [Function.comp, Nat.succ_eq_add_one]
    rw [hs j (List.mem_range.mp hj)]

/-! ## 3. Writing -/

/-- What a ring of `n` slots holds after one more write: the write that would make the ring
    full makes it empty. -/
def pushed (n : Nat) (q : List α) (x : α) : List α := if q.length + 1 = n then [] else q ++ [x]

/-- **Writing one slot**, exact also for a ring that runs over. -/
theorem window_push {n : Nat} (buf : Nat → α) {trail head : Nat} (ht : trail < n) (hh : head < n)
    (x : α) : window n (Function.update buf head x) trail (next n head) = pushed n (window n buf trail head) x := by
  unfold pushed
  rw [window_length]
  have hnew := held_next_head ht hh
  by_cases hfull : held n trail head + 1 = n
  · rw [if_pos hfull] at hnew ⊢
    rw [← List.length_eq_zero_iff, window_length, hnew]
  · rw [if_neg hfull] at hnew ⊢
    unfold window
    rw [hnew, List.range_succ, List.map_append, List.map_singleton]
    -- the written slot is the one after the window, none of the slots inside it
    have hlast : slotAt n trail (held n trail head) = head := by
      have := held_lt ht hh
      unfold slotAt held at *
      split_ifs at * <;> omega
    congr 1
    · refine List.map_congr_left fun j hj => ?_
      have hj' := List.mem_range.mp hj
      rw [Function.update_of_ne]
      have := held_lt ht hh
      intro e
      unfold slotAt held at *
      split_ifs at * <;> omega
    · rw [hlast, Function.update_self]

/-- Many writes, one after the other. -/
def pushList (n : Nat) (q xs : List α) : List α := xs.foldl (pushed n) q

@[simp] theorem pushList_nil (n : Nat) (q : List α) : pushList n q [] = q := rfl

@[simp] theorem pushList_cons (n : Nat) (q : List α) (x : α) (xs : List α) :
    pushList n q (x :: xs) = pushList n (pushed n q x) xs := rfl

/-- **With room, writing appends.** -/
theorem pushList_append {n : Nat} : ∀ (xs q : List α), q.length + xs.length < n →
    pushList n q xs = q ++ xs
  | [], q, _ => by simp
  | x :: xs, q, h => by
    simp only [List.length_cons] at h
    have e : pushed n q x = q ++ [x] := by
      unfold pushed
      rw [if_neg (by omega)]
    rw [pushList_cons, e, pushList_append xs (q ++ [x]) (by simp; omega), List.append_assoc]
    rfl

/-- **How many elements a ring holds**, also one that runs over. -/
theorem pushList_length {n : Nat} : ∀ (xs q : List α), q.length < n →
    (pushList n q xs).length = (q.length + xs.length) % n
  | [], q, h => by
    rw [pushList_nil, List.length_nil, Nat.add_zero, Nat.mod_eq_of_lt h]
  | x :: xs, q, h => by
    rw [pushList_cons, List.length_cons]
    unfold pushed
    by_cases hfull : q.length + 1 = n
    · have he : q.length + (xs.length + 1) = xs.length + n := by omega
      rw [if_pos hfull, pushList_length xs [] (Nat.zero_lt_of_lt h), he, Nat.add_mod_right,
        List.length_nil, Nat.zero_add]
    · have hlen : (q ++ [x]).length = q.length + 1 := by simp
      rw [if_neg hfull, pushList_length xs _ (by omega), hlen]
      congr 1
      omega

/-- **The write that meets `trail` empties the ring**: only what is written behind it stays. -/
theorem pushList_full {n : Nat} {q xs : List α} (hq : q.length < n) (h : q.length + xs.length = n) (ys : List α) :
    pushList n q (xs ++ ys) = pushList n [] ys := by
  have hempty : pushList n q xs = [] := by
    rw [← List.length_eq_zero_iff, pushList_length xs q hq, h, Nat.mod_self]
  unfold pushList at hempty ⊢
  rw [List.foldl_append, hempty]

/-- A ring never holds `n` elements. -/
theorem pushList_length_lt {n : Nat} : ∀ (xs q : List α), q.length < n → (pushList n q xs).length < n
  | [], _, h => h
  | x :: xs, q, h => by
    rw [pushList_cons]
    refine pushList_length_lt xs _ ?_
    unfold pushed
    split
    · simp; omega
    · simp; omega

/-- Writing never makes the waiting elements outnumber what was there and what was written. -/
theorem pushList_length_le {n : Nat} : ∀ (xs q : List α),
    (pushList n q xs).length ≤ q.length + xs.length
  | [], _ => by simp
  | x :: xs, q => by
    rw [pushList_cons]
    refine Nat.le_trans (pushList_length_le xs _) ?_
    unfold pushed
    split <;> simp <;> omega

end SmartHome.Lib
