/-
  Subject:   LINES IN A READ BUFFER. Nothing here names a program.

  A buffer for a byte stream: some cells, of which a stretch is held. The reader takes from its front
  and the network adds at its end; now and then the stretch is moved to the front of the cells, and the
  cells become more or fewer. None of this changes what is held but for what is taken or added.

  * `linesOf` -- the lines of a text, each ended by a separator; `linesOf_line` takes the first one off;
  * `overwrite` -- some elements of a list replaced, the rest as it was;
  * `ReadBuffer` -- cells and a stretch of them; `held_advance`, `held_poke`, `held_compact`,
    `held_resize`, `held_append` say what each operation makes of the stretch.
-/
import Mathlib.Data.List.Basic
import Mathlib.Data.List.TakeDrop

namespace SmartHome.Lib

/-! ## 1. Lines -/

section Lines

variable {α : Type} [DecidableEq α] {sep : α}

/-- The lines of a text that begins with `line`; what follows the last separator is no line. -/
def linesFrom (sep : α) (line : List α) : List α → List (List α)
  | [] => []
  | c :: cs => if c = sep then line :: linesFrom sep [] cs else linesFrom sep (line ++ [c]) cs

/-- The lines of a text, each without the separator that ends it. -/
def linesOf (sep : α) (text : List α) : List (List α) := linesFrom sep [] text

theorem linesFrom_line : ∀ (l line rest : List α), sep ∉ l →
    linesFrom sep line (l ++ sep :: rest) = (line ++ l) :: linesOf sep rest
  | [], line, rest, _ => by
    rw [List.nil_append, linesFrom, if_pos rfl, List.append_nil]
    rfl
  | c :: l, line, rest, h => by
    rw [List.mem_cons, not_or] at h
    rw [List.cons_append, linesFrom, if_neg (Ne.symm h.1), linesFrom_line l _ rest h.2, List.append_assoc]
    rfl

/-- **The first line.** -/
theorem linesOf_line {l : List α} (rest : List α) (h : sep ∉ l) :
    linesOf sep (l ++ sep :: rest) = l :: linesOf sep rest := linesFrom_line l [] rest h

theorem linesFrom_eq_nil : ∀ (line text : List α), linesFrom sep line text = [] ↔ sep ∉ text
  | _, [] => by simp [linesFrom]
  | line, c :: cs => by
    by_cases hc : c = sep
    · rw [linesFrom, if_pos hc, hc]
      simp
    · rw [linesFrom, if_neg hc, linesFrom_eq_nil]
      simp [Ne.symm hc]

/-- A text without a separator has no line. -/
theorem linesOf_eq_nil {text : List α} : linesOf sep text = [] ↔ sep ∉ text := linesFrom_eq_nil [] text

/-- A text with a separator, cut at the first one. -/
theorem cut_at_idxOf {text : List α} (h : sep ∈ text) :
    text = text.take (text.idxOf sep) ++ sep :: text.drop (text.idxOf sep + 1) ∧
      sep ∉ text.take (text.idxOf sep) := by
  induction text with
  | nil => exact absurd h List.not_mem_nil
  | cons c cs ih =>
    by_cases hc : c = sep
    · rw [hc, List.idxOf_cons_self]
      exact ⟨rfl, List.not_mem_nil⟩
    · have hcs : sep ∈ cs := (List.mem_cons.mp h).resolve_left (Ne.symm hc)
      obtain ⟨heq, hnot⟩ := ih hcs
      rw [List.idxOf_cons_ne _ hc]
      refine ⟨?_, ?_⟩
      · rw [List.take_succ_cons, List.drop_succ_cons, List.cons_append, ← heq]
      · rw [List.take_succ_cons, List.mem_cons, not_or]
        exact ⟨Ne.symm hc, hnot⟩

end Lines

/-! ## 2. Replacing elements -/

section Overwrite

variable {α : Type}

/-- `xs` in place of the elements from `i` on. -/
def overwrite (l : List α) (i : Nat) (xs : List α) : List α := l.take i ++ (xs ++ l.drop (i + xs.length))

theorem length_overwrite {l xs : List α} {i : Nat} (h : i + xs.length ≤ l.length) :
    (overwrite l i xs).length = l.length := by
  simp only [overwrite, List.length_append, List.length_take, List.length_drop]
  omega

/-- Element `k`: one of `xs`, or the old one. -/
theorem getElem?_overwrite {l xs : List α} {i : Nat} (h : i + xs.length ≤ l.length) (k : Nat) :
    (overwrite l i xs)[k]? = if i ≤ k ∧ k < i + xs.length then xs[k - i]? else l[k]? := by
  have hi : (l.take i).length = i := by
    rw [List.length_take]
    omega
  unfold overwrite
  by_cases hk : k < i
  · rw [if_neg (by omega), List.getElem?_append_left (by omega), List.getElem?_take_of_lt hk]
  · rw [List.getElem?_append_right (by omega), hi]
    by_cases hx : k < i + xs.length
    · rw [if_pos (by omega), List.getElem?_append_left (by omega)]
    · rw [if_neg (by omega), List.getElem?_append_right (by omega), List.getElem?_drop]
      congr 1
      omega

/-- What is behind the replaced elements stays. -/
theorem drop_overwrite {l xs : List α} {i k : Nat} (hl : i + xs.length ≤ l.length) (h : i + xs.length ≤ k) :
    (overwrite l i xs).drop k = l.drop k := by
  refine List.ext_getElem? fun j => ?_
  rw [List.getElem?_drop, List.getElem?_drop, getElem?_overwrite hl, if_neg (by omega)]

end Overwrite

/-! ## 3. The buffer -/

/-- Cells, `count` of which are held from `start` on. -/
structure ReadBuffer (α : Type) where
  cells : List α
  start : Nat
  count : Nat
  bounds : start + count ≤ cells.length

namespace ReadBuffer

variable {α : Type} (b : ReadBuffer α)

/-- What is held. -/
def held : List α := (b.cells.drop b.start).take b.count

@[simp] theorem length_held : b.held.length = b.count := by
  have := b.bounds
  rw [held, List.length_take, List.length_drop]
  omega

theorem getElem?_held (k : Nat) : b.held[k]? = if k < b.count then b.cells[b.start + k]? else none := by
  rw [held, List.getElem?_take, List.getElem?_drop]

/-- The first `n` are taken. -/
def advance (n : Nat) (h : n ≤ b.count) : ReadBuffer α where
  cells := b.cells
  start := b.start + n
  count := b.count - n
  bounds := by
    have := b.bounds
    omega

theorem held_advance (n : Nat) (h : n ≤ b.count) : (b.advance n h).held = b.held.drop n := by
  rw [held, held, List.drop_take, List.drop_drop]
  rfl

/-- Some of what is held is replaced. -/
def poke (i : Nat) (xs : List α) (h : i + xs.length ≤ b.count) : ReadBuffer α where
  cells := overwrite b.cells (b.start + i) xs
  start := b.start
  count := b.count
  bounds := by
    have := b.bounds
    rw [length_overwrite (by omega)]
    exact this

theorem length_poke (i : Nat) (xs : List α) (h : i + xs.length ≤ b.count) :
    (b.poke i xs h).cells.length = b.cells.length := by
  have := b.bounds
  exact length_overwrite (by omega)

theorem held_poke (i : Nat) (xs : List α) (h : i + xs.length ≤ b.count) :
    (b.poke i xs h).held = overwrite b.held i xs := by
  have hb := b.bounds
  refine List.ext_getElem? fun k => ?_
  rw [getElem?_held, getElem?_overwrite (by rw [length_held]; exact h), getElem?_held]
  show (if k < b.count then (overwrite b.cells (b.start + i) xs)[b.start + k]? else none) = _
  rw [getElem?_overwrite (by omega)]
  by_cases hk : i ≤ k ∧ k < i + xs.length
  · rw [if_pos (by omega), if_pos (by omega), if_pos hk]
    congr 1
    omega
  · have hk' : ¬ (b.start + i ≤ b.start + k ∧ b.start + k < b.start + i + xs.length) := by omega
    rw [if_neg hk', if_neg hk]

/-- What is held moves to the front of the cells. -/
def compact : ReadBuffer α where
  cells := overwrite b.cells 0 b.held
  start := 0
  count := b.count
  bounds := by
    have := b.bounds
    rw [length_overwrite (by rw [length_held]; omega)]
    omega

theorem length_compact : b.compact.cells.length = b.cells.length := by
  have := b.bounds
  exact length_overwrite (by rw [length_held]; omega)

theorem held_compact : b.compact.held = b.held := by
  have hb := b.bounds
  refine List.ext_getElem? fun k => ?_
  rw [getElem?_held]
  show (if k < b.count then (overwrite b.cells 0 b.held)[0 + k]? else none) = _
  rw [getElem?_overwrite (by rw [length_held]; omega), length_held]
  by_cases hk : k < b.count
  · rw [if_pos hk, if_pos (by omega), Nat.zero_add, Nat.sub_zero]
  · rw [if_neg hk, List.getElem?_eq_none (by rw [length_held]; omega)]

/-- More cells or fewer, with what is held at the front of them; new cells hold `x`. -/
def resize (n : Nat) (x : α) (h : b.start + b.count ≤ n) : ReadBuffer α where
  cells := (b.cells ++ List.replicate n x).take n
  start := b.start
  count := b.count
  bounds := by
    rw [List.length_take, List.length_append, List.length_replicate]
    omega

theorem length_resize (n : Nat) (x : α) (h : b.start + b.count ≤ n) : (b.resize n x h).cells.length = n := by
  show ((b.cells ++ List.replicate n x).take n).length = n
  rw [List.length_take, List.length_append, List.length_replicate]
  omega

theorem held_resize (n : Nat) (x : α) (h : b.start + b.count ≤ n) : (b.resize n x h).held = b.held := by
  have hb := b.bounds
  refine List.ext_getElem? fun k => ?_
  rw [getElem?_held, getElem?_held]
  show (if k < b.count then ((b.cells ++ List.replicate n x).take n)[b.start + k]? else none) = _
  by_cases hk : k < b.count
  · rw [if_pos hk, if_pos hk, List.getElem?_take_of_lt (by omega), List.getElem?_append_left (by omega)]
  · rw [if_neg hk, if_neg hk]

/-- `xs` come in behind what is held. -/
def append (xs : List α) (h : b.start + b.count + xs.length ≤ b.cells.length) : ReadBuffer α where
  cells := overwrite b.cells (b.start + b.count) xs
  start := b.start
  count := b.count + xs.length
  bounds := by
    rw [length_overwrite h]
    omega

theorem length_append (xs : List α) (h : b.start + b.count + xs.length ≤ b.cells.length) :
    (b.append xs h).cells.length = b.cells.length := length_overwrite h

theorem held_append (xs : List α) (h : b.start + b.count + xs.length ≤ b.cells.length) :
    (b.append xs h).held = b.held ++ xs := by
  refine List.ext_getElem? fun k => ?_
  rw [getElem?_held]
  show (if k < b.count + xs.length then (overwrite b.cells (b.start + b.count) xs)[b.start + k]? else none) = _
  rw [getElem?_overwrite h]
  by_cases hk : k < b.count
  · rw [if_pos (by omega), if_neg (by omega), List.getElem?_append_left (by rw [length_held]; exact hk),
      getElem?_held, if_pos hk]
  · rw [List.getElem?_append_right (by rw [length_held]; omega), length_held]
    by_cases hx : k < b.count + xs.length
    · rw [if_pos hx, if_pos (by omega)]
      congr 1
      omega
    · rw [if_neg hx, List.getElem?_eq_none (by omega)]

end ReadBuffer

end SmartHome.Lib
