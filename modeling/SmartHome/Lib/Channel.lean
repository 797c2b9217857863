/-
  Subject:   A CHANNEL THAT LOSES AND DOUBLES but keeps the order. Nothing here names a program.

  A channel is the list of the messages on their way, the oldest first. What a network may do to it
  is to lose one of them (`List.eraseIdx`) or to deliver one twice (`double`). Both leave the
  messages in order (`pairwise_eraseIdx`, `pairwise_double`) and invent none (`mem_double`).
-/
import Mathlib.Data.List.Basic

namespace SmartHome.Lib

section Channel

variable {α : Type}

/-- The message at place `i`, if there is one, stands there twice. -/
def double : Nat → List α → List α
  | _, [] => []
  | 0, x :: l => x :: x :: l
  | i + 1, x :: l => x :: double i l

theorem mem_double {y : α} : ∀ (i : Nat) (l : List α), y ∈ double i l → y ∈ l
  | _, [], h => by
    unfold double at h
    exact h
  | 0, x :: l, h => by
    rcases List.mem_cons.mp h with rfl | h
    · exact List.mem_cons_self
    · exact h
  | i + 1, x :: l, h => by
    rcases List.mem_cons.mp h with rfl | h
    · exact List.mem_cons_self
    · exact List.mem_cons_of_mem x (mem_double i l h)

/-- **Doubling keeps the order.** -/
theorem pairwise_double {R : α → α → Prop} (hrefl : ∀ x, R x x) : ∀ (i : Nat) (l : List α),
    l.Pairwise R → (double i l).Pairwise R
  | _, [], h => by
    unfold double
    exact h
  | 0, x :: l, h => by
    obtain ⟨hx, _⟩ := List.pairwise_cons.mp h
    refine List.pairwise_cons.mpr ⟨fun y hy => ?_, h⟩
    rcases List.mem_cons.mp hy with rfl | hy
    · exact hrefl y
    · exact hx y hy
  | i + 1, x :: l, h => by
    obtain ⟨hx, hl⟩ := List.pairwise_cons.mp h
    exact List.pairwise_cons.mpr
      ⟨fun y hy => hx y (mem_double i l hy), pairwise_double hrefl i l hl⟩

/-- **So does losing.** -/
theorem pairwise_eraseIdx {R : α → α → Prop} {l : List α} (h : l.Pairwise R) (i : Nat) :
    (l.eraseIdx i).Pairwise R := h.sublist (List.eraseIdx_sublist l i)

/-- A message at the end that is not before any other. -/
theorem pairwise_snoc {R : α → α → Prop} {l : List α} {x : α} (h : l.Pairwise R) (hx : ∀ y ∈ l, R y x) :
    (l ++ [x]).Pairwise R := by
  refine List.pairwise_append.mpr ⟨h, List.pairwise_singleton R x, fun y hy z hz => ?_⟩
  rw [List.mem_singleton.mp hz]
  exact hx y hy

end Channel

end SmartHome.Lib
