/-
  Subject:   MACHINES THAT ANSWER, compared by what they let see. Nothing here names a program.

  A machine takes inputs one by one. At each it gives one response, does a number of things, and goes
  on or ends.

  * `respond` -- the responses to a list of inputs, and what was done, in order;
  * `Alike` -- two states no list of inputs tells apart; `Alike.out`, `Alike.next` -- so does no single
    input, and the states after it are alike again;
  * `alike_of_bisimulation` -- the rule to show it.
-/
import Mathlib.Data.List.Basic

namespace SmartHome.Lib

section Transducer

variable {σ ι ω ε : Type} {step : σ → ι → (ω × List ε) × Option σ} {s t u s' t' : σ} {i : ι}

/-- The responses to a list of inputs, and what was done; a machine that ends leaves the rest. -/
def respond (step : σ → ι → (ω × List ε) × Option σ) : σ → List ι → List ω × List ε
  | _, [] => ([], [])
  | s, i :: is =>
    match step s i with
    | (o, none) => ([o.1], o.2)
    | (o, some s') => (o.1 :: (respond step s' is).1, o.2 ++ (respond step s' is).2)

theorem respond_end {o : ω × List ε} (h : step s i = (o, none)) (is : List ι) :
    respond step s (i :: is) = ([o.1], o.2) := by
  rw [respond, h]

theorem respond_go {o : ω × List ε} (h : step s i = (o, some s')) (is : List ι) :
    respond step s (i :: is) = (o.1 :: (respond step s' is).1, o.2 ++ (respond step s' is).2) := by
  rw [respond, h]

/-- A single input. -/
theorem respond_one (s : σ) (i : ι) : respond step s [i] = ([(step s i).1.1], (step s i).1.2) := by
  rcases hs : step s i with ⟨o, _ | s'⟩
  · exact respond_end hs []
  · rw [respond_go hs]
    exact congrArg (Prod.mk _) (List.append_nil _)

/-- **No inputs tell the two states apart.** -/
def Alike (step : σ → ι → (ω × List ε) × Option σ) (s t : σ) : Prop :=
  ∀ is, respond step s is = respond step t is

theorem Alike.out (h : Alike step s t) (i : ι) : (step s i).1 = (step t i).1 := by
  have hi := h [i]
  rw [respond_one, respond_one] at hi
  obtain ⟨ho, he⟩ := Prod.mk.inj hi
  exact Prod.ext (List.head_eq_of_cons_eq ho) he

/-- What was done so far can be cancelled. -/
theorem respond_go_inj {o : ω × List ε} (hs : step s i = (o, some s')) (ht : step t i = (o, some t')) {is : List ι}
    (h : respond step s (i :: is) = respond step t (i :: is)) : respond step s' is = respond step t' is := by
  rw [respond_go hs, respond_go ht] at h
  obtain ⟨ho, he⟩ := Prod.mk.inj h
  exact Prod.ext (List.tail_eq_of_cons_eq ho) (List.append_cancel_left he)

theorem Alike.next {o o' : ω × List ε} (h : Alike step s t) (hs : step s i = (o, some s'))
    (ht : step t i = (o', some t')) : Alike step s' t' := by
  have ho : o = o' := by
    have hout := h.out i
    rw [hs, ht] at hout
    exact hout
  rw [← ho] at ht
  exact fun is => respond_go_inj hs ht (h (i :: is))

/-- **States related by a bisimulation are alike**: related states answer alike, and end both or go on
    to related states. -/
theorem alike_of_bisimulation {R : σ → σ → Prop} (hout : ∀ s t i, R s t → (step s i).1 = (step t i).1)
    (hnext : ∀ s t i, R s t → Option.Rel R (step s i).2 (step t i).2) (h : R s t) : Alike step s t := by
  intro is
  induction is generalizing s t with
  | nil => rfl
  | cons i is ih =>
    have ho := hout s t i h
    have hn := hnext s t i h
    rcases hs : step s i with ⟨o, s'⟩
    rcases ht : step t i with ⟨o', t'⟩
    rw [hs, ht] at ho hn
    cases ho
    cases hn with
    | none => rw [respond_end hs, respond_end ht]
    | some hR => rw [respond_go hs, respond_go ht, ih hR]

end Transducer

end SmartHome.Lib
