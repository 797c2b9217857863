/-
  Subject:   BOUNDED LOOPS AND RUNS, with the rules for invariants. Nothing here names a program.

  * `loop step out n s` -- iterate `step` from `s`: `.inl r` ends the loop with `r`, `.inr s'` goes
    on from `s'`; after `n` rounds the answer is `out`. Under a measure that every continuing round
    lowers, the bound is never met (`loop_rule`); `loop_relate` compares two loops;
  * `Visits step s t`, `Ends step x r` -- the same iteration without a bound: it passes `t`, it ends
    with `r`. What every round keeps holds wherever it passes (`Visits.invariant`), and a measure that
    every round lowers is lower wherever it passes later (`Visits.lt`);
  * `Reaches next ok s₀ s` -- a run of a machine from `s₀` to `s`, all of whose steps meet `ok`;
    `Reaches.invariant` is the induction over runs, stated once; `runEvents` runs a list of events.
-/
import Mathlib.Data.List.Induction

namespace SmartHome.Lib

/-! ## 1. Loops -/

section Loop

variable {σ ρ : Type} {step : σ → ρ ⊕ σ} {out : σ → ρ}

/-- Iterate `step`, at most `n` times. -/
def loop (step : σ → ρ ⊕ σ) (out : σ → ρ) : Nat → σ → ρ
  | 0, s => out s
  | n + 1, s =>
    match step s with
    | .inl r => r
    | .inr s' => loop step out n s'

theorem loop_stop {s : σ} {r : ρ} (n : Nat) (h : step s = .inl r) : loop step out (n + 1) s = r := by
  simp [loop, h]

theorem loop_more {s s' : σ} (n : Nat) (h : step s = .inr s') :
    loop step out (n + 1) s = loop step out n s' := by
  simp [loop, h]

/-- **The loop rule**: an invariant that every continuing round keeps, and a postcondition that
    every ending round establishes from it. -/
theorem loop_rule (μ : σ → Nat) (I : σ → Prop) (Q : ρ → Prop)
    (hdec : ∀ s s', step s = .inr s' → μ s' < μ s)
    (hstop : ∀ s r, I s → step s = .inl r → Q r)
    (hmore : ∀ s s', I s → step s = .inr s' → I s') :
    ∀ n s, μ s < n → I s → Q (loop step out n s)
  | 0, _, h, _ => absurd h (Nat.not_lt_zero _)
  | n + 1, s, h, hI => by
    cases hs : step s with
    | inl r =>
      rw [loop_stop n hs]
      exact hstop s r hI hs
    | inr s' =>
      have := hdec s s' hs
      rw [loop_more n hs]
      exact loop_rule μ I Q hdec hstop hmore n s' (by omega) (hmore s s' hI hs)

/-- **Two loops side by side**: rounds that keep their states related, and relate their results when
    they end, relate the results of the loops. -/
theorem loop_relate {σ' ρ' : Type} {step' : σ' → ρ' ⊕ σ'} {out' : σ' → ρ'} {R : σ → σ' → Prop} {S : ρ → ρ' → Prop}
    (hout : ∀ s t, R s t → S (out s) (out' t)) (hstep : ∀ s t, R s t → Sum.LiftRel S R (step s) (step' t)) :
    ∀ n s t, R s t → S (loop step out n s) (loop step' out' n t)
  | 0, s, t, h => hout s t h
  | n + 1, s, t, h => by
    have hst := hstep s t h
    cases hs : step s with
    | inl r =>
      cases ht : step' t with
      | inl r' =>
        rw [hs, ht] at hst
        rw [loop_stop n hs, loop_stop n ht]
        exact Sum.liftRel_inl_inl.mp hst
      | inr t' =>
        rw [hs, ht] at hst
        exact absurd hst Sum.not_liftRel_inl_inr
    | inr s' =>
      cases ht : step' t with
      | inl r' =>
        rw [hs, ht] at hst
        exact absurd hst Sum.not_liftRel_inr_inl
      | inr t' =>
        rw [hs, ht] at hst
        rw [loop_more n hs, loop_more n ht]
        exact loop_relate hout hstep n s' t' (Sum.liftRel_inr_inr.mp hst)

end Loop

/-! ## 2. Loops without a bound -/

section Unbounded

variable {σ ρ : Type} {step : σ → ρ ⊕ σ}

/-- Iterating `step` from `s` passes `t`. -/
inductive Visits (step : σ → ρ ⊕ σ) (s : σ) : σ → Prop where
  | here : Visits step s s
  | next {t t' : σ} (h : Visits step s t) (hs : step t = .inr t') : Visits step s t'

/-- Going on from the outcome of a round, the iteration ends with `r`. -/
inductive Ends (step : σ → ρ ⊕ σ) : ρ ⊕ σ → ρ → Prop where
  | done (r : ρ) : Ends step (.inl r) r
  | more {s : σ} {r : ρ} (h : Ends step (step s) r) : Ends step (.inr s) r

/-- **The rule for what is passed**: what holds at the start and is kept by every round. -/
theorem Visits.invariant {s t : σ} (I : σ → Prop) (h0 : I s) (hstep : ∀ s s', I s → step s = .inr s' → I s')
    (h : Visits step s t) : I t := by
  induction h with
  | here => exact h0
  | next _ hs ih => exact hstep _ _ ih hs

/-- **What is passed later is lower**, by a measure that every round lowers under the invariant. -/
theorem Visits.lt {s t u : σ} (I : σ → Prop) (μ : σ → Nat) (h0 : I s) (hstep : ∀ s s', I s → step s = .inr s' → I s')
    (hlow : ∀ s s', I s → step s = .inr s' → μ s' < μ s) (hs : step s = .inr t) (h : Visits step t u) : μ u < μ s := by
  have hall : I u ∧ μ u < μ s := by
    refine h.invariant (fun u => I u ∧ μ u < μ s) ⟨hstep s t h0 hs, hlow s t h0 hs⟩ ?_
    intro v v' hv hs
    exact ⟨hstep v v' hv.1 hs, Nat.lt_trans (hlow v v' hv.1 hs) hv.2⟩
  exact hall.2

end Unbounded

/-! ## 3. Runs -/

section Run

variable {σ ε : Type} {next : σ → ε → Option σ} {ok ok' : σ → ε → Prop} {s₀ s : σ}

/-- The states a machine reaches by steps that meet `ok`; a step may also end the machine. -/
inductive Reaches (next : σ → ε → Option σ) (ok : σ → ε → Prop) (s₀ : σ) : σ → Prop where
  | start : Reaches next ok s₀ s₀
  | step {s s' : σ} (e : ε) (h : Reaches next ok s₀ s) (hok : ok s e) (hs : next s e = some s') :
      Reaches next ok s₀ s'

/-- **The run rule**: what holds at the start and is kept by every step holds in every state reached. -/
theorem Reaches.invariant (I : σ → Prop) (h0 : I s₀)
    (hstep : ∀ s e s', I s → ok s e → next s e = some s' → I s') (h : Reaches next ok s₀ s) : I s := by
  induction h with
  | start => exact h0
  | step e _ hok hs ih => exact hstep _ e _ ih hok hs

/-- A run after a run. -/
theorem Reaches.trans {s' : σ} (h : Reaches next ok s₀ s) (h' : Reaches next ok s s') : Reaches next ok s₀ s' := by
  induction h' with
  | start => exact h
  | step e _ he hs ih => exact .step e ih he hs

/-- Steps that meet more reach less. -/
theorem Reaches.mono (hok : ∀ s e, ok s e → ok' s e) (h : Reaches next ok s₀ s) : Reaches next ok' s₀ s := by
  induction h with
  | start => exact .start
  | step e _ he hs ih => exact .step e ih (hok _ e he) hs

/-- The run of a list of events. -/
def runEvents (next : σ → ε → Option σ) : σ → List ε → Option σ
  | s, [] => some s
  | s, e :: es => (next s e).bind fun s' => runEvents next s' es

theorem runEvents_append (next : σ → ε → Option σ) (s : σ) (es es' : List ε) :
    runEvents next s (es ++ es') = (runEvents next s es).bind fun s' => runEvents next s' es' := by
  induction es generalizing s with
  | nil => rfl
  | cons e es ih =>
    show (next s e).bind _ = ((next s e).bind _).bind _
    rw [Option.bind_assoc]
    exact congrArg (next s e).bind (funext ih)

/-- It is a run. -/
theorem Reaches.runEvents (h : Reaches next ok s₀ s) {es : List ε} {s' : σ} (hok : ∀ t, ∀ e ∈ es, ok t e)
    (hrun : runEvents next s es = some s') : Reaches next ok s₀ s' := by
  induction es generalizing s with
  | nil =>
    cases hrun
    exact h
  | cons e es ih =>
    obtain ⟨t, ht, hrest⟩ := Option.bind_eq_some_iff.mp hrun
    exact ih (.step e h (hok _ e List.mem_cons_self) ht) (fun t e he => hok t e (List.mem_cons_of_mem _ he)) hrest

/-- A list of events of which each is tested before it happens is a run, too. -/
theorem Reaches.guarded [∀ s e, Decidable (ok s e)] (h : Reaches next ok s₀ s) {es : List ε} {s' : σ}
    (hrun : Lib.runEvents (fun s e => if ok s e then next s e else none) s es = some s') : Reaches next ok s₀ s' := by
  induction es generalizing s with
  | nil =>
    cases hrun
    exact h
  | cons e es ih =>
    obtain ⟨t, ht, hrest⟩ := Option.bind_eq_some_iff.mp hrun
    obtain ⟨hok, ht⟩ := Option.ite_none_right_eq_some.mp ht
    exact ih (.step e h hok ht) hrest

/-- Of a list of events each happens at its place. -/
theorem Reaches.places {es : List ε} {s' : σ} (hrun : Lib.runEvents next s₀ es = some s') :
    Reaches next (fun s e => ∃ before after, es = before ++ e :: after ∧ Lib.runEvents next s₀ before = some s) s₀
      s' := by
  induction es using List.reverseRecOn generalizing s' with
  | nil =>
    cases hrun
    exact .start
  | append_singleton es e ih =>
    obtain ⟨t, ht, hlast⟩ := Option.bind_eq_some_iff.mp ((runEvents_append next s₀ es [e]).symm.trans hrun)
    obtain ⟨s, hs, hend⟩ := Option.bind_eq_some_iff.mp hlast
    cases hend
    refine .step e ((ih ht).mono fun s d hd => ?_) ⟨es, [], rfl, ht⟩ hs
    obtain ⟨before, after, rfl, hbefore⟩ := hd
    exact ⟨before, after ++ [e], by simp, hbefore⟩

end Run

end SmartHome.Lib
