/-
  Subject:   OWNERSHIP, for agents that share a memory. Nothing here names a program.

  A memory is made of resources. What an agent is doing says which of them it holds, and what it relies on
  of their contents. An agent may change only what it holds, so what the others rely on stays true; what it
  holds it may keep, or hand over together with a claim about its contents.

  * `Sharing` -- what an agent holds and relies on, by what it is doing; it relies on what it holds only;
  * `Owned` -- every resource has exactly one holder, and every agent finds what it relies on;
  * **`Owned.exchange`** -- some agents redistribute what they hold; `Owned.alter` -- one agent goes on with
    what it holds; `Owned.give` -- two agents exchange.
-/
import Mathlib.Logic.Basic
import Mathlib.Data.List.Basic

namespace SmartHome.Lib

/-- How a memory is shared: `ρ` are its resources, `L` is what an agent may be doing. -/
structure Sharing (ρ L M : Type) where
  holds : L → List ρ
  /-- The two memories have the same contents there. -/
  agree : ρ → M → M → Prop
  ok : L → M → Prop
  frame : ∀ {l : L} {m m' : M}, (∀ r ∈ holds l, agree r m m') → ok l m → ok l m'

section Ownership

variable {ι ρ L M : Type} {S : Sharing ρ L M} {g g' : ι → L} {m m' : M}

/-- **Every resource has exactly one holder**, and every agent finds what it relies on. -/
structure Owned (S : Sharing ρ L M) (g : ι → L) (m : M) : Prop where
  held : ∀ r, ∃ i, r ∈ S.holds (g i)
  alone : ∀ {i j : ι} {r : ρ}, r ∈ S.holds (g i) → r ∈ S.holds (g j) → i = j
  ok : ∀ i, S.ok (g i) m

/-- **The agents of `J` redistribute what they hold**, and change nothing else. -/
theorem Owned.exchange (h : Owned S g m) (J : ι → Prop) (hout : ∀ i, ¬ J i → g' i = g i)
    (hmem : ∀ r, (∀ i, J i → r ∉ S.holds (g i)) → S.agree r m m')
    (hkept : ∀ i r, J i → r ∈ S.holds (g i) → ∃ j, J j ∧ r ∈ S.holds (g' j))
    (hfrom : ∀ i r, J i → r ∈ S.holds (g' i) → ∃ j, J j ∧ r ∈ S.holds (g j))
    (halone : ∀ i j r, J i → J j → r ∈ S.holds (g' i) → r ∈ S.holds (g' j) → i = j)
    (hok : ∀ i, J i → S.ok (g' i) m') : Owned S g' m' := by
  -- a holder outside of `J` holds nothing that came out of `J`
  have hcross : ∀ i j r, ¬ J i → J j → r ∈ S.holds (g' i) → r ∉ S.holds (g' j) := by
    intro i j r hi hj hri hrj
    obtain ⟨k, hk, hrk⟩ := hfrom j r hj hrj
    rw [hout i hi] at hri
    exact hi (h.alone hrk hri ▸ hk)
  refine ⟨?_, ?_, ?_⟩
  · intro r
    obtain ⟨i, hri⟩ := h.held r
    by_cases hi : J i
    · obtain ⟨j, -, hrj⟩ := hkept i r hi hri
      exact ⟨j, hrj⟩
    · rw [← hout i hi] at hri
      exact ⟨i, hri⟩
  · intro i j r hri hrj
    by_cases hi : J i
    · by_cases hj : J j
      · exact halone i j r hi hj hri hrj
      · exact absurd hri (hcross j i r hj hi hrj)
    · by_cases hj : J j
      · exact absurd hrj (hcross i j r hi hj hri)
      · rw [hout i hi] at hri
        rw [hout j hj] at hrj
        exact h.alone hri hrj
  · intro i
    by_cases hi : J i
    · exact hok i hi
    · rw [hout i hi]
      refine S.frame ?_ (h.ok i)
      intro r hri
      exact hmem r fun j hj hrj => hi (h.alone hrj hri ▸ hj)

/-- One agent goes on with what it holds. -/
theorem Owned.alter (h : Owned S g m) (i : ι) (hout : ∀ j, j ≠ i → g' j = g j)
    (hmem : ∀ r, r ∉ S.holds (g i) → S.agree r m m') (hholds : ∀ r, r ∈ S.holds (g' i) ↔ r ∈ S.holds (g i))
    (hok : S.ok (g' i) m') : Owned S g' m' := by
  refine h.exchange (· = i) hout (fun r hr => hmem r (hr i rfl)) ?_ ?_ ?_ ?_
  · rintro j r rfl hr
    exact ⟨j, rfl, (hholds r).mpr hr⟩
  · rintro j r rfl hr
    exact ⟨j, rfl, (hholds r).mp hr⟩
  · rintro j k r rfl rfl - -
    rfl
  · rintro j rfl
    exact hok

/-- Two agents exchange what they hold. -/
theorem Owned.give (h : Owned S g m) (i j : ι) (hout : ∀ k, k ≠ i → k ≠ j → g' k = g k)
    (hmem : ∀ r, r ∉ S.holds (g i) → r ∉ S.holds (g j) → S.agree r m m')
    (hholds : ∀ r, r ∈ S.holds (g' i) ∨ r ∈ S.holds (g' j) ↔ r ∈ S.holds (g i) ∨ r ∈ S.holds (g j))
    (hapart : ∀ r, r ∈ S.holds (g' i) → r ∉ S.holds (g' j)) (hi : S.ok (g' i) m') (hj : S.ok (g' j) m') :
    Owned S g' m' := by
  -- whoever of the two holds a resource, one of the two holds it on the other side
  have hone : ∀ {f : ι → L} {k : ι} {r : ρ}, (k = i ∨ k = j) → r ∈ S.holds (f k) →
      r ∈ S.holds (f i) ∨ r ∈ S.holds (f j) := by
    rintro f k r (rfl | rfl) hr
    · exact .inl hr
    · exact .inr hr
  have hsome : ∀ {f : ι → L} {r : ρ}, r ∈ S.holds (f i) ∨ r ∈ S.holds (f j) →
      ∃ k, (k = i ∨ k = j) ∧ r ∈ S.holds (f k) := by
    rintro f r (hr | hr)
    · exact ⟨i, .inl rfl, hr⟩
    · exact ⟨j, .inr rfl, hr⟩
  refine h.exchange (fun k => k = i ∨ k = j) (fun k hk => hout k (hk ∘ .inl) (hk ∘ .inr))
    (fun r hr => hmem r (hr i (.inl rfl)) (hr j (.inr rfl))) (fun k r hk hr => hsome ((hholds r).mpr (hone hk hr)))
    (fun k r hk hr => hsome ((hholds r).mp (hone hk hr))) ?_ ?_
  · rintro k l r (rfl | rfl) (rfl | rfl) hk hl
    · rfl
    · exact absurd hl (hapart r hk)
    · exact absurd hk (hapart r hl)
    · rfl
  · rintro k (rfl | rfl)
    · exact hi
    · exact hj

end Ownership

end SmartHome.Lib
