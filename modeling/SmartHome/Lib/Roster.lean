/-
  Subject:   A LIST OF WHO IS THERE AND THE FLAGS THAT SAY SO. Nothing here names a program.

  `here` is the list of who is there, with repeats. Of the keys that are `known`, those that are `on`
  should be the ones that occur, each once. Three kinds of step keep it so: one that changes neither
  list nor flags (but may make keys known), one that joins and sets a flag, one that leaves and clears it.

  * `Counted here known on` -- the list and the flags agree;
  * `Counted.frame`, `Counted.join`, `Counted.leave` -- the steps.
-/
import Mathlib.Data.List.Perm.Basic

namespace SmartHome.Lib

variable {κ : Type} [BEq κ] [LawfulBEq κ] {here here' : List κ} {known known' on on' : κ → Prop} {k : κ}

/-- **The keys on are those that are there**, each once. -/
structure Counted (here : List κ) (known on : κ → Prop) : Prop where
  mem : ∀ k ∈ here, known k
  once : ∀ k, known k → on k → here.count k = 1
  none : ∀ k, known k → ¬ on k → here.count k = 0

theorem Counted.isOn (h : Counted here known on) (hk : k ∈ here) : on k := by
  by_contra hoff
  have hzero := h.none k (h.mem k hk) hoff
  have hpos : 0 < here.count k := List.count_pos_iff.mpr hk
  omega

omit [LawfulBEq κ] in
theorem counted_nil (h : ∀ k, known k → ¬ on k) : Counted [] known on :=
  ⟨fun _ hk => absurd hk List.not_mem_nil, fun k hk hon => absurd hon (h k hk), fun _ _ _ => List.count_nil⟩

/-- Nobody joins or leaves; what becomes known is off. -/
theorem Counted.frame (h : Counted here known on) (hgrows : ∀ k, known k → known' k)
    (hsame : ∀ k, known k → (on' k ↔ on k)) (hadded : ∀ k, known' k → ¬ known k → ¬ on' k)
    (hperm : here.Perm here') : Counted here' known' on' := by
  refine ⟨fun k hk => hgrows k (h.mem k (hperm.mem_iff.mpr hk)), fun k hk hon => ?_, fun k hk hoff => ?_⟩
  · have hold : known k := by
      by_contra hnew
      exact hadded k hk hnew hon
    rw [← hperm.count_eq]
    exact h.once k hold ((hsame k hold).mp hon)
  · rw [← hperm.count_eq]
    by_cases hold : known k
    · exact h.none k hold fun hon => hoff ((hsame k hold).mpr hon)
    · exact List.count_eq_zero.mpr fun hmem => hold (h.mem k hmem)

/-- **One joins** that was off. -/
theorem Counted.join (h : Counted here known on) (hknown : ∀ k, known' k ↔ known k) {a : κ} (ha : known a)
    (hoff : ¬ on a) (hon : on' a) (hsame : ∀ k, k ≠ a → known k → (on' k ↔ on k))
    (hperm : here'.Perm (a :: here)) : Counted here' known' on' := by
  refine ⟨fun k hk => ?_, fun k hk hkon => ?_, fun k hk hkoff => ?_⟩
  · rw [hknown]
    rcases List.mem_cons.mp (hperm.mem_iff.mp hk) with rfl | hk
    · exact ha
    · exact h.mem k hk
  · rw [hknown] at hk
    rw [hperm.count_eq]
    by_cases hka : k = a
    · subst hka
      rw [List.count_cons_self, h.none k hk hoff]
    · rw [List.count_cons_of_ne (Ne.symm hka)]
      exact h.once k hk ((hsame k hka hk).mp hkon)
  · have hka : k ≠ a := by
      rintro rfl
      exact hkoff hon
    rw [hknown] at hk
    rw [hperm.count_eq, List.count_cons_of_ne (Ne.symm hka)]
    exact h.none k hk fun hkon => hkoff ((hsame k hka hk).mpr hkon)

/-- **One leaves**, and its flag is cleared. -/
theorem Counted.leave (h : Counted here known on) (hknown : ∀ k, known' k ↔ known k) {a : κ} (hoff : ¬ on' a)
    (hsame : ∀ k, k ≠ a → known k → (on' k ↔ on k)) (hperm : here.Perm (a :: here')) :
    Counted here' known' on' := by
  have hmem : a ∈ here := hperm.mem_iff.mpr List.mem_cons_self
  refine ⟨fun k hk => (hknown k).mpr (h.mem k (hperm.mem_iff.mpr (List.mem_cons_of_mem a hk))),
    fun k hk hkon => ?_, fun k hk hkoff => ?_⟩
  · rw [hknown] at hk
    have hka : k ≠ a := by
      rintro rfl
      exact hoff hkon
    have hold := h.once k hk ((hsame k hka hk).mp hkon)
    rwa [hperm.count_eq, List.count_cons_of_ne (Ne.symm hka)] at hold
  · rw [hknown] at hk
    by_cases hka : k = a
    · subst hka
      have hold := h.once k hk (h.isOn hmem)
      rw [hperm.count_eq, List.count_cons_self] at hold
      omega
    · have hold := h.none k hk fun hkon => hkoff ((hsame k hka hk).mpr hkon)
      rwa [hperm.count_eq, List.count_cons_of_ne (Ne.symm hka)] at hold

end SmartHome.Lib
