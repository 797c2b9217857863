/-
  Subject:   CUTTING A TEXT INTO PIECES. Nothing here names a program.

  Three ways to cut that a string library offers: at runs of separators, at each separator, and at both
  ends. The pieces between runs of separators are words; `String.split` of Java keeps an empty piece at
  the front if the text begins with a separator, and drops the empty pieces at the end.

  * `words` -- the non-empty pieces; `words_word` takes the first one off;
  * `splitRuns`, `splitEach` -- Java's `split` at a run of separators and at each separator;
  * `splitOn_append` -- the pieces of a text and those of a beginning of it;
  * `trimBy` -- both ends taken off; `trimBy_cut` -- what is left of a text that begins well.
-/
import Mathlib.Data.List.DropRight
import Mathlib.Data.List.TakeWhile

namespace SmartHome.Lib

/-! ## 1. Words -/

section Words

variable {α : Type} {p : α → Bool} {w s : List α}

/-- The pieces between the separators, without the empty ones. -/
def words (p : α → Bool) (s : List α) : List (List α) := (s.splitOnP p).filter fun w => !w.isEmpty

theorem words_nil : words p [] = [] := rfl

theorem words_sep {c : α} (hc : p c = true) (s : List α) : words p (c :: s) = words p s := by
  unfold words
  rw [List.splitOnP_cons_eq_if_modifyHead, if_pos hc]
  rfl

/-- **The first word.** -/
theorem words_word (hw : w ≠ []) (hp : ∀ x ∈ w, p x = false) (hs : ∀ c ∈ s.head?, p c = true) :
    words p (w ++ s) = w :: words p s := by
  have hkept : ∀ vs, (w :: vs).filter (fun w => !w.isEmpty) = w :: vs.filter fun w => !w.isEmpty :=
    fun vs => List.filter_cons_of_pos (by simpa using hw)
  cases s with
  | nil =>
    unfold words
    rw [List.append_nil, List.splitOnP_eq_singleton hp, hkept]
    rfl
  | cons c s =>
    have hc : p c = true := hs c rfl
    rw [words_sep hc]
    unfold words
    rw [List.splitOnP_append_cons_of_forall_mem hp c hc s, hkept]

theorem words_single (hw : w ≠ []) (hp : ∀ x ∈ w, p x = false) : words p w = [w] := by
  have hword := words_word (s := []) hw hp fun c hc => absurd hc (Option.not_mem_none c)
  rw [List.append_nil, words_nil] at hword
  exact hword

theorem forall_mem_splitOnP (s : List α) : ∀ w ∈ s.splitOnP p, ∀ x ∈ w, p x = false := by
  induction s with
  | nil =>
    intro w hw x hx
    rw [List.splitOnP_nil, List.mem_singleton] at hw
    rw [hw] at hx
    exact absurd hx List.not_mem_nil
  | cons c s ih =>
    rw [List.splitOnP_cons_eq_if_modifyHead]
    split
    · intro w hw
      rcases List.mem_cons.mp hw with rfl | hw
      · exact fun x hx => absurd hx List.not_mem_nil
      · exact ih w hw
    · rename_i hc
      -- the first piece has one element more, the others are as they were
      cases hsplit : s.splitOnP p with
      | nil => exact absurd hsplit (List.splitOnP_ne_nil p s)
      | cons v vs =>
        rw [hsplit] at ih
        intro w hw x hx
        rcases List.mem_cons.mp hw with rfl | hw
        · rcases List.mem_cons.mp hx with rfl | hx
          · exact Bool.eq_false_iff.mpr hc
          · exact ih v List.mem_cons_self x hx
        · exact ih w (List.mem_cons_of_mem _ hw) x hx

/-- A word has no separator in it. -/
theorem not_sep_of_mem_words (hw : w ∈ words p s) : ∀ x ∈ w, p x = false :=
  forall_mem_splitOnP s w (List.mem_of_mem_filter hw)

end Words

/-! ## 2. Two ways to split -/

section Split

variable {α : Type} {p : α → Bool} {w s : List α}

/-- `split` at runs of separators. -/
def splitRuns (p : α → Bool) : List α → List (List α)
  | [] => [[]]
  | c :: s =>
    if (words p (c :: s)).isEmpty then []
    else if p c then [] :: words p (c :: s)
    else words p (c :: s)

theorem splitRuns_word (hw : w ≠ []) (hp : ∀ x ∈ w, p x = false) (hs : ∀ c ∈ s.head?, p c = true) :
    splitRuns p (w ++ s) = w :: words p s := by
  have hwords := words_word hw hp hs
  cases w with
  | nil => exact absurd rfl hw
  | cons c w =>
    rw [List.cons_append] at hwords ⊢
    rw [splitRuns, hwords, hp c List.mem_cons_self]
    rfl

/-- A text without a separator is one piece. -/
theorem splitRuns_single (hp : ∀ x ∈ w, p x = false) : splitRuns p w = [w] := by
  cases w with
  | nil => rfl
  | cons c w =>
    rw [splitRuns, words_single (List.cons_ne_nil c w) hp, hp c List.mem_cons_self]
    rfl

variable [DecidableEq α] {c : α}

/-- `split` at each separator. -/
def splitEach (c : α) (s : List α) : List (List α) :=
  if c ∈ s then (s.splitOn c).rdropWhile List.isEmpty else [s]

theorem splitEach_prefix (c : α) (s : List α) : splitEach c s <+: s.splitOn c := by
  unfold splitEach
  split
  · exact List.rdropWhile_prefix _ _
  · rename_i hc
    exact ⟨[], by rw [List.append_nil, List.splitOn_eq_singleton hc]⟩

/-- Nothing is dropped if no piece is empty. -/
theorem splitEach_eq (h : ∀ w ∈ s.splitOn c, w ≠ []) : splitEach c s = s.splitOn c := by
  unfold splitEach
  split
  · refine List.rdropWhile_eq_self_iff.mpr fun hne hempty => ?_
    exact h _ (List.getLast_mem hne) (List.isEmpty_iff.mp hempty)
  · rename_i hc
    exact (List.splitOn_eq_singleton hc).symm

theorem length_splitOn (c : α) (s : List α) : (s.splitOn c).length = s.count c + 1 := by
  induction s with
  | nil => rfl
  | cons x s ih =>
    rw [List.splitOn_cons_eq_if_modifyHead, List.count_cons]
    split
    · rw [List.length_cons, ih]
    · rw [List.length_modifyHead, ih]

/-- The pieces of a text and those of a beginning of it: the last of these goes on. -/
theorem splitOn_append {v r : List α} (hr : c ∉ r) :
    ∃ vs last, v.splitOn c = vs ++ [last] ∧ (v ++ r).splitOn c = vs ++ [last ++ r] := by
  by_cases hv : c ∈ v
  · obtain ⟨a, b, heq, ha⟩ := List.eq_append_cons_of_mem (List.mem_reverse.mpr hv)
    -- cut at the last separator
    have hcut : v = b.reverse ++ c :: a.reverse := by
      have hrev := congrArg List.reverse heq
      rw [List.reverse_reverse, List.reverse_append, List.reverse_cons, List.append_assoc] at hrev
      exact hrev
    have ha : c ∉ a.reverse := fun h => ha (List.mem_reverse.mp h)
    have har : c ∉ a.reverse ++ r := fun h => (List.mem_append.mp h).elim ha hr
    refine ⟨b.reverse.splitOn c, a.reverse, ?_, ?_⟩
    · rw [hcut, List.splitOn_append_cons_self, List.splitOn_eq_singleton ha]
    · rw [hcut, List.append_assoc, List.cons_append, List.splitOn_append_cons_self, List.splitOn_eq_singleton har]
  · have hvr : c ∉ v ++ r := fun h => (List.mem_append.mp h).elim hv hr
    exact ⟨[], v, List.splitOn_eq_singleton hv, List.splitOn_eq_singleton hvr⟩

end Split

/-! ## 3. Trimming -/

section Trim

variable {α : Type} {q : α → Bool} {s : List α}

/-- Both ends taken off. -/
def trimBy (q : α → Bool) (s : List α) : List α := (s.dropWhile q).rdropWhile q

theorem mem_of_mem_trimBy {x : α} (h : x ∈ trimBy q s) : x ∈ s :=
  (List.dropWhile_sublist q).mem ((List.rdropWhile_prefix q _).mem h)

theorem trimBy_eq_self (h : ∀ x ∈ s, q x = false) : trimBy q s = s := by
  have hfront : s.dropWhile q = s := by
    cases s with
    | nil => rfl
    | cons x s => rw [List.dropWhile_cons_of_neg (by rw [h x List.mem_cons_self]; exact Bool.false_ne_true)]
  unfold trimBy
  rw [hfront]
  refine List.rdropWhile_eq_self_iff.mpr fun hne => ?_
  rw [h _ (List.getLast_mem hne)]
  exact Bool.false_ne_true

theorem length_trimBy_le (q : α → Bool) (s : List α) : (trimBy q s).length ≤ s.length :=
  Nat.le_trans (List.rdropWhile_prefix q _).length_le (List.dropWhile_sublist q).length_le

/-- A text that begins well is only cut at its end. -/
theorem trimBy_cut {x : α} (hx : q x = false) (s : List α) :
    ∃ v u, trimBy q (x :: s) = x :: v ∧ s = v ++ u ∧ ∀ c ∈ u.head?, q c = true := by
  have hneg : ¬ q x = true := by rw [hx]; exact Bool.false_ne_true
  have hcut := List.rdropWhile_append_rtakeWhile (p := q) (l := x :: s)
  unfold trimBy
  rw [List.dropWhile_cons_of_neg hneg]
  cases hkept : (x :: s).rdropWhile q with
  | nil =>
    have hall := List.rdropWhile_eq_nil_iff.mp hkept
    exact absurd (hall x List.mem_cons_self) hneg
  | cons y v =>
    rw [hkept, List.cons_append] at hcut
    obtain ⟨rfl, hs⟩ := List.cons.inj hcut
    refine ⟨v, _, rfl, hs.symm, fun c hc => ?_⟩
    exact List.mem_rtakeWhile_imp (List.mem_of_mem_head? hc)

/-- The end that is taken off is behind the last element that stays. -/
theorem rdropWhile_append_cons {x : α} (hx : q x = false) (l t : List α) :
    (l ++ x :: t).rdropWhile q = l ++ x :: t.rdropWhile q := by
  have hback : (x :: l.reverse).dropWhile q = x :: l.reverse := List.dropWhile_cons_of_neg (by simp [hx])
  unfold List.rdropWhile
  rw [List.reverse_append, List.reverse_cons, List.append_assoc, List.singleton_append, List.dropWhile_append]
  split
  · rename_i hempty
    rw [hback, List.isEmpty_iff.1 hempty]
    simp
  · simp

/-- A text that begins well and has an element that stays. -/
theorem trimBy_append_cons {x y : α} (hx : q x = false) (hy : q y = false) (l t : List α) :
    trimBy q (x :: l ++ y :: t) = x :: l ++ y :: t.rdropWhile q := by
  unfold trimBy
  rw [List.cons_append, List.dropWhile_cons_of_neg (by simp [hx]), ← List.cons_append, rdropWhile_append_cons hy]

theorem trimBy_trimBy (q : α → Bool) (s : List α) : trimBy q (trimBy q s) = trimBy q s := by
  have hfront : (trimBy q s).dropWhile q = trimBy q s := by
    unfold trimBy
    rcases hcut : (s.dropWhile q).rdropWhile q with _ | ⟨x, t⟩
    · rfl
    · have hx : q x = false := by
        have hhead := List.head?_dropWhile_not q s
        have hpre := List.rdropWhile_prefix q (s.dropWhile q)
        rw [hcut] at hpre
        obtain ⟨u, hu⟩ := hpre
        rw [← hu] at hhead
        simpa using hhead
      exact List.dropWhile_cons_of_neg (by simp [hx])
  have hidem : (trimBy q s).rdropWhile q = trimBy q s := List.rdropWhile_idempotent q _
  rw [trimBy, hfront, hidem]

end Trim

end SmartHome.Lib
