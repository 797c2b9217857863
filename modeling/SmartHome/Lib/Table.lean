/-
  Subject:   LISTS AS TABLES: look up the first entry that meets a test, change it, remove it.
             Nothing here names a program.

  `List.find?` looks up, `modifyFirst` changes, `List.eraseP` removes, all three the same entry. The
  rest of the table stays as it is, and the lemmas say so for what one reads off a table: a column
  (`map_modifyFirst`, `map_modifyFirst_comm`), a change to another entry (`modifyFirst_comm`), another
  entry (`find?_modifyFirst_of_ne`), the entries of a kind (`filterMap_modifyFirst`,
  `filterMap_modifyFirst_new`, `filterMap_eraseP`), a property of all (`forall_modifyFirst`), a relation
  entry by entry (`forall₂_modifyFirst`, `forall₂_trans`). `nodup_map_concat`, `find?_key`,
  `mem_modifyFirst_key`, `modifyFirst_key`, `set_key` and `find?_eraseP_key` are about a column without
  repeats. `filterMap_range` reads a table by its indices.
-/
import Mathlib.Data.List.Basic
import Mathlib.Data.List.Forall2
import Mathlib.Data.List.Induction
import Mathlib.Data.List.Perm.Basic

namespace SmartHome.Lib

section Table

variable {α β : Type} {p q : α → Bool} {f : α → α} {l : List α}

/-- Change the first entry that meets `p`. -/
def modifyFirst (p : α → Bool) (f : α → α) : List α → List α
  | [] => []
  | x :: l => if p x then f x :: l else x :: modifyFirst p f l

theorem modifyFirst_pos {x : α} (h : p x = true) : modifyFirst p f (x :: l) = f x :: l := if_pos h

theorem modifyFirst_neg {x : α} (h : p x = false) : modifyFirst p f (x :: l) = x :: modifyFirst p f l :=
  if_neg (by rw [h]; exact Bool.false_ne_true)

theorem find?_cons_false {x : α} (h : p x = false) : (x :: l).find? p = l.find? p :=
  List.find?_cons_of_neg (by rw [h]; exact Bool.false_ne_true)

/-- A column the change leaves alone. -/
theorem map_modifyFirst {g : α → β} (h : ∀ x, l.find? p = some x → g (f x) = g x) :
    (modifyFirst p f l).map g = l.map g := by
  induction l with
  | nil => rfl
  | cons y l ih =>
    cases hy : p y with
    | true =>
      rw [modifyFirst_pos hy, List.map_cons, List.map_cons, h y (List.find?_cons_of_pos hy)]
    | false =>
      rw [modifyFirst_neg hy, List.map_cons, List.map_cons, ih]
      exact fun x hx => h x ((find?_cons_false hy).trans hx)

/-- A column the change does change. -/
theorem map_modifyFirst_comm {g : α → β} {r : β → Bool} {h : β → β} (hr : ∀ x, r (g x) = p x)
    (hh : ∀ x, g (f x) = h (g x)) : (modifyFirst p f l).map g = modifyFirst r h (l.map g) := by
  induction l with
  | nil => rfl
  | cons y l ih =>
    cases hy : p y with
    | true => rw [modifyFirst_pos hy, List.map_cons, List.map_cons, modifyFirst_pos ((hr y).trans hy), hh]
    | false => rw [modifyFirst_neg hy, List.map_cons, List.map_cons, modifyFirst_neg ((hr y).trans hy), ih]

/-- Only what happens to the entry that is found matters. -/
theorem modifyFirst_congr_right {g : α → α} (h : ∀ x, l.find? p = some x → f x = g x) :
    modifyFirst p f l = modifyFirst p g l := by
  induction l with
  | nil => rfl
  | cons y l ih =>
    cases hy : p y with
    | true => rw [modifyFirst_pos hy, modifyFirst_pos hy, h y (List.find?_cons_of_pos hy)]
    | false =>
      rw [modifyFirst_neg hy, modifyFirst_neg hy, ih]
      exact fun x hx => h x ((find?_cons_false hy).trans hx)

/-- A change that changes nothing. -/
theorem modifyFirst_id (h : ∀ x, l.find? p = some x → f x = x) : modifyFirst p f l = l := by
  have hid := map_modifyFirst (g := id) h
  rwa [List.map_id, List.map_id] at hid

/-- Two tests that the entries cannot tell apart. -/
theorem modifyFirst_congr (h : ∀ x ∈ l, p x = q x) : modifyFirst p f l = modifyFirst q f l := by
  induction l with
  | nil => rfl
  | cons y l ih =>
    have hy := h y List.mem_cons_self
    have hrest := ih fun x hx => h x (List.mem_cons_of_mem y hx)
    unfold modifyFirst
    rw [hy, hrest]

/-- Two changes, one after the other. -/
theorem modifyFirst_modifyFirst {f' : α → α} (h : ∀ x, p (f x) = p x) :
    modifyFirst p f' (modifyFirst p f l) = modifyFirst p (fun x => f' (f x)) l := by
  induction l with
  | nil => rfl
  | cons y l ih =>
    cases hy : p y with
    | true => rw [modifyFirst_pos hy, modifyFirst_pos hy, modifyFirst_pos ((h y).trans hy)]
    | false => rw [modifyFirst_neg hy, modifyFirst_neg hy, modifyFirst_neg hy, ih]

/-- Changes to two different entries, in either order. -/
theorem modifyFirst_comm {g : α → α} (hp : ∀ x, p (g x) = p x) (hq : ∀ x, q (f x) = q x)
    (hne : ∀ x, p x = true → q x = false) :
    modifyFirst q g (modifyFirst p f l) = modifyFirst p f (modifyFirst q g l) := by
  induction l with
  | nil => rfl
  | cons y l ih =>
    cases hy : p y with
    | true =>
      have hyq := hne y hy
      rw [modifyFirst_pos hy, modifyFirst_neg ((hq y).trans hyq), modifyFirst_neg hyq, modifyFirst_pos hy]
    | false =>
      cases hyq : q y with
      | true =>
        rw [modifyFirst_neg hy, modifyFirst_pos hyq, modifyFirst_pos hyq, modifyFirst_neg ((hp y).trans hy)]
      | false =>
        rw [modifyFirst_neg hy, modifyFirst_neg hyq, modifyFirst_neg hyq, modifyFirst_neg hy, ih]

/-- The entry itself, if it still meets the test. -/
theorem find?_modifyFirst (h : ∀ x, p (f x) = p x) : (modifyFirst p f l).find? p = (l.find? p).map f := by
  induction l with
  | nil => rfl
  | cons y l ih =>
    cases hy : p y with
    | true =>
      rw [modifyFirst_pos hy, List.find?_cons_of_pos (by rw [h]; exact hy), List.find?_cons_of_pos hy]
      rfl
    | false =>
      rw [modifyFirst_neg hy, find?_cons_false hy, find?_cons_false hy, ih]

/-- Another test, which the entry meets neither before nor after. -/
theorem find?_modifyFirst_of_ne (h : ∀ x, l.find? p = some x → q x = false ∧ q (f x) = false) :
    (modifyFirst p f l).find? q = l.find? q := by
  induction l with
  | nil => rfl
  | cons y l ih =>
    cases hy : p y with
    | true =>
      obtain ⟨h1, h2⟩ := h y (List.find?_cons_of_pos hy)
      rw [modifyFirst_pos hy, find?_cons_false h2, find?_cons_false h1]
    | false =>
      have ih' := ih fun x hx => h x ((find?_cons_false hy).trans hx)
      rw [modifyFirst_neg hy, List.find?_cons, List.find?_cons, ih']

/-- The entries of a kind, when the change does not matter to it. -/
theorem filterMap_modifyFirst {g : α → Option β} (h : ∀ x, l.find? p = some x → g (f x) = g x) :
    (modifyFirst p f l).filterMap g = l.filterMap g := by
  have hcolumn : ∀ m : List α, m.filterMap g = (m.map g).filterMap id := by
    intro m
    rw [List.filterMap_map]
    rfl
  rw [hcolumn, hcolumn, map_modifyFirst h]

/-- The entries of a kind, when the change makes one more. -/
theorem filterMap_modifyFirst_new {g : α → Option β} {x : α} {k : β} (hx : l.find? p = some x)
    (hold : g x = none) (hnew : g (f x) = some k) :
    ((modifyFirst p f l).filterMap g).Perm (k :: l.filterMap g) := by
  induction l with
  | nil => exact absurd hx (Option.some_ne_none x).symm
  | cons y l ih =>
    cases hy : p y with
    | true =>
      rw [List.find?_cons_of_pos hy] at hx
      cases hx
      rw [modifyFirst_pos hy, List.filterMap_cons_some hnew, List.filterMap_cons_none hold]
    | false =>
      rw [find?_cons_false hy] at hx
      rw [modifyFirst_neg hy]
      cases hg : g y with
      | none =>
        rw [List.filterMap_cons_none hg, List.filterMap_cons_none hg]
        exact ih hx
      | some b =>
        rw [List.filterMap_cons_some hg, List.filterMap_cons_some hg]
        exact ((ih hx).cons b).trans (List.Perm.swap k b _)

/-- The entries of a kind, when one is removed. -/
theorem filterMap_eraseP {g : α → Option β} {x : α} (hx : l.find? p = some x) :
    (l.filterMap g).Perm ((g x).toList ++ (l.eraseP p).filterMap g) := by
  induction l with
  | nil => exact absurd hx (Option.some_ne_none x).symm
  | cons y l ih =>
    cases hy : p y with
    | true =>
      rw [List.find?_cons_of_pos hy] at hx
      cases hx
      rw [List.eraseP_cons_of_pos hy]
      cases hg : g x with
      | none => rw [List.filterMap_cons_none hg, Option.toList_none, List.nil_append]
      | some b => rw [List.filterMap_cons_some hg, Option.toList_some, List.singleton_append]
    | false =>
      rw [find?_cons_false hy] at hx
      rw [List.eraseP_cons_of_neg (Bool.eq_false_iff.mp hy)]
      cases hg : g y with
      | none =>
        rw [List.filterMap_cons_none hg, List.filterMap_cons_none hg]
        exact ih hx
      | some b =>
        rw [List.filterMap_cons_some hg, List.filterMap_cons_some hg]
        exact ((ih hx).cons b).trans (List.perm_middle.symm)

/-- A column without repeats, with one more entry of a new key. -/
theorem nodup_map_concat {k : α → β} {x : α} (h : (l.map k).Nodup) (hx : k x ∉ l.map k) :
    ((l ++ [x]).map k).Nodup := by
  rw [List.map_append]
  refine List.nodup_append.mpr ⟨h, List.pairwise_singleton _ _, fun a ha b hb hab => hx ?_⟩
  have hb' : b = k x := List.mem_singleton.mp hb
  rw [← hb', ← hab]
  exact ha

/-- In a column without repeats an entry is found by its own key. -/
theorem find?_key [BEq β] [LawfulBEq β] {k : α → β} (h : (l.map k).Nodup) {x : α} (hx : x ∈ l) :
    l.find? (fun y => k y == k x) = some x := by
  induction l with
  | nil => exact absurd hx List.not_mem_nil
  | cons y l ih =>
    rw [List.map_cons, List.nodup_cons] at h
    rcases List.mem_cons.mp hx with rfl | hx
    · exact List.find?_cons_of_pos (p := fun y => k y == k x) (beq_self_eq_true (k x))
    · have hne : ¬ (k y == k x) = true := by
        intro heq
        rw [beq_iff_eq] at heq
        exact h.1 (heq ▸ List.mem_map_of_mem hx)
      rw [List.find?_cons_of_neg (p := fun y => k y == k x) hne]
      exact ih h.2 hx

/-- The entries of a table whose keys are distinct, after a change to the one of key `a`. -/
theorem mem_modifyFirst_key [BEq β] [LawfulBEq β] {k : α → β} {a : β} (h : (l.map k).Nodup)
    {x : α} (hx : x ∈ modifyFirst (fun y => k y == a) f l) :
    (k x ≠ a ∧ x ∈ l) ∨ ∃ y, l.find? (fun y => k y == a) = some y ∧ x = f y := by
  induction l with
  | nil => exact absurd hx List.not_mem_nil
  | cons y l ih =>
    rw [List.map_cons, List.nodup_cons] at h
    by_cases hy : k y = a
    · have hpos : (k y == a) = true := beq_iff_eq.mpr hy
      rw [modifyFirst_pos (p := fun y => k y == a) hpos] at hx
      rcases List.mem_cons.mp hx with rfl | hx
      · exact Or.inr ⟨y, List.find?_cons_of_pos (p := fun y => k y == a) hpos, rfl⟩
      · refine Or.inl ⟨fun hxa => h.1 ?_, List.mem_cons_of_mem y hx⟩
        rw [hy, ← hxa]
        exact List.mem_map_of_mem hx
    · have hneg : (k y == a) = false := beq_eq_false_iff_ne.mpr hy
      rw [modifyFirst_neg (p := fun y => k y == a) hneg] at hx
      rcases List.mem_cons.mp hx with rfl | hx
      · exact Or.inl ⟨hy, List.mem_cons_self⟩
      · rcases ih h.2 hx with ⟨hxa, hx⟩ | ⟨z, hz, rfl⟩
        · exact Or.inl ⟨hxa, List.mem_cons_of_mem y hx⟩
        · exact Or.inr ⟨z, (find?_cons_false (p := fun y => k y == a) hneg).trans hz, rfl⟩

/-- A change to the entries of a key that no entry has. -/
theorem map_key_of_notMem [BEq β] [LawfulBEq β] {k : α → β} {a : β} (h : a ∉ l.map k) :
    (l.map fun y => if k y == a then f y else y) = l := by
  refine (List.map_congr_left fun y hy => if_neg fun heq => h ?_).trans (List.map_id l)
  rw [← beq_iff_eq.mp heq]
  exact List.mem_map_of_mem hy

/-- The entry of a key is the only one. -/
theorem modifyFirst_key [BEq β] [LawfulBEq β] {k : α → β} (h : (l.map k).Nodup) (a : β) :
    modifyFirst (fun y => k y == a) f l = l.map fun y => if k y == a then f y else y := by
  induction l with
  | nil => rfl
  | cons y l ih =>
    rw [List.map_cons, List.nodup_cons] at h
    rw [List.map_cons]
    by_cases hy : k y = a
    · rw [modifyFirst_pos (p := fun y => k y == a) (beq_iff_eq.mpr hy), if_pos (beq_iff_eq.mpr hy),
        map_key_of_notMem (hy ▸ h.1)]
    · rw [modifyFirst_neg (p := fun y => k y == a) (beq_eq_false_iff_ne.mpr hy),
        if_neg fun heq => hy (beq_iff_eq.mp heq), ih h.2]

/-- The same for an entry that is known by its place. -/
theorem set_key [BEq β] [LawfulBEq β] {k : α → β} (h : (l.map k).Nodup) {i : Nat} {x : α} (hx : l[i]? = some x) :
    l.set i (f x) = l.map fun y => if k y == k x then f y else y := by
  induction l generalizing i with
  | nil => exact absurd hx (Option.some_ne_none x).symm
  | cons y l ih =>
    rw [List.map_cons, List.nodup_cons] at h
    rw [List.map_cons]
    cases i with
    | zero =>
      obtain rfl : y = x := Option.some.inj hx
      rw [List.set_cons_zero, if_pos (beq_self_eq_true (k y)), map_key_of_notMem h.1]
    | succ i =>
      rw [List.getElem?_cons_succ] at hx
      have hne : ¬ (k y == k x) = true := fun heq => by
        refine h.1 ?_
        rw [beq_iff_eq.mp heq]
        exact List.mem_map_of_mem (List.mem_of_getElem? hx)
      rw [List.set_cons_succ, if_neg hne, ih h.2 hx]

/-- The entry of a key that was removed is not found. -/
theorem find?_eraseP_key [BEq β] [LawfulBEq β] {k : α → β} (h : (l.map k).Nodup) (a : β) :
    (l.eraseP fun y => k y == a).find? (fun y => k y == a) = none := by
  induction l with
  | nil => rfl
  | cons y l ih =>
    rw [List.map_cons, List.nodup_cons] at h
    by_cases hy : k y = a
    · rw [List.eraseP_cons_of_pos (p := fun y => k y == a) (beq_iff_eq.mpr hy), List.find?_eq_none]
      intro x hx hxa
      refine h.1 ?_
      rw [hy, ← beq_iff_eq.mp hxa]
      exact List.mem_map_of_mem hx
    · have hneg : ¬ (k y == a) = true := fun heq => hy (beq_iff_eq.mp heq)
      rw [List.eraseP_cons_of_neg (p := fun y => k y == a) hneg,
        List.find?_cons_of_neg (p := fun y => k y == a) hneg]
      exact ih h.2

/-- A property of all entries. -/
theorem forall_modifyFirst {P : α → Prop} (hall : ∀ x ∈ l, P x)
    (h : ∀ x, l.find? p = some x → P x → P (f x)) : ∀ x ∈ modifyFirst p f l, P x := by
  induction l with
  | nil => exact hall
  | cons y l ih =>
    cases hy : p y with
    | true =>
      rw [modifyFirst_pos hy]
      intro x hx
      rcases List.mem_cons.mp hx with rfl | hx
      · exact h y (List.find?_cons_of_pos hy) (hall y List.mem_cons_self)
      · exact hall x (List.mem_cons_of_mem y hx)
    | false =>
      rw [modifyFirst_neg hy]
      intro x hx
      rcases List.mem_cons.mp hx with rfl | hx
      · exact hall x List.mem_cons_self
      · refine ih (fun z hz => hall z (List.mem_cons_of_mem y hz)) (fun z hz => ?_) x hx
        exact h z ((find?_cons_false hy).trans hz)

/-- A relation between the entries and what becomes of them. -/
theorem forall₂_modifyFirst {R : α → α → Prop} (hrefl : ∀ x, R x x) (hf : ∀ x, R x (f x)) :
    List.Forall₂ R l (modifyFirst p f l) := by
  induction l with
  | nil => exact .nil
  | cons y l ih =>
    cases hy : p y with
    | true =>
      rw [modifyFirst_pos hy]
      exact .cons (hf y) (List.forall₂_same.2 fun x _ => hrefl x)
    | false =>
      rw [modifyFirst_neg hy]
      exact .cons (hrefl y) ih

theorem forall₂_trans {R : α → α → Prop} (htrans : ∀ x y z, R x y → R y z → R x z) {m n : List α}
    (h : List.Forall₂ R l m) (h' : List.Forall₂ R m n) : List.Forall₂ R l n := by
  induction h generalizing n with
  | nil => exact h'
  | cons hxy _ ih =>
    obtain ⟨z, rest, hyz, hrest, rfl⟩ := List.forall₂_cons_left_iff.1 h'
    exact .cons (htrans _ _ _ hxy hyz) (ih hrest)

/-- A table by its indices. -/
theorem filterMap_range (l : List α) : (List.range l.length).filterMap (fun i => l[i]?) = l := by
  induction l using List.reverseRecOn with
  | nil => rfl
  | append_singleton l x ih =>
    have hfront : (List.range l.length).filterMap (fun i => (l ++ [x])[i]?) =
        (List.range l.length).filterMap fun i => l[i]? :=
      List.filterMap_congr fun i hi => List.getElem?_append_left (List.mem_range.1 hi)
    rw [List.length_append, List.length_singleton, List.range_succ, List.filterMap_append, hfront, ih,
      List.filterMap_cons_some List.getElem?_concat_length, List.filterMap_nil]

end Table

end SmartHome.Lib
