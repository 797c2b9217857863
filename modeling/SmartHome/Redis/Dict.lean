/-
  Subject:   THE HASH TABLE (dict.c): two tables of chains, entries moving from the first to the second.

  A full table is not rehashed at once. A second one of twice the size is made, and every lookup and every
  insertion moves one chain; new entries go into the second table. When the first is empty the second takes
  its place. So an entry is in one of two tables, and which one changes even by looking it up.

  * `DictType`, `Dictht`, `Dict`, `dictRehash`, `dictExpand`, `dictFind`, `dictAdd` -- the source, for what the
    accounts need: nothing is deleted. Allocation succeeds, and the guard of `_dictNextPower` for sizes from
    `LONG_MAX` on is left out, since no table has so many entries;
  * `Dict.WF` -- every entry is in its chain, no two keys compare equal, and what was moved is gone;
  * `dictRehash_spec`, `dictFind_spec`, `dictAdd_spec` -- what each function does to the entries, as a whole:
    moving changes their order only.
-/
import Mathlib.Data.List.Pairwise
import SmartHome.Lib.Buckets

namespace SmartHome.Redis

open SmartHome.Lib

/-! ## 1. The source -/

/-- `dictType`: how keys are hashed and compared. Keys that compare equal hash equal. -/
structure DictType (K : Type) where
  hashFunction : K → UInt32
  keyCompare : K → K → Bool
  equivalence : Equivalence fun a b => keyCompare a b = true
  hash_eq : ∀ {a b : K}, keyCompare a b = true → hashFunction a = hashFunction b

/-- `dictht`: the chains, none for `NULL`. -/
structure Dictht (K V : Type) where
  table : List (List (K × V))
  used : Nat

/-- `dict`; `rehashidx` is -1 while nothing moves. -/
structure Dict (K V : Type) where
  ht0 : Dictht K V
  ht1 : Dictht K V
  rehashidx : Option Nat
  iterators : Nat

section Source

variable {K V : Type}

/-- `_dictReset`. -/
def Dictht.reset : Dictht K V := ⟨[], 0⟩

/-- `dictCreate`. -/
def dictCreate : Dict K V := ⟨.reset, .reset, none, 0⟩

def Dictht.size (t : Dictht K V) : Nat := t.table.length

def Dictht.sizemask (t : Dictht K V) : Nat := t.size - 1

/-- `_dictNextPower`: from `DICT_HT_INITIAL_SIZE` on. -/
def dictNextPower (size : Nat) : Nat := doubleTo size size 4

/-- `dictExpand`; `none` is `DICT_ERR`. -/
def dictExpand (d : Dict K V) (size : Nat) : Option (Dict K V) :=
  if d.rehashidx.isSome ∨ size < d.ht0.used then none
  else
    let n : Dictht K V := ⟨List.replicate (dictNextPower size) [], 0⟩
    if d.ht0.table = [] then some { d with ht0 := n } else some { d with ht1 := n, rehashidx := some 0 }

/-- `_dictExpandIfNeeded`; `canResize` is `dict_can_resize`. -/
def dictExpandIfNeeded (canResize : Bool) (d : Dict K V) : Option (Dict K V) :=
  if d.rehashidx.isSome then some d
  else if d.ht0.size = 0 then dictExpand d 4
  else if d.ht0.size ≤ d.ht0.used ∧ (canResize = true ∨ 5 < d.ht0.used / d.ht0.size) then dictExpand d (d.ht0.used * 2)
  else some d

variable (type : DictType K)

/-- The chain of a key. -/
def Dictht.idx (t : Dictht K V) (key : K) : Nat := (type.hashFunction key).toNat &&& t.sizemask

/-- The loop over a chain. -/
def Dictht.search (t : Dictht K V) (key : K) : Option (K × V) :=
  (t.table.getD (t.idx type key) []).find? fun he => type.keyCompare key he.1

/-- An entry more, at the head of its chain. -/
def Dictht.insert (t : Dictht K V) (e : K × V) : Dictht K V := ⟨push t.table (t.idx type e.1) e, t.used + 1⟩

/-- The loop of `dictRehash` over the chain that moves. -/
def moveChain : List (K × V) → Dictht K V × Dictht K V → Dictht K V × Dictht K V
  | [], p => p
  | de :: rest, p => moveChain rest ({ p.1 with used := p.1.used - 1 }, p.2.insert type de)

/-- The first chain from `rehashidx` on that is not `NULL`. -/
def nextChain (t : Dictht K V) (rehashidx : Nat) : Nat :=
  rehashidx + (t.table.drop rehashidx).findIdx fun chain => !chain.isEmpty

/-- A chain moves. -/
def moveNext (d : Dict K V) (i : Nat) : Dict K V :=
  let p := moveChain type (d.ht0.table.getD i []) (d.ht0, d.ht1)
  { d with ht0 := ⟨p.1.table.set i [], p.1.used⟩, ht1 := p.2, rehashidx := some (i + 1) }

/-- `dictRehash`, one step. -/
def dictRehash (d : Dict K V) : Dict K V :=
  match d.rehashidx with
  | none => d
  | some rehashidx =>
    if d.ht0.used = 0 then { d with ht0 := d.ht1, ht1 := .reset, rehashidx := none }
    else moveNext type d (nextChain d.ht0 rehashidx)

/-- `_dictRehashStep`, where something moves. -/
def dictRehashStep (d : Dict K V) : Dict K V :=
  if d.rehashidx.isSome ∧ d.iterators = 0 then dictRehash type d else d

/-- Both tables, the second only while something moves. -/
def searchBoth (d : Dict K V) (key : K) : Option (K × V) :=
  match d.ht0.search type key with
  | some he => some he
  | none => if d.rehashidx.isSome then d.ht1.search type key else none

/-- `dictFind`. -/
def dictFind (d : Dict K V) (key : K) : Option (K × V) × Dict K V :=
  if d.ht0.size = 0 then (none, d) else (searchBoth type (dictRehashStep type d) key, dictRehashStep type d)

/-- `dictFetchValue`. -/
def dictFetchValue (d : Dict K V) (key : K) : Option V × Dict K V :=
  ((dictFind type d key).1.map Prod.snd, (dictFind type d key).2)

/-- The new entry of `dictAddRaw`, in the second table while something moves. -/
def dictInsert (d : Dict K V) (e : K × V) : Dict K V :=
  if d.rehashidx.isSome then { d with ht1 := d.ht1.insert type e } else { d with ht0 := d.ht0.insert type e }

/-- `dictAdd`: whether it returns `DICT_OK`, and the dictionary. -/
def dictAdd (canResize : Bool) (d : Dict K V) (key : K) (val : V) : Bool × Dict K V :=
  match dictExpandIfNeeded canResize (dictRehashStep type d) with
  | none => (false, dictRehashStep type d)
  | some d =>
    if (searchBoth type d key).isSome then (false, d) else (true, dictInsert type d (key, val))

end Source

/-! ## 2. One table -/

section Table

variable {K V : Type} {type : DictType K} {t : Dictht K V}

/-- **A table in order**: `used` counts the entries, there is a power of two of chains or none, and every entry is
    in its chain. -/
structure Dictht.WF (type : DictType K) (t : Dictht K V) : Prop where
  used : t.used = t.table.flatten.length
  size : t.table = [] ∨ t.size.isPowerOfTwo
  placed : Placed (fun e => t.idx type e.1) t.table

theorem Dictht.wf_reset : (Dictht.reset : Dictht K V).WF type :=
  ⟨rfl, .inl rfl, fun _ _ he => absurd he List.not_mem_nil⟩

theorem Dictht.wf_new (size : Nat) :
    Dictht.WF type (⟨List.replicate (dictNextPower size) [], 0⟩ : Dictht K V) ∧
      List.replicate (dictNextPower size) ([] : List (K × V)) ≠ [] := by
  have hpower : (dictNextPower size).isPowerOfTwo := doubleTo_isPowerOfTwo size ⟨2, rfl⟩
  refine ⟨⟨?_, .inr ?_, placed_replicate _⟩, fun h => ?_⟩
  · rw [List.flatten_replicate_nil]
    rfl
  · rw [Dictht.size, List.length_replicate]
    exact hpower
  · have hlen := congrArg List.length h
    rw [List.length_replicate] at hlen
    exact absurd hlen (Nat.ne_of_gt (Nat.pos_of_isPowerOfTwo hpower))

theorem Dictht.WF.idx_lt (h : t.WF type) (hne : t.table ≠ []) (key : K) : t.idx type key < t.table.length := by
  obtain ⟨n, hn⟩ := h.size.resolve_left hne
  rw [Dictht.idx, Dictht.sizemask, hn, Nat.and_two_pow_sub_one_eq_mod, ← show t.size = t.table.length from rfl, hn]
  exact Nat.mod_lt _ (Nat.two_pow_pos n)

/-- Looking through the chain of a key is looking through the table. -/
theorem Dictht.WF.search_eq (h : t.WF type) (key : K) :
    t.search type key = t.table.flatten.find? fun he => type.keyCompare key he.1 := by
  refine (find?_flatten h.placed fun e he => ?_).symm
  show t.idx type e.1 = t.idx type key
  rw [Dictht.idx, Dictht.idx, type.hash_eq he]

/-- **An entry more.** -/
theorem Dictht.WF.insert (h : t.WF type) (hne : t.table ≠ []) (e : K × V) :
    (t.insert type e).WF type ∧ (t.insert type e).table ≠ [] ∧
      (t.insert type e).table.flatten.Perm (e :: t.table.flatten) := by
  have hidx := h.idx_lt hne e.1
  have hlen : (t.insert type e).table.length = t.table.length := length_push _ _ _
  have hperm : (t.insert type e).table.flatten.Perm (e :: t.table.flatten) := flatten_push hidx e
  have hsame : ∀ key, (t.insert type e).idx type key = t.idx type key := fun key => by
    rw [Dictht.idx, Dictht.idx, Dictht.sizemask, Dictht.sizemask, Dictht.size, Dictht.size, hlen]
  refine ⟨⟨?_, ?_, ?_⟩, ?_, hperm⟩
  · show t.used + 1 = _
    rw [hperm.length_eq, List.length_cons, h.used]
  · right
    rw [Dictht.size, hlen]
    exact h.size.resolve_left hne
  · have hplaced := placed_push h.placed hidx
    intro i x hx
    exact (hsame x.1).trans (hplaced i x hx)
  · intro hnil
    rw [hnil] at hlen
    exact hne (List.length_eq_zero_iff.1 hlen.symm)

end Table

/-! ## 3. Both tables -/

section Both

variable {K V : Type} {type : DictType K} {d : Dict K V}

/-- All entries. -/
def Dict.entries (d : Dict K V) : List (K × V) := d.ht0.table.flatten ++ d.ht1.table.flatten

/-- No two keys compare equal. -/
def Distinct (type : DictType K) (es : List (K × V)) : Prop := es.Pairwise fun a b => type.keyCompare a.1 b.1 = false

/-- **A dictionary in order**: while nothing moves the second table is not there; while something moves both are, and
    the chains before `rehashidx` are empty. -/
structure Dict.WF (type : DictType K) (d : Dict K V) : Prop where
  ht0 : d.ht0.WF type
  ht1 : d.ht1.WF type
  still : d.rehashidx = none → d.ht1 = .reset
  moving : ∀ i, d.rehashidx = some i → d.ht0.table ≠ [] ∧ d.ht1.table ≠ [] ∧ ∀ j < i, d.ht0.table.getD j [] = []
  distinct : Distinct type d.entries

theorem keyCompare_comm (type : DictType K) (a b : K) : type.keyCompare a b = type.keyCompare b a :=
  Bool.eq_iff_iff.2 ⟨type.equivalence.symm, type.equivalence.symm⟩

instance (type : DictType K) : Std.Symm fun a b : K × V => type.keyCompare a.1 b.1 = false where
  symm a b h := (keyCompare_comm type b.1 a.1).trans h

theorem Distinct.perm {es es' : List (K × V)} (h : Distinct type es) (hperm : es.Perm es') : Distinct type es' :=
  (hperm.pairwise_iff fun hxy => (keyCompare_comm type _ _).trans hxy).1 h

/-- Among distinct keys one at most compares equal to a key. -/
theorem Distinct.unique {es : List (K × V)} (h : Distinct type es) (key : K) :
    ∀ a ∈ es, ∀ b ∈ es, type.keyCompare key a.1 = true → type.keyCompare key b.1 = true → a = b := by
  intro a ha b hb hka hkb
  by_contra hab
  have hne := List.Pairwise.forall h ha hb hab
  rw [type.equivalence.trans (type.equivalence.symm hka) hkb] at hne
  exact absurd hne Bool.false_ne_true.symm

/-- The chain that moves. -/
theorem moveChain_spec (chain : List (K × V)) (p : Dictht K V × Dictht K V) (h : p.2.WF type) (hne : p.2.table ≠ []) :
    (moveChain type chain p).1 = ⟨p.1.table, p.1.used - chain.length⟩ ∧ (moveChain type chain p).2.WF type ∧
      (moveChain type chain p).2.table ≠ [] ∧
      (moveChain type chain p).2.table.flatten.Perm (chain ++ p.2.table.flatten) := by
  induction chain generalizing p with
  | nil => exact ⟨rfl, h, hne, .refl _⟩
  | cons de rest ih =>
    obtain ⟨hwf, hne', hperm⟩ := h.insert hne de
    obtain ⟨hfirst, hwf', hne'', hperm'⟩ := ih ({ p.1 with used := p.1.used - 1 }, p.2.insert type de) hwf hne'
    rw [moveChain]
    refine ⟨?_, hwf', hne'', hperm'.trans ((hperm.append_left rest).trans List.perm_middle)⟩
    rw [hfirst, List.length_cons, Nat.sub_sub, Nat.add_comm 1]

/-- There is a chain to move while there are entries, and none before it. -/
theorem nextChain_spec (h : d.WF type) {i : Nat} (hi : d.rehashidx = some i) (hused : d.ht0.used ≠ 0) :
    nextChain d.ht0 i < d.ht0.table.length ∧ ∀ j < nextChain d.ht0 i, d.ht0.table.getD j [] = [] := by
  obtain ⟨-, -, hbefore⟩ := h.moving i hi
  have hfull : ∃ chain ∈ d.ht0.table.drop i, (!chain.isEmpty) = true := by
    have hpos : 0 < d.ht0.table.flatten.length := Nat.pos_of_ne_zero (h.ht0.used ▸ hused)
    obtain ⟨e, he⟩ := List.exists_mem_of_length_pos hpos
    obtain ⟨chain, hchain, hmem⟩ := List.mem_flatten.1 he
    obtain ⟨j, hj, rfl⟩ := List.mem_iff_getElem.1 hchain
    have hji : i ≤ j := by
      by_contra hlt
      have hnil := hbefore j (Nat.lt_of_not_le hlt)
      rw [List.getD_eq_getElem _ _ hj] at hnil
      rw [hnil] at hmem
      exact absurd hmem List.not_mem_nil
    refine ⟨d.ht0.table[j], ?_, ?_⟩
    · rw [List.mem_drop_iff_getElem]
      exact ⟨j - i, by omega, by simp [Nat.add_sub_of_le hji]⟩
    · rw [Bool.not_eq_true', List.isEmpty_eq_false_iff]
      exact List.ne_nil_of_mem hmem
  have hfound := List.findIdx_lt_length.2 hfull
  refine ⟨?_, fun j hj => ?_⟩
  · rw [List.length_drop] at hfound
    unfold nextChain
    omega
  · by_cases hji : j < i
    · exact hbefore j hji
    · have hlt : j - i < (d.ht0.table.drop i).findIdx fun chain => !chain.isEmpty := by
        unfold nextChain at hj
        omega
      have hnot := List.not_of_lt_findIdx hlt
      rw [Bool.not_eq_false', List.isEmpty_iff, List.getElem_drop] at hnot
      rw [List.length_drop] at hfound
      rw [List.getD_eq_getElem _ _ (by omega)]
      simpa [Nat.add_sub_of_le (Nat.le_of_not_lt hji)] using hnot

/-- **A chain moves to the other table.** -/
theorem moveNext_spec (h : d.WF type) {i : Nat} (hne1 : d.ht1.table ≠ []) (hi : i < d.ht0.table.length)
    (hbefore : ∀ j < i, d.ht0.table.getD j [] = []) :
    (moveNext type d i).WF type ∧ (moveNext type d i).entries.Perm d.entries := by
  obtain ⟨hfirst, hwf, hne, hperm⟩ := moveChain_spec (d.ht0.table.getD i []) (d.ht0, d.ht1) h.ht1 hne1
  have hsplit := flatten_perm hi
  have htable : (moveNext type d i).ht0.table = d.ht0.table.set i [] := by
    rw [moveNext, hfirst]
  have hused : (moveNext type d i).ht0.used = d.ht0.used - (d.ht0.table.getD i []).length := by
    rw [moveNext, hfirst]
  have hentries : (moveNext type d i).entries.Perm d.entries := by
    rw [Dict.entries, htable]
    refine (hperm.append_left _).trans ?_
    rw [← List.append_assoc]
    exact (List.perm_append_comm.trans hsplit.symm).append_right _
  have hlen : (d.ht0.table.set i []).length = d.ht0.table.length := List.length_set
  refine ⟨⟨⟨?_, ?_, ?_⟩, hwf, fun hc => absurd hc (Option.some_ne_none _), ?_, h.distinct.perm hentries.symm⟩, hentries⟩
  · have hcount := hsplit.length_eq
    rw [List.length_append] at hcount
    rw [hused, htable, h.ht0.used]
    omega
  · rw [Dictht.size, htable, hlen]
    refine h.ht0.size.imp (fun hnil => ?_) fun hn => hn
    rw [hnil] at hi
    exact absurd hi (Nat.not_lt_zero i)
  · have hplaced := placed_set_nil h.ht0.placed hi
    have hsame : ∀ key, (moveNext type d i).ht0.idx type key = d.ht0.idx type key := fun key => by
      rw [Dictht.idx, Dictht.idx, Dictht.sizemask, Dictht.sizemask, Dictht.size, Dictht.size, htable, hlen]
    rw [htable]
    exact fun j x hx => (hsame x.1).trans (hplaced j x hx)
  · intro i' hi'
    have hi' : i + 1 = i' := Option.some.inj hi'
    refine ⟨?_, hne, fun j hj => ?_⟩
    · rw [htable]
      intro hnil
      rw [hnil] at hlen
      rw [← hlen] at hi
      exact absurd hi (Nat.not_lt_zero i)
    · rw [htable, getD_set _ _ _ _ hi]
      split
      · rfl
      · exact hbefore j (by omega)

/-- **A step of rehashing changes the order of the entries only.** -/
theorem dictRehash_spec (h : d.WF type) : (dictRehash type d).WF type ∧ (dictRehash type d).entries.Perm d.entries := by
  unfold dictRehash
  split
  · exact ⟨h, .refl _⟩
  · rename_i i hi
    obtain ⟨hne0, hne1, hbefore⟩ := h.moving i hi
    by_cases hused : d.ht0.used = 0
    · rw [if_pos hused]
      have hnil : d.ht0.table.flatten = [] := List.length_eq_zero_iff.1 (h.ht0.used ▸ hused)
      have hsame : Dict.entries { d with ht0 := d.ht1, ht1 := .reset, rehashidx := none } = d.entries := by
        show d.ht1.table.flatten ++ [] = d.ht0.table.flatten ++ d.ht1.table.flatten
        rw [hnil, List.append_nil, List.nil_append]
      refine ⟨⟨h.ht1, Dictht.wf_reset, fun _ => rfl, fun j hj => absurd hj (Option.some_ne_none j).symm, ?_⟩, ?_⟩
      · rw [hsame]
        exact h.distinct
      · rw [hsame]
    · rw [if_neg hused]
      obtain ⟨hlt, hempty⟩ := nextChain_spec h hi hused
      exact moveNext_spec h hne1 hlt hempty

theorem dictRehashStep_spec (h : d.WF type) :
    (dictRehashStep type d).WF type ∧ (dictRehashStep type d).entries.Perm d.entries := by
  unfold dictRehashStep
  split
  · exact dictRehash_spec h
  · exact ⟨h, .refl _⟩

/-- Looking through both tables is looking through all entries. -/
theorem searchBoth_eq (h : d.WF type) (key : K) :
    searchBoth type d key = d.entries.find? fun he => type.keyCompare key he.1 := by
  rw [searchBoth, Dict.entries, List.find?_append, ← h.ht0.search_eq, ← h.ht1.search_eq]
  cases d.ht0.search type key with
  | some he => rfl
  | none =>
    rw [Option.none_or]
    cases hi : d.rehashidx with
    | some i => rfl
    | none =>
      rw [h.still hi]
      rfl

/-- **`dictFind` finds the entry whose key compares equal**, and moves some. -/
theorem dictFind_spec (h : d.WF type) (key : K) :
    (dictFind type d key).1 = (d.entries.find? fun he => type.keyCompare key he.1) ∧ (dictFind type d key).2.WF type ∧
      (dictFind type d key).2.entries.Perm d.entries := by
  unfold dictFind
  split
  · rename_i hsize
    refine ⟨?_, h, .refl _⟩
    -- without a first table there is no second
    have hnil : d.ht0.table = [] := List.length_eq_zero_iff.1 hsize
    have hstill : d.rehashidx = none := by
      cases hi : d.rehashidx with
      | none => rfl
      | some i => exact absurd hnil (h.moving i hi).1
    rw [Dict.entries, hnil, h.still hstill]
    rfl
  · obtain ⟨hwf, hperm⟩ := dictRehashStep_spec h
    refine ⟨?_, hwf, hperm⟩
    rw [searchBoth_eq hwf]
    exact find?_perm hperm (hwf.distinct.unique key)

/-- `dictExpand`, as `_dictExpandIfNeeded` calls it. -/
theorem dictExpand_spec (h : d.WF type) (hstill : d.rehashidx = none) {size : Nat} (hsize : d.ht0.used ≤ size) :
    ∃ d', dictExpand d size = some d' ∧ d'.WF type ∧ d'.entries = d.entries ∧ d'.ht0.table ≠ [] := by
  obtain ⟨hnew, hne⟩ := @Dictht.wf_new K V type size
  have hnil : (List.replicate (dictNextPower size) ([] : List (K × V))).flatten = [] := List.flatten_replicate_nil
  have hno : ¬(d.rehashidx.isSome = true ∨ size < d.ht0.used) := by
    rw [hstill]
    rintro (hc | hc)
    · exact absurd hc Bool.false_ne_true
    · omega
  rw [dictExpand, if_neg hno]
  by_cases htable : d.ht0.table = []
  · have hentries : Dict.entries { d with ht0 := ⟨List.replicate (dictNextPower size) [], 0⟩ } = d.entries := by
      rw [Dict.entries, Dict.entries, hnil, htable, List.flatten_nil]
    refine ⟨_, if_pos htable, ⟨hnew, h.ht1, h.still, fun i hi => ?_, ?_⟩, hentries, hne⟩
    · exact absurd (hstill.symm.trans hi) (Option.some_ne_none i).symm
    · rw [hentries]
      exact h.distinct
  · have hentries :
        Dict.entries { d with ht1 := ⟨List.replicate (dictNextPower size) [], 0⟩, rehashidx := some 0 } =
          d.entries := by
      rw [Dict.entries, Dict.entries, hnil, h.still hstill]
      rfl
    refine ⟨_, if_neg htable, ⟨h.ht0, hnew, fun hc => absurd hc (Option.some_ne_none 0), fun i hi => ?_, ?_⟩,
      hentries, htable⟩
    · refine ⟨htable, hne, fun j hj => ?_⟩
      rw [← Option.some.inj hi] at hj
      exact absurd hj (Nat.not_lt_zero j)
    · rw [hentries]
      exact h.distinct

/-- **There is a table to insert into**: `_dictExpandIfNeeded` does not fail. -/
theorem dictExpandIfNeeded_spec (h : d.WF type) (canResize : Bool) :
    ∃ d', dictExpandIfNeeded canResize d = some d' ∧ d'.WF type ∧ d'.entries = d.entries ∧ d'.ht0.table ≠ [] := by
  unfold dictExpandIfNeeded
  cases hi : d.rehashidx with
  | some i => exact ⟨d, rfl, h, rfl, (h.moving i hi).1⟩
  | none =>
    rw [if_neg (by exact Bool.false_ne_true)]
    by_cases hsize : d.ht0.size = 0
    · have hnil : d.ht0.table = [] := List.length_eq_zero_iff.1 hsize
      rw [if_pos hsize]
      refine dictExpand_spec h hi ?_
      rw [h.ht0.used, hnil]
      exact Nat.zero_le _
    · rw [if_neg hsize]
      split
      · exact dictExpand_spec h hi (Nat.le_mul_of_pos_right _ Nat.two_pos)
      · exact ⟨d, rfl, h, rfl, fun hc => hsize (List.length_eq_zero_iff.2 hc)⟩

/-- An entry more in either table. -/
theorem dictInsert_spec (h : d.WF type) (hne : d.ht0.table ≠ []) {e : K × V}
    (hnew : ∀ x ∈ d.entries, type.keyCompare e.1 x.1 = false) :
    (dictInsert type d e).WF type ∧ (dictInsert type d e).entries.Perm (e :: d.entries) := by
  have hdistinct : Distinct type (e :: d.entries) := List.pairwise_cons.2 ⟨hnew, h.distinct⟩
  unfold dictInsert
  split
  · rename_i hsome
    obtain ⟨i, hi⟩ := Option.isSome_iff_exists.1 hsome
    obtain ⟨hne0, hne1, -⟩ := h.moving i hi
    obtain ⟨hwf, hne1', hperm⟩ := h.ht1.insert hne1 e
    have hentries : Dict.entries { d with ht1 := d.ht1.insert type e } |>.Perm (e :: d.entries) :=
      (hperm.append_left _).trans List.perm_middle
    exact ⟨⟨h.ht0, hwf, fun hc => absurd (hi.symm.trans hc) (Option.some_ne_none i),
      fun j hj => ⟨hne0, hne1', (h.moving j hj).2.2⟩, hdistinct.perm hentries.symm⟩, hentries⟩
  · rename_i hnone
    have hstill : d.rehashidx = none := Option.not_isSome_iff_eq_none.1 hnone
    obtain ⟨hwf, -, hperm⟩ := h.ht0.insert hne e
    have hentries : Dict.entries { d with ht0 := d.ht0.insert type e } |>.Perm (e :: d.entries) := hperm.append_right _
    exact ⟨⟨hwf, h.ht1, h.still, fun j hj => absurd (hstill.symm.trans hj) (Option.some_ne_none j).symm,
      hdistinct.perm hentries.symm⟩, hentries⟩

/-- **`dictAdd` adds the entry**, where no key compares equal. -/
theorem dictAdd_spec (h : d.WF type) (canResize : Bool) {key : K}
    (hnew : ∀ x ∈ d.entries, type.keyCompare key x.1 = false) (val : V) :
    (dictAdd type canResize d key val).1 = true ∧ (dictAdd type canResize d key val).2.WF type ∧
      (dictAdd type canResize d key val).2.entries.Perm ((key, val) :: d.entries) := by
  obtain ⟨hstep, hperm⟩ := dictRehashStep_spec h
  obtain ⟨d', hexpand, hwf, hentries, hne⟩ := dictExpandIfNeeded_spec hstep canResize
  have hnew' : ∀ x ∈ d'.entries, type.keyCompare key x.1 = false := fun x hx =>
    hnew x (hperm.mem_iff.1 (hentries ▸ hx))
  have hsearch : searchBoth type d' key = none := by
    rw [searchBoth_eq hwf, List.find?_eq_none]
    intro x hx
    rw [hnew' x hx]
    exact Bool.false_ne_true
  have hresult : dictAdd type canResize d key val = (true, dictInsert type d' (key, val)) := by
    unfold dictAdd
    rw [hexpand]
    simp only [hsearch, Option.isSome_none, Bool.false_eq_true, if_false]
  obtain ⟨hwf', hperm'⟩ := @dictInsert_spec _ _ _ _ hwf hne (key, val) hnew'
  rw [hresult]
  exact ⟨rfl, hwf', hperm'.trans ((hentries ▸ hperm).cons _)⟩

theorem wf_dictCreate : (dictCreate : Dict K V).WF type :=
  ⟨Dictht.wf_reset, Dictht.wf_reset, fun _ => rfl, fun j hj => absurd hj (Option.some_ne_none j).symm, .nil⟩

end Both

end SmartHome.Redis
