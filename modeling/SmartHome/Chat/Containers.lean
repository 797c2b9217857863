/-
  Subject:   THE TWO CONTAINERS OF THE ACCOUNTS (mydictuser.c): the linked list and the dictionary.

  Every record is in both. `insertUserInfo` looks a name up in the dictionary, and puts a new record into it
  and at the head of the list; everything else finds a record by the dictionary and writes to it, or walks
  the list. The dictionary compares names without regard to case and moves its entries while it is looked
  at; the list compares nothing. ListDirectory.lean has one list of records for both; here are the pointers.

  * `commandTableDictType` -- the type of `myuserdict`; `Containers`, `insertUserInfo`, `withRecord`,
    `insertNodeToUserInfo`, `walk`, `getNameByUserid` -- the source; a pointer is the number of a record, and
    `none` stands for a copy that does not fit, or a pointer to nothing;
  * `Rep` -- what the two containers have in common; `rep_insertUserInfo`, `withRecord_spec` -- it is kept, and the
    records on the list are those of ListDirectory.lean after the same call: `call_refines`;
  * `Grows` -- nothing is removed, renamed or reordered; `capped_call`, `grows_call`;
  * **`directory_invariant`** -- all of it, after every sequence of calls; `directory_invariant_three`.
-/
import SmartHome.Chat.ListDirectory
import SmartHome.Lib.Loop
import SmartHome.Redis.Dict

namespace SmartHome.Chat

open SmartHome.Lib SmartHome.Redis

attribute [local instance] lawfulBEq_bytes

/-! ## 1. The source -/

/-- `dictGenCaseHashFunction`. -/
def dictGenCaseHashFunction (seed : UInt32) (buf : Bytes) : UInt32 :=
  buf.foldl (fun (hash : UInt32) c => ((hash <<< 5) + hash) + (tolower c).toUInt32) seed

/-- `strcasecmp(a, b) == 0`. -/
def strcasecmpZero : Bytes → Bytes → Bool
  | [], [] => true
  | a :: as, b :: bs => tolower a == tolower b && strcasecmpZero as bs
  | _, _ => false

theorem strcasecmpZero_eq (a b : Bytes) : strcasecmpZero a b = (lower a == lower b) := by
  induction a generalizing b with
  | nil =>
    cases b with
    | nil | cons => rfl
  | cons x a ih =>
    cases b with
    | nil => rfl
    | cons y b =>
      rw [strcasecmpZero, ih]
      rfl

theorem dictGenCaseHashFunction_eq (seed : UInt32) (buf : Bytes) :
    dictGenCaseHashFunction seed buf =
      (lower buf).foldl (fun (hash : UInt32) c => ((hash <<< 5) + hash) + c.toUInt32) seed := by
  rw [dictGenCaseHashFunction, lower, List.foldl_map]

/-- `commandTableDictType`. -/
def commandTableDictType (seed : UInt32) : DictType Bytes where
  hashFunction := dictGenCaseHashFunction seed
  keyCompare := strcasecmpZero
  equivalence := by
    refine ⟨fun a => ?_, fun {a b} h => ?_, fun {a b c} h h' => ?_⟩
    · rw [strcasecmpZero_eq, beq_iff_eq]
    · rw [strcasecmpZero_eq, beq_iff_eq] at h ⊢
      exact h.symm
    · rw [strcasecmpZero_eq, beq_iff_eq] at h h' ⊢
      exact h.trans h'
  hash_eq := by
    intro a b h
    rw [strcasecmpZero_eq, beq_iff_eq] at h
    rw [dictGenCaseHashFunction_eq, dictGenCaseHashFunction_eq, h]

/-- A record as it is allocated. -/
structure Cell where
  record : UserRecord
  next : Option Nat

/-- What `zmalloc` has given, `myAllNodeUserInfo` and `myuserdict`. -/
structure Containers where
  heap : List Cell
  userInfo : Option Nat
  index : UInt32
  dict : Dict Bytes Nat

namespace Containers

def empty : Containers := ⟨[], none, 0, dictCreate⟩

variable (type : DictType Bytes)

/-- A new record at the head of the list. -/
def prepend (c : Containers) (userid username : Bytes) : Containers :=
  { c with
    heap := c.heap ++ [⟨UserRecord.new userid username, c.userInfo⟩]
    userInfo := some c.heap.length
    index := c.index + 1 }

/-- `insertUserInfo`; `dictAdd` is not asked whether it has added anything. -/
def insertUserInfo (canResize : Bool) (c : Containers) (userid username : Bytes) : Option Containers :=
  let r := dictFetchValue type c.dict username
  match r.1 with
  | some _ => some { c with dict := r.2 }
  | none =>
    if username.length < 256 ∧ userid.length < 256 then
      some { c.prepend userid username with dict := (dictAdd type canResize r.2 username c.heap.length).2 }
    else none

/-- A record is found by its name, read and written. -/
def withRecord {β : Type} (c : Containers) (username : Bytes) (missing : β)
    (f : UserRecord → Option (β × UserRecord)) : Option (β × Containers) :=
  let r := dictFetchValue type c.dict username
  match r.1 with
  | none => some (missing, { c with dict := r.2 })
  | some a =>
    (c.heap[a]?).bind fun cell => (f cell.record).map fun x =>
      (x.1, { c with dict := r.2, heap := c.heap.set a { cell with record := x.2 } })

/-- `insertNodeToUserInfo`. -/
def insertNodeToUserInfo (c : Containers) (username nodename : Bytes) : Option (Int × Containers) :=
  c.withRecord type username (-2) fun u =>
    if (u.insertNode nodename).1 = 1 ∧ 256 ≤ nodename.length then none else some (u.insertNode nodename)

/-- `chatSetOrGetUserInfo` with `OPERATION_SET_INFO`. -/
def setUserInfo (c : Containers) (username state : Bytes) : Option (Unit × Containers) :=
  c.withRecord type username () fun u => if state.length < 256 then some ((), u.setLine state) else none

/-- `chatSetOrGetNodeInfo` with `OPERATION_SET_INFO`; the line of a node has ten bytes. -/
def setNodeInfo (c : Containers) (username nodename state : Bytes) : Option (Unit × Containers) :=
  c.withRecord type username () fun u =>
    if nodename ∈ u.nodes.map NodeRecord.name ∧ 10 ≤ state.length then none
    else some ((), u.setNode nodename state)

/-- The functions that only look a record up. -/
def lookUp (c : Containers) (username : Bytes) : Option (Unit × Containers) :=
  c.withRecord type username () fun u => some ((), u)

/-- The loop along `next`. -/
def walkFrom (heap : List Cell) : Nat → Option Nat → List Nat
  | 0, _ => []
  | _ + 1, none => []
  | rounds + 1, some a =>
    match heap[a]? with
    | none => []
    | some cell => a :: walkFrom heap rounds cell.next

/-- The records of `myAllNodeUserInfo`, as pointers; one round more than there are records, so that the walk ends by
    itself. -/
def walk (c : Containers) : List Nat := walkFrom c.heap (c.heap.length + 1) c.userInfo

/-- The records on the list. -/
def records (c : Containers) : List UserRecord := c.walk.filterMap fun a => (c.heap[a]?).map Cell.record

/-- The name of a record. -/
def nameAt (c : Containers) (a : Nat) : Bytes := ((c.heap[a]?).map fun cell => cell.record.name).getD []

/-- `getNameByUserid`. -/
def getNameByUserid (c : Containers) (userid : Bytes) : Option Bytes := nameByUserid c.records userid

end Containers

/-- A call: one that changes something, with the value `dict_can_resize` has then, or one that looks up. -/
inductive UserCall where
  | change (canResize : Bool) (call : DirCall)
  | lookUp (username : Bytes)

/-- The functions of mydictuser.c. -/
def Containers.call (type : DictType Bytes) (c : Containers) : UserCall → Option Containers
  | .change canResize (.insertUserInfo userid username) => c.insertUserInfo type canResize userid username
  | .change _ (.insertNodeToUserInfo username nodename) => (c.insertNodeToUserInfo type username nodename).map Prod.snd
  | .change _ (.setUserLine username state) => (c.setUserInfo type username state).map Prod.snd
  | .change _ (.setNodeLine username nodename state) => (c.setNodeInfo type username nodename state).map Prod.snd
  | .lookUp username => (c.lookUp type username).map Prod.snd

/-- What is copied fits. -/
def UserCall.Fits : UserCall → Prop
  | .change _ (.insertUserInfo userid username) => username.length < 256 ∧ userid.length < 256
  | .change _ (.insertNodeToUserInfo _ nodename) => nodename.length < 256
  | .change _ (.setUserLine _ state) => state.length < 256
  | .change _ (.setNodeLine _ _ state) => state.length < 10
  | .lookUp _ => True

/-! ## 2. The two containers -/

/-- The record before the `n`th. -/
def previous : Nat → Option Nat
  | 0 => none
  | n + 1 => some n

/-- The entries a dictionary of these records has: each under its own name. -/
def filed (heap : List Cell) : List (Bytes × Nat) := heap.zipIdx.map fun z => (z.1.record.name, z.2)

/-- **What both containers hold**: the list has the records in the order they came, backwards; the dictionary has each
    under its own name. -/
structure Rep (type : DictType Bytes) (c : Containers) : Prop where
  dict : c.dict.WF type
  entries : c.dict.entries.Perm (filed c.heap)
  head : c.userInfo = previous c.heap.length
  next : ∀ a cell, c.heap[a]? = some cell → cell.next = previous a
  index : c.index = UInt32.ofNat c.heap.length

section Walk

variable {type : DictType Bytes} {c : Containers}

theorem walkFrom_eq {heap : List Cell} (h : ∀ a cell, heap[a]? = some cell → cell.next = previous a)
    {n rounds : Nat} (hn : n ≤ heap.length) (hrounds : n ≤ rounds) :
    Containers.walkFrom heap rounds (previous n) = (List.range n).reverse := by
  induction n generalizing rounds with
  | zero =>
    cases rounds with
    | zero | succ => rfl
  | succ n ih =>
    obtain ⟨rounds, rfl⟩ := Nat.exists_eq_add_of_le' hrounds
    have hget : heap[n]? = some heap[n] := List.getElem?_eq_getElem hn
    show Containers.walkFrom heap (rounds + n + 1) (some n) = _
    rw [Containers.walkFrom, hget]
    show n :: Containers.walkFrom heap (rounds + n) heap[n].next = _
    rw [h n _ hget, ih (Nat.le_of_lt hn) (Nat.le_add_left _ _), List.range_succ, List.reverse_append]
    rfl

/-- The walk, from the newest record to the oldest. -/
theorem Rep.walk_eq (h : Rep type c) : c.walk = (List.range c.heap.length).reverse := by
  rw [Containers.walk, h.head]
  exact walkFrom_eq h.next (Nat.le_refl _) (Nat.le_succ _)

theorem Rep.records_eq (h : Rep type c) : c.records = (c.heap.map Cell.record).reverse := by
  have hcells : (List.range c.heap.length).filterMap (fun a => (c.heap[a]?).map Cell.record) =
      c.heap.map Cell.record := by
    rw [← List.map_filterMap, filterMap_range]
  rw [Containers.records, h.walk_eq, List.filterMap_reverse, hcells]

end Walk

/-! ## 3. Finding a record -/

section Find

variable {seed : UInt32} {c : Containers}

theorem filed_fst (heap : List Cell) : (filed heap).map Prod.fst = heap.map fun cell => cell.record.name := by
  rw [filed, List.map_map]
  conv_rhs => rw [← List.zipIdx_map_fst 0 heap]
  rw [List.map_map]
  rfl

/-- **No two names are equal but for case.** -/
theorem Rep.distinct (h : Rep (commandTableDictType seed) c) :
    (c.heap.map fun cell => lower cell.record.name).Nodup := by
  have hd : ((filed c.heap).map Prod.fst).Pairwise fun a b => strcasecmpZero a b = false :=
    List.pairwise_map.2 (h.dict.distinct.perm h.entries)
  rw [filed_fst, List.pairwise_map] at hd
  refine List.pairwise_map.2 (hd.imp fun {a b} hab heq => ?_)
  rw [strcasecmpZero_eq, heq, beq_self_eq_true] at hab
  exact absurd hab Bool.false_ne_true.symm

/-- What the dictionary finds, as a search among the records on the list. -/
theorem Rep.fetchValue_eq (h : Rep (commandTableDictType seed) c) (username : Bytes) :
    (dictFetchValue (commandTableDictType seed) c.dict username).1 =
      (c.heap.zipIdx.reverse.find? fun z => lower z.1.record.name == lower username).map Prod.snd := by
  have hsame : (fun z : Cell × Nat => strcasecmpZero username z.1.record.name) =
      fun z => lower z.1.record.name == lower username := by
    funext z
    rw [strcasecmpZero_eq, BEq.comm]
  have hlist : (filed c.heap).reverse = c.heap.zipIdx.reverse.map fun z => (z.1.record.name, z.2) :=
    List.map_reverse.symm
  rw [dictFetchValue, (dictFind_spec h.dict username).1,
    find?_perm (h.entries.trans (List.reverse_perm _).symm) (h.dict.distinct.unique username), hlist, List.find?_map,
    Option.map_map, ← hsame]
  rfl

/-- **The dictionary and the list find the same record.** -/
theorem Rep.find (h : Rep (commandTableDictType seed) c) (username : Bytes) :
    ((dictFetchValue (commandTableDictType seed) c.dict username).1 = none ∧ fetch lower c.records username = none) ∨
      ∃ a cell, (dictFetchValue (commandTableDictType seed) c.dict username).1 = some a ∧
        c.heap[a]? = some cell ∧ fetch lower c.records username = some cell.record := by
  have hrecords : c.records = c.heap.zipIdx.reverse.map fun z => z.1.record := by
    rw [h.records_eq, List.map_reverse]
    conv_lhs => rw [← List.zipIdx_map_fst 0 c.heap]
    rw [List.map_map]
    rfl
  rw [h.fetchValue_eq, hrecords, fetch, List.find?_map]
  cases hz : c.heap.zipIdx.reverse.find? fun z => lower z.1.record.name == lower username with
  | none => exact .inl ⟨rfl, congrArg _ hz⟩
  | some z =>
    have hmem := List.mem_of_find?_eq_some hz
    exact .inr ⟨z.2, z.1, rfl, List.mem_zipIdx_iff_getElem?.1 (List.mem_reverse.1 hmem), congrArg _ hz⟩

end Find

/-! ## 4. One call -/

section Call

variable {seed : UInt32} {c : Containers}

theorem filed_getElem? (heap : List Cell) (j : Nat) :
    (filed heap)[j]? = (heap[j]?).map fun cell => (cell.record.name, j) := by
  rw [filed, List.getElem?_map, List.getElem?_zipIdx, Option.map_map, Nat.zero_add]
  rfl

/-- A record that keeps its name. -/
theorem filed_set {heap : List Cell} {a : Nat} {cell : Cell} (hcell : heap[a]? = some cell) {u : UserRecord}
    (hname : u.name = cell.record.name) : filed (heap.set a { cell with record := u }) = filed heap := by
  refine List.ext_getElem? fun j => ?_
  rw [filed_getElem?, filed_getElem?, List.getElem?_set]
  split
  · rename_i haj
    rw [if_pos (List.getElem?_eq_some_iff.1 hcell).1, ← haj, hcell, Option.map_some, Option.map_some]
    exact congrArg (fun name => some (name, a)) hname
  · rfl

/-- Looking up changes neither container. -/
theorem Rep.fetched {type : DictType Bytes} (h : Rep type c) (username : Bytes) :
    Rep type { c with dict := (dictFetchValue type c.dict username).2 } := by
  obtain ⟨-, hwf, hperm⟩ := dictFind_spec h.dict username
  exact ⟨hwf, hperm.trans h.entries, h.head, h.next, h.index⟩

/-- **A record is written to**, and keeps its name. -/
theorem Rep.written {type : DictType Bytes} (h : Rep type c) {a : Nat} {cell : Cell} (hcell : c.heap[a]? = some cell)
    {u : UserRecord} (hname : u.name = cell.record.name) :
    Rep type { c with heap := c.heap.set a { cell with record := u } } := by
  refine ⟨h.dict, ?_, ?_, fun b x hx => ?_, ?_⟩
  · rw [filed_set hcell hname]
    exact h.entries
  · rw [List.length_set]
    exact h.head
  · rw [List.getElem?_set] at hx
    split at hx
    · rename_i hab
      rw [if_pos (List.getElem?_eq_some_iff.1 hcell).1] at hx
      rw [← Option.some.inj hx, ← hab]
      exact h.next a cell hcell
    · exact h.next b x hx
  · rw [List.length_set]
    exact h.index

/-- To the list the same is done by the name, since no other record has it. -/
theorem Rep.records_written (h : Rep (commandTableDictType seed) c) {a : Nat} {cell : Cell}
    (hcell : c.heap[a]? = some cell) {f : UserRecord → UserRecord} (hname : ∀ u, (f u).name = u.name)
    {username : Bytes} (husername : lower cell.record.name = lower username) :
    Containers.records { c with heap := c.heap.set a { cell with record := f cell.record } } =
      change lower c.records username f := by
  have hd : ((c.heap.map Cell.record).map fun u => lower u.name).Nodup := by
    rw [List.map_map]
    exact h.distinct
  have hget : (c.heap.map Cell.record)[a]? = some cell.record := by
    rw [List.getElem?_map, hcell]
    rfl
  have hset := set_key (f := f) hd hget
  rw [husername] at hset
  rw [(h.written hcell (hname _)).records_eq, h.records_eq, change,
    modifyFirst_key (k := fun u : UserRecord => lower u.name), List.map_reverse, List.map_set, ← hset]
  rw [List.map_reverse]
  exact List.nodup_reverse.2 hd

/-- **`withRecord`** writes to the record the list model finds. -/
theorem withRecord_spec {β : Type} (h : Rep (commandTableDictType seed) c) (username : Bytes) (missing : β)
    {f : UserRecord → Option (β × UserRecord)} {g : UserRecord → β × UserRecord} (hf : ∀ u, f u = some (g u))
    (hname : ∀ u, (g u).2.name = u.name) :
    ∃ c', c.withRecord (commandTableDictType seed) username missing f =
        some ((fetch lower c.records username).elim missing fun u => (g u).1, c') ∧
      Rep (commandTableDictType seed) c' ∧ c'.records = change lower c.records username fun u => (g u).2 := by
  rw [Containers.withRecord]
  have hfetched := h.fetched username
  rcases h.find username with ⟨hnone, hmissing⟩ | ⟨a, cell, hsome, hcell, hfound⟩
  · simp only [hnone, hmissing]
    exact ⟨_, rfl, hfetched, (change_none hmissing _).symm⟩
  · simp only [hsome, hfound, hcell, Option.bind_some, hf, Option.map_some]
    refine ⟨_, rfl, hfetched.written (a := a) hcell (hname _), ?_⟩
    exact hfetched.records_written (a := a) hcell (f := fun u => (g u).2) hname (fetch_name hfound)

theorem filed_concat (heap : List Cell) (cell : Cell) :
    filed (heap ++ [cell]) = filed heap ++ [(cell.record.name, heap.length)] := by
  rw [filed, List.zipIdx_append, List.map_append, Nat.zero_add]
  rfl

/-- The dictionary with one record more. -/
theorem Rep.added (h : Rep (commandTableDictType seed) c) (canResize : Bool) {username : Bytes}
    (hnone : (dictFetchValue (commandTableDictType seed) c.dict username).1 = none) (a : Nat) :
    let d := (dictFetchValue (commandTableDictType seed) c.dict username).2
    (dictAdd (commandTableDictType seed) canResize d username a).2.WF (commandTableDictType seed) ∧
      (dictAdd (commandTableDictType seed) canResize d username a).2.entries.Perm
        (filed c.heap ++ [(username, a)]) := by
  obtain ⟨hfind, hwf, hperm⟩ := dictFind_spec h.dict username
  have hnew : ∀ x ∈ (dictFind (commandTableDictType seed) c.dict username).2.entries,
      strcasecmpZero username x.1 = false := by
    intro x hx
    rw [dictFetchValue, hfind, Option.map_eq_none_iff, List.find?_eq_none] at hnone
    exact Bool.of_not_eq_true (hnone x (hperm.mem_iff.1 hx))
  obtain ⟨-, hadded, hentries⟩ := dictAdd_spec hwf canResize hnew a
  refine ⟨hadded, hentries.trans (((hperm.trans h.entries).cons _).trans ?_)⟩
  exact (List.perm_append_singleton _ _).symm

/-- The list with one record more. -/
theorem Rep.prepended {type : DictType Bytes} (h : Rep type c) {userid username : Bytes} {dict : Dict Bytes Nat}
    (hwf : dict.WF type) (hentries : dict.entries.Perm (filed c.heap ++ [(username, c.heap.length)])) :
    Rep type { c.prepend userid username with dict := dict } := by
  refine ⟨hwf, ?_, ?_, fun b x hx => ?_, ?_⟩
  · rw [Containers.prepend, filed_concat]
    exact hentries
  · rw [Containers.prepend, List.length_append]
    rfl
  · rw [Containers.prepend] at hx
    by_cases hb : b < c.heap.length
    · rw [List.getElem?_append_left hb] at hx
      exact h.next b x hx
    · have hlast : b = c.heap.length := by
        have hlt := (List.getElem?_eq_some_iff.1 hx).1
        rw [List.length_append, List.length_singleton] at hlt
        omega
      rw [hlast, List.getElem?_concat_length] at hx
      rw [← Option.some.inj hx, hlast]
      exact h.head
  · rw [Containers.prepend, List.length_append, List.length_singleton, UInt32.ofNat_add, ← h.index]
    rfl

/-- **A record more**, at the head of the list and in the dictionary. -/
theorem rep_insertUserInfo (h : Rep (commandTableDictType seed) c) (canResize : Bool) {userid username : Bytes}
    (hfits : username.length < 256 ∧ userid.length < 256) :
    ∃ c', c.insertUserInfo (commandTableDictType seed) canResize userid username = some c' ∧
      Rep (commandTableDictType seed) c' ∧ c'.records = MyDictUser.insertUserInfo c.records userid username := by
  rw [Containers.insertUserInfo, MyDictUser.insertUserInfo]
  rcases h.find username with ⟨hnone, hmissing⟩ | ⟨a, cell, hsome, -, hfound⟩
  · simp only [hnone, hmissing, if_pos hfits]
    obtain ⟨hwf, hentries⟩ := h.added canResize hnone c.heap.length
    have hrep := @Rep.prepended _ _ h userid _ _ hwf hentries
    refine ⟨_, rfl, hrep, ?_⟩
    rw [hrep.records_eq, h.records_eq, Containers.prepend, List.map_append, List.reverse_append]
    rfl
  · simp only [hsome, hfound]
    exact ⟨_, rfl, h.fetched username, rfl⟩

/-- `insertNodeToUserInfo` returns what it returns in ListDirectory.lean. -/
theorem insertNode_refines (h : Rep (commandTableDictType seed) c) (username : Bytes) {nodename : Bytes}
    (hfits : nodename.length < 256) :
    ∃ c', c.insertNodeToUserInfo (commandTableDictType seed) username nodename =
        some ((MyDictUser.insertNodeToUserInfo c.records username nodename).1, c') ∧
      Rep (commandTableDictType seed) c' ∧
      c'.records = (MyDictUser.insertNodeToUserInfo c.records username nodename).2 := by
  have hcopied : ∀ u : UserRecord, ¬((u.insertNode nodename).1 = 1 ∧ 256 ≤ nodename.length) := fun u hc =>
    Nat.not_le_of_lt hfits hc.2
  obtain ⟨c', hc', hrep, hrecords⟩ := withRecord_spec h username (-2) (g := fun u => u.insertNode nodename)
    (fun u => if_neg (hcopied u)) fun u => by rw [u.insertNode_keeps]
  refine ⟨c', ?_, hrep, hrecords.trans (insertNodeBy_snd lower (-2) c.records username nodename).symm⟩
  rw [Containers.insertNodeToUserInfo, hc', MyDictUser.insertNodeToUserInfo, insertNodeBy]
  cases fetch lower c.records username with
  | none | some => rfl

/-- What a call does to one list of records. -/
def UserCall.model (l : List UserRecord) : UserCall → List UserRecord
  | .change _ call => MyDictUser.call l call
  | .lookUp _ => l

/-- **Every call does to the records on the list what it does in ListDirectory.lean**, and keeps the containers
    in step. -/
theorem call_refines (h : Rep (commandTableDictType seed) c) {k : UserCall} (hfits : k.Fits) :
    ∃ c', c.call (commandTableDictType seed) k = some c' ∧ Rep (commandTableDictType seed) c' ∧
      c'.records = k.model c.records := by
  cases k with
  | lookUp username =>
    obtain ⟨c', hc', hrep, hrecords⟩ := withRecord_spec h username () (g := fun u => ((), u))
      (fun _ => rfl) fun _ => rfl
    exact ⟨c', congrArg (Option.map Prod.snd) hc', hrep, hrecords.trans (modifyFirst_id fun _ _ => rfl)⟩
  | change canResize call =>
    cases call with
    | insertUserInfo userid username => exact rep_insertUserInfo h canResize hfits
    | insertNodeToUserInfo username nodename =>
      obtain ⟨c', hc', hrep, hrecords⟩ := insertNode_refines h username hfits
      exact ⟨c', congrArg (Option.map Prod.snd) hc', hrep, hrecords⟩
    | setUserLine username state =>
      obtain ⟨c', hc', hrep, hrecords⟩ := withRecord_spec h username () (g := fun u => ((), u.setLine state))
        (fun _ => if_pos hfits) fun _ => rfl
      exact ⟨c', congrArg (Option.map Prod.snd) hc', hrep, hrecords⟩
    | setNodeLine username nodename state =>
      have hcopied : ∀ u : UserRecord, ¬(nodename ∈ u.nodes.map NodeRecord.name ∧ 10 ≤ state.length) :=
        fun u hc => Nat.not_le_of_lt hfits hc.2
      obtain ⟨c', hc', hrep, hrecords⟩ := withRecord_spec h username ()
        (g := fun u => ((), u.setNode nodename state)) (fun u => if_neg (hcopied u)) fun _ => rfl
      exact ⟨c', congrArg (Option.map Prod.snd) hc', hrep, hrecords⟩

end Call

/-! ## 5. What is kept, and what never changes -/

/-- At most `MYNODE_MAX_NODES` nodes, of different names. -/
def UserRecord.Capped (u : UserRecord) : Prop := u.nodes.length ≤ 6 ∧ (u.nodes.map NodeRecord.name).Nodup

/-- A later record: the same name and userid, and the same nodes in the same places, with more behind them. -/
def UserRecord.Later (u v : UserRecord) : Prop :=
  v.name = u.name ∧ v.userid = u.userid ∧ u.nodes.map NodeRecord.name <+: v.nodes.map NodeRecord.name

/-- **Nothing is removed, renamed or reordered**: the records are still the last on the list, each a later one
    of itself. -/
def Grows (l l' : List UserRecord) : Prop := ∃ new old, l' = new ++ old ∧ List.Forall₂ UserRecord.Later l old

section Kept

theorem UserRecord.Later.refl (u : UserRecord) : u.Later u := ⟨rfl, rfl, List.prefix_rfl⟩

theorem UserRecord.Later.trans {u v w : UserRecord} (h : u.Later v) (h' : v.Later w) : u.Later w :=
  ⟨h'.1.trans h.1, h'.2.1.trans h.2.1, h.2.2.trans h'.2.2⟩

theorem Grows.refl (l : List UserRecord) : Grows l l := ⟨[], l, rfl, List.forall₂_same.2 fun u _ => .refl u⟩

theorem Grows.trans {l l' l'' : List UserRecord} (h : Grows l l') (h' : Grows l' l'') : Grows l l'' := by
  obtain ⟨new, old, rfl, hold⟩ := h
  obtain ⟨new', old', rfl, hold'⟩ := h'
  have hrest := List.forall₂_drop new.length hold'
  rw [List.drop_left] at hrest
  refine ⟨new' ++ old'.take new.length, old'.drop new.length, ?_, ?_⟩
  · rw [List.append_assoc, List.take_append_drop]
  · exact forall₂_trans (R := UserRecord.Later) (fun _ _ _ huv hvw => huv.trans hvw) hold hrest

theorem grows_change {l : List UserRecord} {key : Bytes → Bytes} {username : Bytes} {f : UserRecord → UserRecord}
    (hf : ∀ u : UserRecord, u.Later (f u)) : Grows l (change key l username f) :=
  ⟨[], change key l username f, rfl, forall₂_modifyFirst UserRecord.Later.refl hf⟩

/-- `insertNodeToUserInfo` adds a name that is not there, while there is room. -/
theorem UserRecord.insertNode_nodes (u : UserRecord) (nodename : Bytes) :
    ((u.insertNode nodename).1 = 0 ∧ nodename ∈ u.nodes.map NodeRecord.name ∧ (u.insertNode nodename).2 = u) ∨
      ((u.insertNode nodename).1 = -1 ∧ nodename ∉ u.nodes.map NodeRecord.name ∧ 6 ≤ u.nodes.length ∧
        (u.insertNode nodename).2 = u) ∨
      ((u.insertNode nodename).1 = 1 ∧ nodename ∉ u.nodes.map NodeRecord.name ∧ u.nodes.length < 6 ∧
        (u.insertNode nodename).2 = { u with nodes := u.nodes ++ [⟨nodename, bytes "off"⟩] }) := by
  unfold UserRecord.insertNode
  split
  · rename_i hin
    exact .inl ⟨rfl, hin, rfl⟩
  · rename_i hout
    split
    · rename_i hfull
      exact .inr (.inl ⟨rfl, hout, hfull, rfl⟩)
    · rename_i hroom
      exact .inr (.inr ⟨rfl, hout, Nat.lt_of_not_le hroom, rfl⟩)

theorem UserRecord.later_insertNode (u : UserRecord) (nodename : Bytes) : u.Later (u.insertNode nodename).2 := by
  rcases u.insertNode_nodes nodename with ⟨-, -, hsame⟩ | ⟨-, -, -, hsame⟩ | ⟨-, -, -, hnew⟩
  · rw [hsame]
    exact .refl u
  · rw [hsame]
    exact .refl u
  · rw [hnew]
    refine ⟨rfl, rfl, ?_⟩
    rw [List.map_append]
    exact List.prefix_append _ _

theorem UserRecord.names_setNode (u : UserRecord) (nodename state : Bytes) :
    (u.setNode nodename state).nodes.map NodeRecord.name = u.nodes.map NodeRecord.name :=
  map_modifyFirst fun _ _ => rfl

theorem UserRecord.capped_insertNode {u : UserRecord} (h : u.Capped) (nodename : Bytes) :
    (u.insertNode nodename).2.Capped := by
  rcases u.insertNode_nodes nodename with ⟨-, -, hsame⟩ | ⟨-, -, -, hsame⟩ | ⟨-, hout, hroom, hnew⟩
  · rw [hsame]
    exact h
  · rw [hsame]
    exact h
  · rw [hnew]
    refine ⟨?_, nodup_map_concat h.2 hout⟩
    show (u.nodes ++ [_]).length ≤ 6
    rw [List.length_append]
    exact hroom

theorem UserRecord.capped_setNode {u : UserRecord} (h : u.Capped) (nodename state : Bytes) :
    (u.setNode nodename state).Capped := by
  have hnames := u.names_setNode nodename state
  have hlen := congrArg List.length hnames
  rw [List.length_map, List.length_map] at hlen
  refine ⟨hlen ▸ h.1, ?_⟩
  rw [hnames]
  exact h.2

/-- **Every call keeps the nodes of a record few and different.** -/
theorem capped_call {l : List UserRecord} (h : ∀ u ∈ l, u.Capped) (k : UserCall) :
    ∀ u ∈ k.model l, u.Capped := by
  cases k with
  | lookUp username => exact h
  | change canResize call =>
    cases call with
    | insertUserInfo userid username =>
      show ∀ u ∈ MyDictUser.insertUserInfo l userid username, u.Capped
      rw [MyDictUser.insertUserInfo]
      cases fetch lower l username with
      | some _ => exact h
      | none => exact List.forall_mem_cons.2 ⟨⟨Nat.zero_le _, .nil⟩, h⟩
    | insertNodeToUserInfo username nodename =>
      show ∀ u ∈ (insertNodeBy lower (-2) l username nodename).2, u.Capped
      rw [insertNodeBy_snd]
      exact forall_modifyFirst h fun u _ hu => UserRecord.capped_insertNode hu nodename
    | setUserLine username state => exact forall_modifyFirst h fun u _ hu => hu
    | setNodeLine username nodename state =>
      exact forall_modifyFirst h fun u _ hu => UserRecord.capped_setNode hu nodename state

/-- **No call removes, renames or reorders anything.** -/
theorem grows_call (l : List UserRecord) (k : UserCall) : Grows l (k.model l) := by
  cases k with
  | lookUp username => exact .refl l
  | change canResize call =>
    cases call with
    | insertUserInfo userid username =>
      show Grows l (MyDictUser.insertUserInfo l userid username)
      rw [MyDictUser.insertUserInfo]
      cases fetch lower l username with
      | some _ => exact .refl l
      | none => exact ⟨[UserRecord.new userid username], l, rfl, List.forall₂_same.2 fun u _ => .refl u⟩
    | insertNodeToUserInfo username nodename =>
      show Grows l (insertNodeBy lower (-2) l username nodename).2
      rw [insertNodeBy_snd]
      exact grows_change fun u => u.later_insertNode nodename
    | setUserLine username state => exact grows_change fun u => ⟨rfl, rfl, List.prefix_rfl⟩
    | setNodeLine username nodename state =>
      exact grows_change fun u => ⟨rfl, rfl, (u.names_setNode nodename state).symm ▸ List.prefix_rfl⟩

end Kept

/-! ## 6. Every sequence of calls -/

/-- A node more. -/
def UserRecord.append (nodename : Bytes) (u : UserRecord) : UserRecord :=
  { u with nodes := u.nodes ++ [⟨nodename, bytes "off"⟩] }

/-- **What `insertNodeToUserInfo` returns**, and what it does: `l` are the records before it, `l'` those after it. -/
def Returns (l : List UserRecord) (username nodename : Bytes) (code : Int) (l' : List UserRecord) : Prop :=
  match fetch lower l username with
  | none => code = -2 ∧ l' = l
  | some u =>
    (code = 1 ↔ l' = change lower l username (UserRecord.append nodename)) ∧
      (code = 0 ↔ nodename ∈ u.nodes.map NodeRecord.name) ∧
      (code = -1 ↔ nodename ∉ u.nodes.map NodeRecord.name ∧ u.nodes.length = 6) ∧
      (code = 0 ∨ code = -1 → l' = l) ∧ (code = 1 ∨ code = 0 ∨ code = -1)

section Run

variable {seed : UInt32} {c : Containers}

/-- What holds after every sequence of calls. -/
structure Sound (type : DictType Bytes) (c : Containers) : Prop where
  rep : Rep type c
  capped : ∀ u ∈ c.records, u.Capped

theorem sound_empty (seed : UInt32) : Sound (commandTableDictType seed) Containers.empty :=
  ⟨⟨wf_dictCreate, .refl _, rfl, fun _ _ h => absurd h (Option.some_ne_none _).symm, rfl⟩,
    fun _ h => absurd h List.not_mem_nil⟩

/-- **The run**: it goes on, and keeps all of it. -/
theorem sound_run {calls : List UserCall} (h : Sound (commandTableDictType seed) c) (hfits : ∀ k ∈ calls, k.Fits) :
    ∃ c', runEvents (Containers.call (commandTableDictType seed)) c calls = some c' ∧
      Sound (commandTableDictType seed) c' ∧ Grows c.records c'.records := by
  induction calls generalizing c with
  | nil => exact ⟨c, rfl, h, .refl _⟩
  | cons k calls ih =>
    obtain ⟨c₁, hcall, hrep, hrecords⟩ := call_refines h.rep (hfits k List.mem_cons_self)
    have hsound : Sound (commandTableDictType seed) c₁ := ⟨hrep, hrecords ▸ capped_call h.capped k⟩
    obtain ⟨c', hrun, hsound', hgrows⟩ := ih hsound fun k' hk' => hfits k' (List.mem_cons_of_mem _ hk')
    refine ⟨c', ?_, hsound', (hrecords ▸ grows_call c.records k).trans hgrows⟩
    rw [runEvents, hcall]
    exact hrun

theorem Rep.distinct_records (h : Rep (commandTableDictType seed) c) : (c.records.map fun u => lower u.name).Nodup := by
  rw [h.records_eq, List.map_reverse, List.map_map]
  exact List.nodup_reverse.2 h.distinct

/-- A node more is a change. -/
theorem change_append_ne {l : List UserRecord} {username : Bytes} {u : UserRecord}
    (hu : fetch lower l username = some u) (nodename : Bytes) :
    l ≠ change lower l username (UserRecord.append nodename) := by
  intro hsame
  have hfound : fetch lower (change lower l username (UserRecord.append nodename)) username =
      (fetch lower l username).map (UserRecord.append nodename) := find?_modifyFirst fun _ => rfl
  rw [← hsame, hu, Option.map_some] at hfound
  have hlen := congrArg (fun v : UserRecord => v.nodes.length) (Option.some.inj hfound)
  rw [UserRecord.append, List.length_append] at hlen
  exact absurd hlen (Nat.ne_of_lt (Nat.lt_succ_self _))

/-- What is returned says what was done. -/
theorem returns_insertNode {l : List UserRecord} (hcapped : ∀ u ∈ l, u.Capped) (username nodename : Bytes) :
    Returns l username nodename (MyDictUser.insertNodeToUserInfo l username nodename).1
      (MyDictUser.insertNodeToUserInfo l username nodename).2 := by
  rw [Returns, MyDictUser.insertNodeToUserInfo, insertNodeBy_snd, insertNodeBy]
  cases hu : fetch lower l username with
  | none => exact ⟨rfl, change_none hu _⟩
  | some u =>
    have hmax := (hcapped u (List.mem_of_find?_eq_some hu)).1
    have hne := change_append_ne hu nodename
    have hfound : ∀ {g : UserRecord → UserRecord}, (u.insertNode nodename).2 = g u →
        change lower l username (fun v => (v.insertNode nodename).2) = change lower l username g := fun hg =>
      modifyFirst_congr_right fun v hv => by
        rw [Option.some.inj (hv.symm.trans hu)]
        exact hg
    have hsame : (u.insertNode nodename).2 = u →
        change lower l username (fun v => (v.insertNode nodename).2) = l := fun hg =>
      (hfound (g := id) hg).trans (modifyFirst_id fun _ _ => rfl)
    show ((u.insertNode nodename).1 = 1 ↔ _) ∧ _
    rcases u.insertNode_nodes nodename with
      ⟨hcode, hin, hkept⟩ | ⟨hcode, hout, hfull, hkept⟩ | ⟨hcode, hout, hroom, hnew⟩
    · rw [hcode, hsame hkept]
      refine ⟨?_, ?_, ?_, fun _ => rfl, .inr (.inl rfl)⟩
      · exact ⟨fun hc => absurd hc (by decide), fun hc => absurd hc hne⟩
      · exact ⟨fun _ => hin, fun _ => rfl⟩
      · exact ⟨fun hc => absurd hc (by decide), fun hc => absurd hin hc.1⟩
    · rw [hcode, hsame hkept]
      refine ⟨?_, ?_, ?_, fun _ => rfl, .inr (.inr rfl)⟩
      · exact ⟨fun hc => absurd hc (by decide), fun hc => absurd hc hne⟩
      · exact ⟨fun hc => absurd hc (by decide), fun hc => absurd hc hout⟩
      · exact ⟨fun _ => ⟨hout, Nat.le_antisymm hmax hfull⟩, fun _ => rfl⟩
    · rw [hcode, hfound (g := UserRecord.append nodename) hnew]
      refine ⟨⟨fun _ => rfl, fun _ => rfl⟩, ?_, ?_, ?_, .inl rfl⟩
      · exact ⟨fun hc => absurd hc (by decide), fun hc => absurd hc hout⟩
      · exact ⟨fun hc => absurd hc (by decide), fun hc => absurd hc.2 (Nat.ne_of_lt hroom)⟩
      · exact fun hc => absurd hc (by decide)

/-- A name from the list is found. -/
theorem fetch_of_nameByUserid {l : List UserRecord} {userid username : Bytes}
    (h : nameByUserid l userid = some username) : ∃ u, fetch lower l username = some u := by
  obtain ⟨v, hv, rfl⟩ := Option.map_eq_some_iff.1 h
  refine Option.isSome_iff_exists.1 (List.find?_isSome.2 ⟨v, List.mem_of_find?_eq_some hv, ?_⟩)
  exact beq_self_eq_true _

theorem Returns.ne_missing {l l' : List UserRecord} {username nodename : Bytes} {code : Int} {u : UserRecord}
    (h : Returns l username nodename code l') (hu : fetch lower l username = some u) : code ≠ -2 := by
  rw [Returns, hu] at h
  rcases h.2.2.2.2 with hc | hc | hc
  · rw [hc]
    decide
  · rw [hc]
    decide
  · rw [hc]
    decide

/-- The dictionary's entries, in the order of the list. -/
theorem Rep.entries_walk {type : DictType Bytes} (h : Rep type c) :
    c.dict.entries.Perm (c.walk.map fun a => (c.nameAt a, a)) := by
  have hfiled : filed c.heap = (List.range c.heap.length).map fun a => (c.nameAt a, a) := by
    refine List.ext_getElem? fun j => ?_
    rw [filed_getElem?, List.getElem?_map]
    by_cases hj : j < c.heap.length
    · rw [List.getElem?_range hj, List.getElem?_eq_getElem hj, Option.map_some, Option.map_some, Containers.nameAt,
        List.getElem?_eq_getElem hj]
      rfl
    · rw [List.getElem?_eq_none (Nat.le_of_not_lt hj),
        List.getElem?_eq_none (by rw [List.length_range]; exact Nat.le_of_not_lt hj)]
      rfl
  rw [h.walk_eq, List.map_reverse, ← hfiled]
  exact h.entries.trans (List.reverse_perm _).symm

/-- A record is found under its own name. -/
theorem Rep.found {type : DictType Bytes} (h : Rep type c) {a : Nat} (ha : a ∈ c.walk) :
    (dictFetchValue type c.dict (c.nameAt a)).1 = some a := by
  have hmem : (c.nameAt a, a) ∈ c.dict.entries := h.entries_walk.mem_iff.2 (List.mem_map_of_mem ha)
  have hself : type.keyCompare (c.nameAt a) (c.nameAt a) = true := type.equivalence.refl _
  have hsome : (c.dict.entries.find? fun he => type.keyCompare (c.nameAt a) he.1).isSome = true :=
    List.find?_isSome.2 ⟨_, hmem, hself⟩
  obtain ⟨x, hx⟩ := Option.isSome_iff_exists.1 hsome
  have hcompare := List.find?_some (p := fun he : Bytes × Nat => type.keyCompare (c.nameAt a) he.1) hx
  have hsame := h.dict.distinct.unique (c.nameAt a) x (List.mem_of_find?_eq_some hx) _ hmem hcompare hself
  rw [dictFetchValue, (dictFind_spec h.dict (c.nameAt a)).1, hx, hsame]
  rfl

end Run

/-- **The two containers of the accounts**, after every sequence of calls with texts that fit: the dictionary has the
    records on the list, each under its own name, where it is found; no two names are equal but for case; `index` counts
    them; every record has six nodes at most, of different names. Nothing is ever removed, renamed or reordered.
    `insertNodeToUserInfo` returns what it has done, and not -2 for a name from `getNameByUserid`. -/
theorem directory_invariant (seed : UInt32) (calls : List UserCall) (hfits : ∀ k ∈ calls, k.Fits) :
    ∃ c, runEvents (Containers.call (commandTableDictType seed)) Containers.empty calls = some c ∧
      c.dict.entries.Perm (c.walk.map fun a => (c.nameAt a, a)) ∧
      (∀ a ∈ c.walk, (dictFetchValue (commandTableDictType seed) c.dict (c.nameAt a)).1 = some a) ∧
      (c.records.map fun u => lower u.name).Nodup ∧
      (c.records.length < UInt32.size → c.index.toNat = c.records.length) ∧ (∀ u ∈ c.records, u.Capped) ∧
      (∀ more, (∀ k ∈ more, k.Fits) → ∃ c',
        runEvents (Containers.call (commandTableDictType seed)) c more = some c' ∧ Grows c.records c'.records) ∧
      ∀ username nodename, nodename.length < 256 → ∃ code c',
        c.insertNodeToUserInfo (commandTableDictType seed) username nodename = some (code, c') ∧
        Returns c.records username nodename code c'.records ∧
        ((∃ userid, c.getNameByUserid userid = some username) → code ≠ -2) := by
  obtain ⟨c, hrun, ⟨hrep, hcapped⟩, -⟩ := sound_run (sound_empty seed) hfits
  refine ⟨c, hrun, hrep.entries_walk, fun a ha => hrep.found ha, hrep.distinct_records, fun hlt => ?_, hcapped,
    fun more hmore => ?_, fun username nodename hlen => ?_⟩
  · rw [hrep.records_eq, List.length_reverse, List.length_map] at hlt ⊢
    rw [hrep.index, UInt32.toNat_ofNat', Nat.mod_eq_of_lt hlt]
  · obtain ⟨c', hrun', -, hgrows⟩ := sound_run ⟨hrep, hcapped⟩ hmore
    exact ⟨c', hrun', hgrows⟩
  · obtain ⟨c', hcall, -, hrecords⟩ := insertNode_refines hrep username hlen
    have hreturns := returns_insertNode hcapped username nodename
    rw [← hrecords] at hreturns
    refine ⟨_, c', hcall, hreturns, ?_⟩
    rintro ⟨userid, hname⟩
    obtain ⟨u, hu⟩ := fetch_of_nameByUserid hname
    exact hreturns.ne_missing hu

instance : (k : UserCall) → Decidable k.Fits
  | .change _ (.insertUserInfo userid username) =>
    inferInstanceAs (Decidable (username.length < 256 ∧ userid.length < 256))
  | .change _ (.insertNodeToUserInfo _ nodename) => inferInstanceAs (Decidable (nodename.length < 256))
  | .change _ (.setUserLine _ state) => inferInstanceAs (Decidable (state.length < 256))
  | .change _ (.setNodeLine _ _ state) => inferInstanceAs (Decidable (state.length < 10))
  | .lookUp _ => inferInstanceAs (Decidable True)

/-- One name in two spellings, and a node under a third. -/
def threeCalls : List UserCall :=
  [.change true (.insertUserInfo (bytes "1") (bytes "bob")), .change true (.insertUserInfo (bytes "2") (bytes "BOB")),
    .change false (.insertNodeToUserInfo (bytes "Bob") (bytes "tv"))]

/-- One record, with its node, in both containers. -/
theorem directory_invariant_three :
    ∃ c, runEvents (Containers.call (commandTableDictType 5381)) Containers.empty threeCalls = some c ∧
      c.records = [⟨bytes "bob", bytes "1", bytes "off", [⟨bytes "tv", bytes "off"⟩]⟩] ∧
      (∀ a ∈ c.walk, (dictFetchValue (commandTableDictType 5381) c.dict (c.nameAt a)).1 = some a) ∧
      c.index.toNat = 1 := by
  obtain ⟨c, hrun, -, hfound, -, hindex, -⟩ := directory_invariant 5381 threeCalls (by decide +kernel)
  have hview :
      (runEvents (Containers.call (commandTableDictType 5381)) Containers.empty threeCalls).map Containers.records =
        some [⟨bytes "bob", bytes "1", bytes "off", [⟨bytes "tv", bytes "off"⟩]⟩] := by decide +kernel
  rw [hrun] at hview
  have hrecords := Option.some.inj hview
  rw [hrecords] at hindex
  exact ⟨c, hrun, hrecords, hfound, hindex (by decide)⟩

end SmartHome.Chat
