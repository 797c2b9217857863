/-
  Subject:   THE TWO DIRECTORIES: the list of myuser.c and the dictionary of mydictuser.c.

  Both keep the records of the accounts, the newest first. The list compares names with `strcmp`. The
  dictionary is made with the type of the command table, whose keys are compared without regard to case;
  and it does not take a name it finds. So a second account whose name is spelled like the first but for
  case is missing from the dictionary, and a call under another spelling changes a record of the
  dictionary that the list leaves alone.

  * `UserRecord` -- a record; `MyUser`, `MyDictUser` -- the two files, function by function;
  * `DirCall` -- the calls that change something; `Agree` -- the same answers for all names inserted;
  * `Harmless` -- a call under the name of the record it finds, or one that changes nothing there;
  * **`directories_agree`** -- they agree after every prefix of the calls exactly if every call is harmless;
    `spellings_disagree` -- two accounts;
  * `records_insertUserInfo`, … -- the directory of the server is the dictionary of this module.
-/
import SmartHome.Chat.Directory
import Mathlib.Data.List.Nodup

namespace SmartHome.Chat

open SmartHome.Lib

attribute [local instance] lawfulBEq_bytes

/-! ## 1. Records -/

/-- `MyNodeInfo`; the line may be any text. -/
structure NodeRecord where
  name : Bytes
  line : Bytes
  deriving DecidableEq, Repr

/-- `MyNodeUserInfo`; `index` is the length of `nodes`. -/
@[ext] structure UserRecord where
  name : Bytes
  userid : Bytes
  line : Bytes
  nodes : List NodeRecord
  deriving DecidableEq, Repr

/-- `newMyNodeUserInfo`, as `insertUserInfo` fills it in. -/
def UserRecord.new (userid name : Bytes) : UserRecord := ⟨name, userid, bytes "off", []⟩

/-- What `insertNodeToUserInfo` does to a record. -/
def UserRecord.insertNode (u : UserRecord) (nodename : Bytes) : Int × UserRecord :=
  if nodename ∈ u.nodes.map NodeRecord.name then (0, u)
  else if u.nodes.length ≥ 6 then (-1, u)
  else (1, { u with nodes := u.nodes ++ [⟨nodename, bytes "off"⟩] })

/-- The line of the account set. -/
def UserRecord.setLine (u : UserRecord) (state : Bytes) : UserRecord := { u with line := state }

/-- The line of a node set. -/
def UserRecord.setNode (u : UserRecord) (nodename state : Bytes) : UserRecord :=
  { u with nodes := modifyFirst (fun n => n.name == nodename) (fun n => { n with line := state }) u.nodes }

/-! ## 2. The functions, for any way to compare names -/

section Keyed

variable (key : Bytes → Bytes)

/-- The record of a name. -/
def fetch (l : List UserRecord) (name : Bytes) : Option UserRecord := l.find? fun u => key u.name == key name

/-- A change to it. -/
def change (l : List UserRecord) (name : Bytes) (f : UserRecord → UserRecord) : List UserRecord :=
  modifyFirst (fun u => key u.name == key name) f l

/-- `insertNodeToUserInfo`, with the answer for a name that is not there. -/
def insertNodeBy (missing : Int) (l : List UserRecord) (username nodename : Bytes) : Int × List UserRecord :=
  match fetch key l username with
  | none => (missing, l)
  | some u => ((u.insertNode nodename).1, change key l username fun v => (v.insertNode nodename).2)

/-- `getUserNodeSize`. -/
def nodeSizeBy (l : List UserRecord) (username : Bytes) : Nat :=
  match fetch key l username with
  | none => 0
  | some u => u.nodes.length

/-- `getAllNodeInfo`: the nodes it shows. -/
def nodesBy (l : List UserRecord) (username : Bytes) : List NodeRecord :=
  match fetch key l username with
  | none => []
  | some u => u.nodes

end Keyed

/-- `getNameByUserid`, the same in both files. -/
def nameByUserid (l : List UserRecord) (userid : Bytes) : Option Bytes :=
  (l.find? fun u => u.userid == userid).map UserRecord.name

/-! ## 3. myuser.c -/

namespace MyUser

def insertUserInfo (l : List UserRecord) (userid name : Bytes) : List UserRecord := UserRecord.new userid name :: l

def insertNodeToUserInfo (l : List UserRecord) (username nodename : Bytes) : Int × List UserRecord :=
  insertNodeBy id 0 l username nodename

def getUserNodeSize (l : List UserRecord) (username : Bytes) : Nat := nodeSizeBy id l username

def getAllNodeInfo (l : List UserRecord) (username : Bytes) : List NodeRecord := nodesBy id l username

def getUseridByName (l : List UserRecord) (username : Bytes) : Bytes :=
  match fetch id l username with
  | none => bytes "no_such_userid"
  | some u => u.userid

def getNameByUserid (l : List UserRecord) (userid : Bytes) : Option Bytes := nameByUserid l userid

def chatUpdateUserInfo (l : List UserRecord) (username state : Bytes) : List UserRecord :=
  change id l username fun u => u.setLine state

def chatUpdateNodeInfo (l : List UserRecord) (username nodename state : Bytes) : List UserRecord :=
  change id l username fun u => u.setNode nodename state

/-- The names and lines `chatUserInfo` shows. -/
def chatUserInfo (l : List UserRecord) : List (Bytes × Bytes) := l.map fun u => (u.name, u.line)

/-- The line it shows for a name. -/
def userLine (l : List UserRecord) (username : Bytes) : Option Bytes :=
  ((chatUserInfo l).find? fun x => x.1 == username).map Prod.snd

end MyUser

/-! ## 4. mydictuser.c -/

namespace MyDictUser

/-- Nothing happens if the name is found. -/
def insertUserInfo (l : List UserRecord) (userid username : Bytes) : List UserRecord :=
  match fetch lower l username with
  | none => UserRecord.new userid username :: l
  | some _ => l

def insertNodeToUserInfo (l : List UserRecord) (username nodename : Bytes) : Int × List UserRecord :=
  insertNodeBy lower (-2) l username nodename

def getUserNodeSize (l : List UserRecord) (username : Bytes) : Nat := nodeSizeBy lower l username

def getAllNodeInfo (l : List UserRecord) (username : Bytes) : List NodeRecord := nodesBy lower l username

def getUseridByName (l : List UserRecord) (username : Bytes) : Option Bytes :=
  (fetch lower l username).map UserRecord.userid

def getNameByUserid (l : List UserRecord) (userid : Bytes) : Option Bytes := nameByUserid l userid

/-- `chatSetOrGetUserInfo` with `OPERATION_SET_INFO`. -/
def setUserInfo (l : List UserRecord) (username state : Bytes) : List UserRecord :=
  change lower l username fun u => u.setLine state

/-- `chatSetOrGetNodeInfo` with `OPERATION_SET_INFO`. -/
def setNodeInfo (l : List UserRecord) (username nodename state : Bytes) : List UserRecord :=
  change lower l username fun u => u.setNode nodename state

/-- `chatSetOrGetUserInfo` with `OPERATION_GET_INFO`. -/
def getUserInfo (l : List UserRecord) (username : Bytes) : Option Bytes :=
  (fetch lower l username).map UserRecord.line

end MyDictUser

/-! ## 5. Calls -/

/-- The calls that change a directory. -/
inductive DirCall where
  | insertUserInfo (userid username : Bytes)
  | insertNodeToUserInfo (username nodename : Bytes)
  | setUserLine (username state : Bytes)
  | setNodeLine (username nodename state : Bytes)
  deriving DecidableEq

/-- A call of myuser.c. -/
def MyUser.call (l : List UserRecord) : DirCall → List UserRecord
  | .insertUserInfo userid username => MyUser.insertUserInfo l userid username
  | .insertNodeToUserInfo username nodename => (MyUser.insertNodeToUserInfo l username nodename).2
  | .setUserLine username state => MyUser.chatUpdateUserInfo l username state
  | .setNodeLine username nodename state => MyUser.chatUpdateNodeInfo l username nodename state

/-- A call of mydictuser.c. -/
def MyDictUser.call (l : List UserRecord) : DirCall → List UserRecord
  | .insertUserInfo userid username => MyDictUser.insertUserInfo l userid username
  | .insertNodeToUserInfo username nodename => (MyDictUser.insertNodeToUserInfo l username nodename).2
  | .setUserLine username state => MyDictUser.setUserInfo l username state
  | .setNodeLine username nodename state => MyDictUser.setNodeInfo l username nodename state

/-- From the empty list. -/
def MyUser.run (calls : List DirCall) : List UserRecord := calls.foldl MyUser.call []

/-- From the empty dictionary. -/
def MyDictUser.run (calls : List DirCall) : List UserRecord := calls.foldl MyDictUser.call []

/-- The userids and usernames that were inserted. -/
def inserted (calls : List DirCall) : List (Bytes × Bytes) :=
  calls.filterMap fun
    | .insertUserInfo userid username => some (userid, username)
    | _ => none

/-- **The same answers for everybody who was inserted**: `d` is the dictionary, `l` the list. -/
structure Agree (users : List (Bytes × Bytes)) (d l : List UserRecord) : Prop where
  userid : ∀ x ∈ users, MyDictUser.getUseridByName d x.2 = some (MyUser.getUseridByName l x.2)
  name : ∀ x ∈ users, MyDictUser.getNameByUserid d x.1 = MyUser.getNameByUserid l x.1
  size : ∀ x ∈ users, MyDictUser.getUserNodeSize d x.2 = MyUser.getUserNodeSize l x.2
  insertNode : ∀ x ∈ users, ∀ nodename,
    (MyDictUser.insertNodeToUserInfo d x.2 nodename).1 = (MyUser.insertNodeToUserInfo l x.2 nodename).1
  nodes : ∀ x ∈ users, MyDictUser.getAllNodeInfo d x.2 = MyUser.getAllNodeInfo l x.2
  line : ∀ x ∈ users, MyDictUser.getUserInfo d x.2 = MyUser.userLine l x.2

/-- The record found under a name has that name, or the change changes nothing in it. -/
def SpeltOr (d : List UserRecord) (username : Bytes) (f : UserRecord → UserRecord) : Prop :=
  ∀ u, fetch lower d username = some u → u.name = username ∨ f u = u

/-- **A call that does the same to both**: an insertion finds no record, any other call finds one of exactly
    that name, or none, or changes nothing. -/
def Harmless (d : List UserRecord) : DirCall → Prop
  | .insertUserInfo _ username => fetch lower d username = none
  | .insertNodeToUserInfo username nodename => SpeltOr d username fun u => (u.insertNode nodename).2
  | .setUserLine username state => SpeltOr d username fun u => u.setLine state
  | .setNodeLine username nodename state => SpeltOr d username fun u => u.setNode nodename state

/-! ## 6. Looking up in a directory without two spellings -/

section Lookup

variable {l : List UserRecord}

theorem change_none {key : Bytes → Bytes} {name : Bytes} (h : fetch key l name = none) (f : UserRecord → UserRecord) :
    change key l name f = l :=
  modifyFirst_id fun x hx => absurd (h.symm.trans hx) (Option.some_ne_none x).symm

/-- `insertNodeToUserInfo` changes the record it finds. -/
theorem insertNodeBy_snd (key : Bytes → Bytes) (missing : Int) (l : List UserRecord) (username nodename : Bytes) :
    (insertNodeBy key missing l username nodename).2 = change key l username fun v => (v.insertNode nodename).2 := by
  unfold insertNodeBy
  split
  · rename_i h
    exact (change_none h _).symm
  · rfl

theorem fetch_name {key : Bytes → Bytes} {name : Bytes} {u : UserRecord} (h : fetch key l name = some u) :
    key u.name = key name :=
  beq_iff_eq.mp (List.find?_some (p := fun u : UserRecord => key u.name == key name) h)

variable (hd : (l.map fun u => lower u.name).Nodup)

include hd

theorem fetch_lower_mem {u : UserRecord} (hu : u ∈ l) : fetch lower l u.name = some u :=
  find?_key (k := fun u : UserRecord => lower u.name) hd hu

theorem fetch_id_mem {u : UserRecord} (hu : u ∈ l) : fetch id l u.name = some u := by
  have hnames : (l.map fun u => u.name).Nodup := by
    have hcomp : (l.map fun u => lower u.name) = (l.map fun u => u.name).map lower := List.map_map.symm
    rw [hcomp] at hd
    exact List.Nodup.of_map lower hd
  exact find?_key (k := fun u : UserRecord => u.name) hnames hu

/-- Under a spelling that is not that of the record, the list finds nothing. -/
theorem fetch_id_other {name : Bytes} (h : ∀ u, fetch lower l name = some u → u.name ≠ name) :
    fetch id l name = none := by
  cases hv : fetch id l name with
  | none => rfl
  | some v =>
    have hname : v.name = name := fetch_name hv
    have hfound := fetch_lower_mem hd (List.mem_of_find?_eq_some hv)
    rw [hname] at hfound
    exact absurd hname (h v hfound)

end Lookup

/-! ## 7. One call -/

/-- The directory both have: who was inserted, and no name in two spellings. -/
structure Common (calls : List DirCall) (l : List UserRecord) : Prop where
  users : l.map (fun u => (u.userid, u.name)) = (inserted calls).reverse
  distinct : (l.map fun u => lower u.name).Nodup

section Change

variable {l : List UserRecord} (hd : (l.map fun u => lower u.name).Nodup) {username : Bytes}
  {f : UserRecord → UserRecord}

include hd

/-- A harmless change is the same for both. -/
theorem change_same (h : SpeltOr l username f) : change lower l username f = change id l username f := by
  cases hu : fetch lower l username with
  | none =>
    have hno : fetch id l username = none :=
      fetch_id_other hd fun u h => absurd (hu.symm.trans h) (Option.some_ne_none u).symm
    rw [change_none hu, change_none hno]
  | some u =>
    by_cases hname : u.name = username
    · -- the two tests are met by the same record
      refine modifyFirst_congr fun v hv => ?_
      rw [Bool.eq_iff_iff, beq_iff_eq, beq_iff_eq]
      constructor
      · intro heq
        have hfound := fetch_lower_mem hd hv
        unfold fetch at hfound hu
        rw [heq] at hfound
        rw [Option.some.inj (hfound.symm.trans hu), hname]
      · exact fun heq => congrArg lower heq
    · have hsame : f u = u := (h u hu).resolve_left hname
      have hno : fetch id l username = none := by
        refine fetch_id_other hd fun v hv => ?_
        rw [Option.some.inj (hv.symm.trans hu)]
        exact hname
      rw [change_none hno]
      refine modifyFirst_id fun v hv => ?_
      rw [Option.some.inj (hv.symm.trans hu)]
      exact hsame

/-- A change that is not harmless is seen by the dictionary only. -/
theorem change_differs (h : ¬ SpeltOr l username f) (hf : ∀ u, (f u).name = u.name) :
    ∃ u ∈ l, f u ≠ u ∧ fetch lower (change lower l username f) u.name = some (f u) ∧
      fetch id (change id l username f) u.name = some u := by
  unfold SpeltOr at h
  push Not at h
  obtain ⟨u, hu, hname, hne⟩ := h
  have hmem : u ∈ l := List.mem_of_find?_eq_some hu
  refine ⟨u, hmem, hne, ?_, ?_⟩
  · have hfound : fetch lower (change lower l username f) username = (fetch lower l username).map f :=
      find?_modifyFirst fun v => by rw [hf]
    rw [hu] at hfound
    have hkey : lower u.name = lower username := fetch_name hu
    unfold fetch at hfound ⊢
    rw [hkey]
    exact hfound
  · have hno : fetch id l username = none := by
      refine fetch_id_other hd fun v hv => ?_
      rw [Option.some.inj (hv.symm.trans hu)]
      exact hname
    rw [change_none hno]
    exact fetch_id_mem hd hmem

end Change

section Calls

variable {calls : List DirCall} {l : List UserRecord} {c : DirCall}

theorem inserted_concat (calls : List DirCall) (c : DirCall) :
    inserted (calls ++ [c]) = inserted calls ++ inserted [c] := List.filterMap_append

/-- A change of a record that keeps userid and name. -/
theorem common_change (h : Common calls l) (hc : inserted [c] = []) {username : Bytes} {f : UserRecord → UserRecord}
    (hid : ∀ u, (f u).userid = u.userid) (hname : ∀ u, (f u).name = u.name) :
    Common (calls ++ [c]) (change lower l username f) where
  users := by
    rw [inserted_concat, hc, List.append_nil, ← h.users]
    exact map_modifyFirst fun u _ => by rw [hid, hname]
  distinct := by
    have hsame : ((change lower l username f).map fun u => lower u.name) = l.map fun u => lower u.name :=
      map_modifyFirst fun u _ => by rw [hname]
    rw [hsame]
    exact h.distinct

theorem UserRecord.insertNode_keeps (u : UserRecord) (nodename : Bytes) :
    (u.insertNode nodename).2 = { u with nodes := (u.insertNode nodename).2.nodes } := by
  unfold UserRecord.insertNode
  split
  · rfl
  · split
    · rfl
    · rfl

/-- **A harmless call is the same for both**, and keeps what they have in common. -/
theorem common_call (h : Common calls l) (hc : Harmless l c) :
    MyDictUser.call l c = MyUser.call l c ∧ Common (calls ++ [c]) (MyDictUser.call l c) := by
  cases c with
  | insertUserInfo userid username =>
    have hnone : fetch lower l username = none := hc
    have hcall : MyDictUser.insertUserInfo l userid username = UserRecord.new userid username :: l := by
      unfold MyDictUser.insertUserInfo
      rw [hnone]
    refine ⟨hcall, ?_⟩
    show Common _ (MyDictUser.insertUserInfo l userid username)
    rw [hcall]
    refine ⟨?_, List.nodup_cons.mpr ⟨fun hmem => ?_, h.distinct⟩⟩
    · rw [inserted_concat, List.reverse_append, List.map_cons, h.users]
      rfl
    · obtain ⟨u, hu, heq⟩ := List.mem_map.mp hmem
      exact List.find?_eq_none.mp hnone u hu (beq_iff_eq.mpr heq)
  | insertNodeToUserInfo username nodename =>
    have hkeeps := fun u : UserRecord => u.insertNode_keeps nodename
    have hdict : MyDictUser.call l (.insertNodeToUserInfo username nodename) = _ :=
      insertNodeBy_snd lower (-2) l username nodename
    have hlist : MyUser.call l (.insertNodeToUserInfo username nodename) = _ :=
      insertNodeBy_snd id 0 l username nodename
    rw [hdict, hlist]
    exact ⟨change_same h.distinct hc, common_change h rfl (fun u => by rw [hkeeps]) fun u => by rw [hkeeps]⟩
  | setUserLine username state | setNodeLine username nodename state =>
    exact ⟨change_same h.distinct hc, common_change h rfl (fun _ => rfl) fun _ => rfl⟩

/-- **They agree while they have the same records.** -/
theorem Common.agree (h : Common calls l) : Agree (inserted calls) l l := by
  have hfound : ∀ x ∈ inserted calls, ∃ u, u.userid = x.1 ∧ fetch lower l x.2 = some u ∧ fetch id l x.2 = some u := by
    intro x hx
    have hmem : x ∈ l.map fun u => (u.userid, u.name) := by
      rw [h.users]
      exact List.mem_reverse.mpr hx
    obtain ⟨u, hu, rfl⟩ := List.mem_map.mp hmem
    exact ⟨u, rfl, fetch_lower_mem h.distinct hu, fetch_id_mem h.distinct hu⟩
  refine ⟨fun x hx => ?_, fun x _ => rfl, fun x hx => ?_, fun x hx nodename => ?_, fun x hx => ?_, fun x hx => ?_⟩
  all_goals obtain ⟨u, _, hlower, hid⟩ := hfound x hx
  · unfold MyDictUser.getUseridByName MyUser.getUseridByName
    rw [hlower, hid]
    rfl
  · unfold MyDictUser.getUserNodeSize MyUser.getUserNodeSize nodeSizeBy
    rw [hlower, hid]
  · unfold MyDictUser.insertNodeToUserInfo MyUser.insertNodeToUserInfo insertNodeBy
    rw [hlower, hid]
  · unfold MyDictUser.getAllNodeInfo MyUser.getAllNodeInfo nodesBy
    rw [hlower, hid]
  · unfold MyDictUser.getUserInfo MyUser.userLine MyUser.chatUserInfo
    rw [hlower, List.find?_map, Option.map_map]
    exact (congrArg (Option.map UserRecord.line) hid).symm

/-- A change that only the dictionary sees shows in the nodes or in the line of somebody inserted. -/
theorem not_agree_of_change (h : Common calls l) {users : List (Bytes × Bytes)} {username : Bytes}
    {f : UserRecord → UserRecord} (husers : inserted calls = users)
    (hkeeps : ∀ u, f u = { u with nodes := (f u).nodes, line := (f u).line }) (hspelt : ¬ SpeltOr l username f) :
    ¬ Agree users (change lower l username f) (change id l username f) := by
  intro hagree
  have hname : ∀ u, (f u).name = u.name := fun u => by rw [hkeeps]
  obtain ⟨u, hu, hne, hdict, hlist⟩ := change_differs h.distinct hspelt hname
  have hmem : (u.userid, u.name) ∈ users := by
    rw [← husers, ← List.mem_reverse, ← h.users]
    exact List.mem_map_of_mem hu
  have hnodes := hagree.nodes _ hmem
  have hline := hagree.line _ hmem
  unfold MyDictUser.getAllNodeInfo MyUser.getAllNodeInfo nodesBy at hnodes
  rw [hdict, hlist] at hnodes
  unfold MyDictUser.getUserInfo MyUser.userLine MyUser.chatUserInfo at hline
  rw [hdict, List.find?_map, Option.map_map] at hline
  have hline : some (f u).line = some u.line := hline.trans (congrArg (Option.map UserRecord.line) hlist)
  have hnodes : (f u).nodes = u.nodes := hnodes
  refine hne ?_
  rw [hkeeps u, hnodes, Option.some.inj hline]

/-- **A call that is not harmless is seen**: they do not agree after it. -/
theorem not_agree_of_harmful (h : Common calls l) (hnew : ((inserted (calls ++ [c])).map Prod.snd).Nodup)
    (hc : ¬ Harmless l c) : ¬ Agree (inserted (calls ++ [c])) (MyDictUser.call l c) (MyUser.call l c) := by
  cases c with
  | insertUserInfo userid username =>
    -- the list answers the new name for the new userid, and the dictionary has no record of that name
    intro hagree
    obtain ⟨u, hu⟩ := Option.ne_none_iff_exists'.mp hc
    have hmem : (userid, username) ∈ inserted (calls ++ [.insertUserInfo userid username]) := by
      rw [inserted_concat]
      exact List.mem_append_right _ (List.mem_singleton_self _)
    have hname := hagree.name _ hmem
    have hdict : MyDictUser.call l (.insertUserInfo userid username) = l := by
      show MyDictUser.insertUserInfo l userid username = l
      unfold MyDictUser.insertUserInfo
      rw [hu]
    have hlist : MyUser.getNameByUserid (MyUser.call l (.insertUserInfo userid username)) userid = some username := by
      show Option.map UserRecord.name (List.find? _ (UserRecord.new userid username :: l)) = some username
      rw [List.find?_cons_of_pos (by exact beq_self_eq_true userid)]
      rfl
    rw [hdict, hlist] at hname
    obtain ⟨v, hv, hvname⟩ := Option.map_eq_some_iff.mp hname
    have hbefore : username ∈ (inserted calls).map Prod.snd := by
      rw [← List.mem_reverse, ← List.map_reverse, ← h.users, List.map_map, ← hvname]
      exact List.mem_map_of_mem (f := fun u : UserRecord => u.name) (List.mem_of_find?_eq_some hv)
    rw [inserted_concat, List.map_append] at hnew
    exact (List.nodup_append.mp hnew).2.2 username hbefore username (List.mem_singleton_self username) rfl
  | insertNodeToUserInfo username nodename =>
    have hdict : MyDictUser.call l (.insertNodeToUserInfo username nodename) = _ :=
      insertNodeBy_snd lower (-2) l username nodename
    have hlist : MyUser.call l (.insertNodeToUserInfo username nodename) = _ :=
      insertNodeBy_snd id 0 l username nodename
    rw [hdict, hlist]
    refine not_agree_of_change h ?_ (fun u => ?_) hc
    · rw [inserted_concat]
      exact (List.append_nil _).symm
    · rw [u.insertNode_keeps]
  | setUserLine username state | setNodeLine username nodename state =>
    refine not_agree_of_change h ?_ (fun u => rfl) hc
    rw [inserted_concat]
    exact (List.append_nil _).symm

end Calls

/-! ## 8. Any calls -/

theorem dictRun_concat (calls : List DirCall) (c : DirCall) :
    MyDictUser.run (calls ++ [c]) = MyDictUser.call (MyDictUser.run calls) c := List.foldl_concat _ _ _ _

theorem listRun_concat (calls : List DirCall) (c : DirCall) :
    MyUser.run (calls ++ [c]) = MyUser.call (MyUser.run calls) c := List.foldl_concat _ _ _ _

/-- While all calls are harmless, the records are the same. -/
theorem run_common (calls : List DirCall)
    (h : ∀ before c, before ++ [c] <+: calls → Harmless (MyDictUser.run before) c) :
    MyUser.run calls = MyDictUser.run calls ∧ Common calls (MyDictUser.run calls) := by
  induction calls using List.reverseRecOn with
  | nil => exact ⟨rfl, rfl, List.nodup_nil⟩
  | append_singleton calls c ih =>
    obtain ⟨hsame, hcommon⟩ := ih fun before c' hpre => h before c' (hpre.trans (List.prefix_append calls [c]))
    obtain ⟨hcall, hnext⟩ := common_call hcommon (h calls c (List.prefix_refl _))
    rw [dictRun_concat, listRun_concat, hsame]
    exact ⟨hcall.symm, hnext⟩

/-- **When the dictionary answers like the list.** For all calls that insert no name twice: after every prefix
    of them both give the same answers for everybody inserted, exactly if every call is harmless in the
    dictionary before it. -/
theorem directories_agree (calls : List DirCall) (hnew : ((inserted calls).map Prod.snd).Nodup) :
    (∀ before, before <+: calls → Agree (inserted before) (MyDictUser.run before) (MyUser.run before)) ↔
      ∀ before c, before ++ [c] <+: calls → Harmless (MyDictUser.run before) c := by
  constructor
  · intro hagree
    -- the first call that is not harmless would be seen
    suffices hall : ∀ done, done <+: calls →
        ∀ before c, before ++ [c] <+: done → Harmless (MyDictUser.run before) c from
      hall calls (List.prefix_refl _)
    intro done
    induction done using List.reverseRecOn with
    | nil =>
      intro _ before c hpre
      exact absurd (List.prefix_nil.mp hpre) (List.append_ne_nil_of_right_ne_nil _ (List.cons_ne_nil _ _))
    | append_singleton done c ih =>
      intro hdone before c' hpre
      have hbefore := ih ((List.prefix_append done [c]).trans hdone)
      rcases List.prefix_concat_iff.mp hpre with heq | hpre
      · obtain ⟨rfl, hc⟩ := List.append_inj' heq rfl
        cases hc
        obtain ⟨hsame, hcommon⟩ := run_common before hbefore
        by_contra hharm
        have hfewer : ((inserted (before ++ [c])).map Prod.snd) <+: ((inserted calls).map Prod.snd) :=
          (hdone.filterMap _).map Prod.snd
        have hseen := hagree (before ++ [c]) hdone
        rw [dictRun_concat, listRun_concat, hsame] at hseen
        exact not_agree_of_harmful hcommon (hfewer.sublist.nodup hnew) hharm hseen
      · exact hbefore before c' hpre
  · intro hharmless before hpre
    obtain ⟨hsame, hcommon⟩ := run_common before fun b c hb => hharmless b c (hb.trans hpre)
    rw [hsame]
    exact hcommon.agree

/-- One account, one node. -/
def plainCalls : List DirCall :=
  [.insertUserInfo (bytes "1") (bytes "bob"), .insertNodeToUserInfo (bytes "bob") (bytes "tv")]

theorem directories_agree_plain :
    (∀ before, before <+: plainCalls → Agree (inserted before) (MyDictUser.run before) (MyUser.run before)) ↔
      ∀ before c, before ++ [c] <+: plainCalls → Harmless (MyDictUser.run before) c :=
  directories_agree plainCalls (by decide)

/-- Two accounts whose names differ in case only. -/
def spellings : List DirCall :=
  [.insertUserInfo (bytes "1") (bytes "bob"), .insertUserInfo (bytes "2") (bytes "Bob")]

/-- **Two spellings**: no name is inserted twice, and the dictionary answers the userid of the other one. -/
theorem spellings_disagree :
    ((inserted spellings).map Prod.snd).Nodup ∧
      MyDictUser.getUseridByName (MyDictUser.run spellings) (bytes "Bob") = some (bytes "1") ∧
      MyUser.getUseridByName (MyUser.run spellings) (bytes "Bob") = bytes "2" := by decide +kernel

/-! ## 9. The directory of the server -/

/-- A node of the server's directory. -/
def NodeInfo.record (n : NodeInfo) : NodeRecord := ⟨n.name, n.line.text⟩

/-- An account of it. -/
def NodeUserInfo.record (u : NodeUserInfo) : UserRecord := ⟨u.name, u.userid, u.line.text, u.nodes.map NodeInfo.record⟩

/-- All of it. -/
def Directory.records (d : Directory) : List UserRecord := d.userInfo.map NodeUserInfo.record

section Server

variable (d : Directory)

theorem fetch_records (username : Bytes) :
    fetch lower d.records username = (d.dictFetchValue username).map NodeUserInfo.record := List.find?_map

theorem record_insertNode (u : NodeUserInfo) (nodename : Bytes) :
    u.record.insertNode nodename = ((u.insertNode nodename).1, (u.insertNode nodename).2.record) := by
  have hnames : u.record.nodes.map NodeRecord.name = u.nodes.map NodeInfo.name := List.map_map
  have hlength : u.record.nodes.length = u.nodes.length := List.length_map _
  unfold UserRecord.insertNode NodeUserInfo.insertNode
  rw [hnames, hlength]
  split
  · rfl
  · split
    · rfl
    · refine Prod.ext rfl ?_
      show UserRecord.mk _ _ _ _ = UserRecord.mk _ _ _ _
      rw [List.map_append]
      rfl

theorem records_insertUserInfo (userid username : Bytes) :
    (d.insertUserInfo userid username).records = MyDictUser.insertUserInfo d.records userid username := by
  unfold Directory.insertUserInfo MyDictUser.insertUserInfo
  rw [fetch_records]
  by_cases h : d.dictFetchValue username = none
  · rw [dif_pos h, h]
    rfl
  · obtain ⟨u, hu⟩ := Option.ne_none_iff_exists'.mp h
    rw [dif_neg h, hu]
    rfl

theorem records_modify (username : Bytes) {f : NodeUserInfo → NodeUserInfo} (hf : ∀ u, (f u).name = u.name)
    {g : UserRecord → UserRecord} (h : ∀ u, (f u).record = g u.record) :
    (d.modify username f hf).records = change lower d.records username g :=
  map_modifyFirst_comm (fun _ => rfl) h

theorem records_insertNodeToUserInfo (username nodename : Bytes) :
    MyDictUser.insertNodeToUserInfo d.records username nodename =
      ((d.insertNodeToUserInfo username nodename).1, (d.insertNodeToUserInfo username nodename).2.records) := by
  unfold MyDictUser.insertNodeToUserInfo insertNodeBy Directory.insertNodeToUserInfo
  rw [fetch_records]
  cases d.dictFetchValue username with
  | none => rfl
  | some u =>
    have hresult : (u.record.insertNode nodename).1 = (u.insertNode nodename).1 :=
      congrArg Prod.fst (record_insertNode u nodename)
    have hstate := records_modify d username (fun v => v.insertNode_name nodename)
      (g := fun v => (v.insertNode nodename).2) fun v => (congrArg Prod.snd (record_insertNode v nodename)).symm
    exact Prod.ext hresult hstate.symm

theorem records_setUserInfo (username : Bytes) (line : Line) :
    (d.setUserInfo username line).records = MyDictUser.setUserInfo d.records username line.text :=
  records_modify d username _ fun _ => rfl

theorem records_setNodeInfo (username nodename : Bytes) (line : Line) :
    (d.setNodeInfo username nodename line).records = MyDictUser.setNodeInfo d.records username nodename line.text := by
  refine records_modify d username _ fun u => ?_
  have hnodes : (u.setNode nodename line).nodes.map NodeInfo.record =
      modifyFirst (fun n => n.name == nodename) (fun n => { n with line := line.text }) (u.nodes.map NodeInfo.record) :=
    map_modifyFirst_comm (fun _ => rfl) fun _ => rfl
  show UserRecord.mk _ _ _ _ = UserRecord.mk _ _ _ _
  rw [hnodes]
  rfl

end Server

end SmartHome.Chat
