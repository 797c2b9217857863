/-
  Subject:   THE DIRECTORY OF ACCOUNTS AND NODES (mydictuser.c).

  The server keeps a record of every account: its name, its userid, whether it is on line, and up to
  six nodes, each with its name and whether it is on line. Every record hangs in a linked list, the
  newest first, and in a dictionary under the account's name; the dictionary compares names without
  regard to case. Nothing is ever removed. So one list holds it all: `userInfo` walks it, and the
  dictionary finds the one record in it whose name is the same but for case.

  * `NodeUserInfo`, `Directory` -- the records; that node names are distinct and at most six, and
    account names distinct but for case, is part of the type;
  * `dictFetchValue`, `insertUserInfo`, `insertNodeToUserInfo`, … -- mydictuser.c;
  * `dictFetchValue_modify`, `dictFetchValue_modify_ne` -- the frame of a change to one record;
  * `Directory.IsOn`, `Quiet` -- which nodes are on line, and the changes that leave that alone.
-/
import SmartHome.Lib.Table

namespace SmartHome.Chat

open SmartHome.Lib

/-! ## 1. Strings -/

/-- A C string, without its terminating zero. -/
abbrev Bytes := List UInt8

theorem lawfulBEq_bytes : LawfulBEq Bytes := inferInstance

/-- A literal. -/
def bytes (s : String) : Bytes := s.toUTF8.data.toList

/-- `tolower` in the C locale. -/
def tolower (b : UInt8) : UInt8 := if 0x41 ≤ b ∧ b ≤ 0x5A then b + 0x20 else b

/-- Strings that `strcasecmp` calls equal have the same image. -/
def lower (s : Bytes) : Bytes := s.map tolower

/-! ## 2. Records -/

/-- The field `line`. -/
inductive Line where
  | off
  | on
  deriving DecidableEq, Repr

/-- Its text. -/
def Line.text : Line → Bytes
  | .off => bytes "off"
  | .on => bytes "on"

/-- `MyNodeInfo`. -/
structure NodeInfo where
  name : Bytes
  line : Line
  deriving DecidableEq, Repr

/-- `MyNodeUserInfo`; `index` is the length of `nodes`, `MYNODE_MAX_NODES` is 6. -/
structure NodeUserInfo where
  name : Bytes
  userid : Bytes
  line : Line
  nodes : List NodeInfo
  fits : nodes.length ≤ 6
  distinct : (nodes.map NodeInfo.name).Nodup

/-- The records, the newest first: `myAllNodeUserInfo` and `myuserdict`. -/
structure Directory where
  userInfo : List NodeUserInfo
  distinct : (userInfo.map fun u => lower u.name).Nodup

/-- The names of the accounts, as they were registered. -/
def Directory.names (d : Directory) : List Bytes := d.userInfo.map NodeUserInfo.name

/-- No account. -/
def Directory.empty : Directory := ⟨[], List.nodup_nil⟩

/-! ## 3. mydictuser.c -/

/-- `dictFetchValue` on `myuserdict`. -/
def Directory.dictFetchValue (d : Directory) (name : Bytes) : Option NodeUserInfo :=
  d.userInfo.find? fun u => lower u.name == lower name

theorem Directory.lower_ne_of_none {d : Directory} {name : Bytes} (h : d.dictFetchValue name = none) :
    lower name ∉ d.userInfo.map fun u => lower u.name := by
  intro hmem
  obtain ⟨u, hu, he⟩ := List.mem_map.mp hmem
  have hne := List.find?_eq_none.mp h u hu
  exact hne (beq_iff_eq.mpr he)

/-- `newMyNodeUserInfo`, as `insertUserInfo` fills it in. -/
def newMyNodeUserInfo (userid username : Bytes) : NodeUserInfo :=
  ⟨username, userid, .off, [], Nat.zero_le 6, List.nodup_nil⟩

/-- A new record at the head of the list. -/
def Directory.push (d : Directory) (u : NodeUserInfo) (h : d.dictFetchValue u.name = none) : Directory where
  userInfo := u :: d.userInfo
  distinct := List.nodup_cons.mpr ⟨d.lower_ne_of_none h, d.distinct⟩

/-- `insertUserInfo`: nothing happens if the name is taken. -/
def Directory.insertUserInfo (d : Directory) (userid username : Bytes) : Directory :=
  if h : d.dictFetchValue username = none then d.push (newMyNodeUserInfo userid username) h else d

/-- A change to the record of an account that keeps its name. -/
def Directory.modify (d : Directory) (name : Bytes) (f : NodeUserInfo → NodeUserInfo)
    (hf : ∀ u, (f u).name = u.name) : Directory where
  userInfo := modifyFirst (fun u => lower u.name == lower name) f d.userInfo
  distinct := by
    rw [map_modifyFirst (g := fun u => lower u.name) fun u _ => congrArg lower (hf u)]
    exact d.distinct

/-- What `insertNodeToUserInfo` does to a record: 0 if the node is there, -1 if there are six, else 1
    and a new node that is off line. -/
def NodeUserInfo.insertNode (u : NodeUserInfo) (nodename : Bytes) : Int × NodeUserInfo :=
  if h : nodename ∈ u.nodes.map NodeInfo.name then (0, u)
  else if h6 : u.nodes.length ≥ 6 then (-1, u)
  else (1, { u with
    nodes := u.nodes ++ [⟨nodename, .off⟩]
    fits := by
      rw [List.length_append, List.length_singleton]
      omega
    distinct := by
      rw [List.map_append]
      refine List.nodup_append.mpr ⟨u.distinct, List.pairwise_singleton _ _, fun a ha b hb hab => ?_⟩
      have hname : b = nodename := List.mem_singleton.mp hb
      rw [hab, hname] at ha
      exact h ha })

theorem NodeUserInfo.insertNode_name (u : NodeUserInfo) (nodename : Bytes) :
    (u.insertNode nodename).2.name = u.name := by
  unfold NodeUserInfo.insertNode
  split
  · rfl
  · split
    · rfl
    · rfl

/-- `insertNodeToUserInfo`; -2 if there is no such account. -/
def Directory.insertNodeToUserInfo (d : Directory) (username nodename : Bytes) : Int × Directory :=
  match d.dictFetchValue username with
  | none => (-2, d)
  | some u => ((u.insertNode nodename).1,
      d.modify username (fun v => (v.insertNode nodename).2) fun v => v.insertNode_name nodename)

/-- `getUseridByName`. -/
def Directory.getUseridByName (d : Directory) (username : Bytes) : Option Bytes :=
  (d.dictFetchValue username).map NodeUserInfo.userid

/-- `getNameByUserid`: the newest account with this userid. -/
def Directory.getNameByUserid (d : Directory) (userid : Bytes) : Option Bytes :=
  (d.userInfo.find? fun u => u.userid == userid).map NodeUserInfo.name

/-- `chatSetOrGetUserInfo` with `OPERATION_GET_INFO`; `none` leaves `state` empty. -/
def Directory.getUserInfo (d : Directory) (username : Bytes) : Option Line :=
  (d.dictFetchValue username).map NodeUserInfo.line

/-- `chatSetOrGetUserInfo` with `OPERATION_SET_INFO`. -/
def Directory.setUserInfo (d : Directory) (username : Bytes) (line : Line) : Directory :=
  d.modify username (fun u => { u with line := line }) fun _ => rfl

/-- The line of a node of an account. -/
def NodeUserInfo.getNode (u : NodeUserInfo) (nodename : Bytes) : Option Line :=
  (u.nodes.find? fun n => n.name == nodename).map NodeInfo.line

/-- `chatSetOrGetNodeInfo` with `OPERATION_GET_INFO`; `none` leaves `state` empty. -/
def Directory.getNodeInfo (d : Directory) (username nodename : Bytes) : Option Line :=
  (d.dictFetchValue username).bind fun u => u.getNode nodename

/-- The record with the line of one node set. -/
def NodeUserInfo.setNode (u : NodeUserInfo) (nodename : Bytes) (line : Line) : NodeUserInfo :=
  { u with
    nodes := modifyFirst (fun n => n.name == nodename) (fun n => { n with line := line }) u.nodes
    fits := by
      have hlen := congrArg List.length
        (map_modifyFirst (p := fun n => n.name == nodename) (f := fun n => { n with line := line })
          (l := u.nodes) (g := NodeInfo.name) fun _ _ => rfl)
      rw [List.length_map, List.length_map] at hlen
      rw [hlen]
      exact u.fits
    distinct := by
      rw [map_modifyFirst (g := NodeInfo.name) (f := fun n => { n with line := line }) fun _ _ => rfl]
      exact u.distinct }

theorem NodeUserInfo.setNode_name (u : NodeUserInfo) (nodename : Bytes) (line : Line) :
    (u.setNode nodename line).name = u.name := rfl

/-- `chatSetOrGetNodeInfo` with `OPERATION_SET_INFO`. -/
def Directory.setNodeInfo (d : Directory) (username nodename : Bytes) (line : Line) : Directory :=
  d.modify username (fun u => u.setNode nodename line) fun u => u.setNode_name nodename line

/-- A row of the table `alluser` with the rows of `node` that belong to it. -/
structure UserRow where
  userid : Bytes
  name : Bytes
  nodeids : List Bytes

/-- `do_mysql_dump_redis`: the directory the server starts with. -/
def doMysqlDumpRedis (rows : List UserRow) : Directory :=
  rows.foldl (fun d row =>
    row.nodeids.foldl (fun d nodeid => (d.insertNodeToUserInfo row.name nodeid).2)
      (d.insertUserInfo row.userid row.name)) .empty

/-! ## 4. Looking up -/

section Lookup

variable {d : Directory}

/-- A record is found under its own name. -/
theorem dictFetchValue_of_mem {u : NodeUserInfo} (h : u ∈ d.userInfo) : d.dictFetchValue u.name = some u :=
  find?_key d.distinct h

/-- Registered names that are the same but for case are the same. -/
theorem names_inj {name name' : Bytes} (h : name ∈ d.names) (h' : name' ∈ d.names)
    (heq : lower name = lower name') : name = name' := by
  obtain ⟨u, hu, rfl⟩ := List.mem_map.mp h
  obtain ⟨u', hu', rfl⟩ := List.mem_map.mp h'
  have hf := dictFetchValue_of_mem hu
  have hf' := dictFetchValue_of_mem hu'
  unfold Directory.dictFetchValue at hf hf'
  rw [heq] at hf
  rw [Option.some.inj (hf.symm.trans hf')]

/-- A registered name is found. -/
theorem dictFetchValue_of_name {name : Bytes} (h : name ∈ d.names) :
    ∃ u, d.dictFetchValue name = some u ∧ u.name = name := by
  obtain ⟨u, hu, rfl⟩ := List.mem_map.mp h
  exact ⟨u, dictFetchValue_of_mem hu, rfl⟩

/-- The name of a userid is registered. -/
theorem getNameByUserid_mem {userid name : Bytes} (h : d.getNameByUserid userid = some name) :
    name ∈ d.names := by
  obtain ⟨u, hu, rfl⟩ := Option.map_eq_some_iff.mp h
  exact List.mem_map_of_mem (List.mem_of_find?_eq_some hu)

theorem getNodeInfo_of_fetch {name nodename : Bytes} {u : NodeUserInfo} (h : d.dictFetchValue name = some u) :
    d.getNodeInfo name nodename = u.getNode nodename := by
  unfold Directory.getNodeInfo
  rw [h]
  rfl

/-- The line of an entry of the directory. -/
theorem getNodeInfo_of_mem {u : NodeUserInfo} (hu : u ∈ d.userInfo) {n : NodeInfo} (hn : n ∈ u.nodes) :
    d.getNodeInfo u.name n.name = some n.line := by
  rw [getNodeInfo_of_fetch (dictFetchValue_of_mem hu)]
  unfold NodeUserInfo.getNode
  rw [find?_key u.distinct hn]
  rfl

end Lookup

/-! ## 5. Changing one record -/

section Modify

variable {d : Directory} {name : Bytes} {f : NodeUserInfo → NodeUserInfo} (hf : ∀ u, (f u).name = u.name)

@[simp] theorem names_modify : (d.modify name f hf).names = d.names := map_modifyFirst fun u _ => hf u

/-- **The record that is changed**, found under any spelling of its name. -/
theorem dictFetchValue_modify {name' : Bytes} (h : lower name' = lower name) :
    (d.modify name f hf).dictFetchValue name' = (d.dictFetchValue name').map f := by
  unfold Directory.dictFetchValue Directory.modify
  rw [h]
  exact find?_modifyFirst fun u => by rw [hf]

/-- **Every other record stays as it is.** -/
theorem dictFetchValue_modify_ne {name' : Bytes} (h : lower name' ≠ lower name) :
    (d.modify name f hf).dictFetchValue name' = d.dictFetchValue name' := by
  refine find?_modifyFirst_of_ne fun u hu => ?_
  have hname : lower u.name = lower name :=
    beq_iff_eq.mp (List.find?_some (p := fun v : NodeUserInfo => lower v.name == lower name) hu)
  have hne : (lower u.name == lower name') = false := by
    rw [hname]
    exact beq_eq_false_iff_ne.mpr (Ne.symm h)
  refine ⟨hne, ?_⟩
  rw [hf]
  exact hne

end Modify

/-! ## 6. Nodes on line -/

/-- The entry of an account and a node is on line. -/
def Directory.IsOn (d : Directory) (username nodename : Bytes) : Prop :=
  d.getNodeInfo username nodename = some .on

instance (d : Directory) (username nodename : Bytes) : Decidable (d.IsOn username nodename) :=
  inferInstanceAs (Decidable (_ = _))

theorem isOn_of_fetch {d : Directory} {name nodename : Bytes} {u : NodeUserInfo}
    (h : d.dictFetchValue name = some u) : d.IsOn name nodename ↔ u.getNode nodename = some .on := by
  unfold Directory.IsOn
  rw [getNodeInfo_of_fetch h]

/-- **A change that leaves the nodes on line alone**: accounts may be added, with no node on line. -/
structure Quiet (d d' : Directory) : Prop where
  grows : ∀ name ∈ d.names, name ∈ d'.names
  same : ∀ name ∈ d.names, ∀ nodename, d'.IsOn name nodename ↔ d.IsOn name nodename
  added : ∀ name ∈ d'.names, name ∉ d.names → ∀ nodename, ¬ d'.IsOn name nodename

theorem Quiet.refl (d : Directory) : Quiet d d :=
  ⟨fun _ h => h, fun _ _ _ => Iff.rfl, fun _ h hno => absurd h hno⟩

/-- A change to one record after which the same nodes are on line. -/
theorem quiet_modify {d : Directory} {name : Bytes} {f : NodeUserInfo → NodeUserInfo} (hf : ∀ u, (f u).name = u.name)
    (hnodes : ∀ u nodename, (f u).getNode nodename = some .on ↔ u.getNode nodename = some .on) :
    Quiet d (d.modify name f hf) := by
  refine ⟨fun n h => ?_, fun name' h nodename => ?_, fun n h hno => ?_⟩
  · rw [names_modify]
    exact h
  · obtain ⟨u, hu, _⟩ := dictFetchValue_of_name h
    by_cases hl : lower name' = lower name
    · have hu' : (d.modify name f hf).dictFetchValue name' = some (f u) := by
        rw [dictFetchValue_modify hf hl, hu]
        rfl
      rw [isOn_of_fetch hu', isOn_of_fetch hu]
      exact hnodes u nodename
    · have hu' : (d.modify name f hf).dictFetchValue name' = some u := by
        rw [dictFetchValue_modify_ne hf hl, hu]
      rw [isOn_of_fetch hu', isOn_of_fetch hu]
  · rw [names_modify] at h
    exact absurd h hno

theorem quiet_setUserInfo (d : Directory) (username : Bytes) (line : Line) :
    Quiet d (d.setUserInfo username line) :=
  quiet_modify (f := fun u => { u with line := line }) (fun _ => rfl) fun _ _ => Iff.rfl

/-- A new node is off line. -/
theorem getNode_insertNode (u : NodeUserInfo) (nodename nodename' : Bytes) :
    (u.insertNode nodename).2.getNode nodename' = some .on ↔ u.getNode nodename' = some .on := by
  unfold NodeUserInfo.insertNode
  split
  · exact Iff.rfl
  · split
    · exact Iff.rfl
    · unfold NodeUserInfo.getNode
      simp only [List.find?_append]
      cases hfind : u.nodes.find? fun n => n.name == nodename' with
      | some n => exact Iff.rfl
      | none =>
        rw [Option.none_or, List.find?_singleton]
        split
        · exact ⟨fun h => Line.noConfusion (Option.some.inj h), fun h => absurd h (Option.some_ne_none _).symm⟩
        · exact Iff.rfl

theorem quiet_insertNode (d : Directory) (username nodename : Bytes) :
    Quiet d (d.insertNodeToUserInfo username nodename).2 := by
  unfold Directory.insertNodeToUserInfo
  split
  · exact Quiet.refl d
  · exact quiet_modify (fun v => v.insertNode_name nodename) fun u n => getNode_insertNode u nodename n

theorem quiet_insertUserInfo (d : Directory) (userid username : Bytes) :
    Quiet d (d.insertUserInfo userid username) := by
  unfold Directory.insertUserInfo
  split
  · rename_i hnone
    refine ⟨fun name h => List.mem_cons_of_mem _ h, fun name h nodename => ?_, fun name h hno nodename => ?_⟩
    · -- an account that was there is not found under the new name
      obtain ⟨u, hu, rfl⟩ := List.mem_map.mp h
      have hpushed : u ∈ (d.push (newMyNodeUserInfo userid username) hnone).userInfo := List.mem_cons_of_mem _ hu
      rw [isOn_of_fetch (dictFetchValue_of_mem hpushed), isOn_of_fetch (dictFetchValue_of_mem hu)]
    · rcases List.mem_cons.mp h with hname | h
      · have hpushed : newMyNodeUserInfo userid username ∈
            (d.push (newMyNodeUserInfo userid username) hnone).userInfo := List.mem_cons_self
        rw [hname, isOn_of_fetch (dictFetchValue_of_mem hpushed)]
        exact (Option.some_ne_none _).symm
      · exact absurd h hno
  · exact Quiet.refl d

/-- The node whose line is set, if it is there. -/
theorem getNode_setNode (u : NodeUserInfo) (nodename : Bytes) (line : Line) :
    (u.setNode nodename line).getNode nodename = (u.getNode nodename).map fun _ => line := by
  unfold NodeUserInfo.getNode NodeUserInfo.setNode
  simp only
  rw [find?_modifyFirst (f := fun n : NodeInfo => { n with line := line }) fun _ => rfl, Option.map_map, Option.map_map]
  rfl

/-- The other nodes of the account. -/
theorem getNode_setNode_ne (u : NodeUserInfo) {nodename nodename' : Bytes} (line : Line)
    (h : nodename' ≠ nodename) : (u.setNode nodename line).getNode nodename' = u.getNode nodename' := by
  unfold NodeUserInfo.getNode NodeUserInfo.setNode
  simp only
  rw [find?_modifyFirst_of_ne]
  intro n hfind
  have hname : n.name = nodename :=
    beq_iff_eq.mp (List.find?_some (p := fun n : NodeInfo => n.name == nodename) hfind)
  have hne : (n.name == nodename') = false := by
    rw [hname]
    exact beq_eq_false_iff_ne.mpr (Ne.symm h)
  exact ⟨hne, hne⟩

/-- **Setting the line of an entry that is there.** -/
theorem isOn_setNodeInfo {d : Directory} {name name' nodename nodename' : Bytes} (line : Line)
    (h : name ∈ d.names) (h' : name' ∈ d.names) (hentry : d.getNodeInfo name nodename ≠ none) :
    (d.setNodeInfo name nodename line).IsOn name' nodename' ↔
      if name' = name ∧ nodename' = nodename then line = .on else d.IsOn name' nodename' := by
  obtain ⟨u', hu', _⟩ := dictFetchValue_of_name h'
  by_cases hn : name' = name
  · subst hn
    have hset : (d.setNodeInfo name' nodename line).dictFetchValue name' = some (u'.setNode nodename line) := by
      unfold Directory.setNodeInfo
      rw [dictFetchValue_modify _ rfl, hu']
      rfl
    rw [isOn_of_fetch hset, isOn_of_fetch hu']
    by_cases hnode : nodename' = nodename
    · -- the entry itself
      subst hnode
      rw [getNodeInfo_of_fetch hu'] at hentry
      obtain ⟨old, hold⟩ := Option.ne_none_iff_exists'.mp hentry
      rw [if_pos ⟨rfl, rfl⟩, getNode_setNode, hold]
      exact ⟨fun h => Option.some.inj h, fun h => congrArg some h⟩
    · -- another node of the account
      rw [if_neg fun h => hnode h.2, getNode_setNode_ne u' line hnode]
  · -- another account
    have hl : lower name' ≠ lower name := fun heq => hn (names_inj h' h heq)
    have hset : (d.setNodeInfo name nodename line).dictFetchValue name' = some u' := by
      unfold Directory.setNodeInfo
      rw [dictFetchValue_modify_ne _ hl, hu']
    rw [if_neg fun h => hn h.1, isOn_of_fetch hset, isOn_of_fetch hu']

@[simp] theorem names_setNodeInfo (d : Directory) (username nodename : Bytes) (line : Line) :
    (d.setNodeInfo username nodename line).names = d.names := names_modify fun u => u.setNode_name nodename line

/-- After an insertion that is not refused the record has the node. -/
theorem getNode_insertNode_self {u : NodeUserInfo} {nodename : Bytes} (h : (u.insertNode nodename).1 ≠ -1) :
    (u.insertNode nodename).2.getNode nodename ≠ none := by
  have hmem : nodename ∈ (u.insertNode nodename).2.nodes.map NodeInfo.name := by
    unfold NodeUserInfo.insertNode at h ⊢
    split at h
    · rename_i hin
      rw [dif_pos hin]
      exact hin
    · rename_i hin
      split at h
      · exact absurd rfl h
      · rename_i h6
        rw [dif_neg hin, dif_neg h6, List.map_append]
        exact List.mem_append_right _ List.mem_cons_self
  obtain ⟨n, hn, hname⟩ := List.mem_map.mp hmem
  unfold NodeUserInfo.getNode
  intro hnone
  rw [Option.map_eq_none_iff, List.find?_eq_none] at hnone
  exact hnone n hn (beq_iff_eq.mpr hname)

/-- After an insertion that is not refused the entry is there. -/
theorem getNodeInfo_insertNode {d : Directory} {name nodename : Bytes} (h : name ∈ d.names)
    (hret : (d.insertNodeToUserInfo name nodename).1 ≠ -1) :
    (d.insertNodeToUserInfo name nodename).2.getNodeInfo name nodename ≠ none := by
  obtain ⟨u, hu, _⟩ := dictFetchValue_of_name h
  unfold Directory.insertNodeToUserInfo at hret ⊢
  rw [hu] at hret ⊢
  simp only at hret ⊢
  have hset : (d.modify name (fun v => (v.insertNode nodename).2) fun v =>
      v.insertNode_name nodename).dictFetchValue name = some (u.insertNode nodename).2 := by
    rw [dictFetchValue_modify _ rfl, hu]
    rfl
  rw [getNodeInfo_of_fetch hset]
  exact getNode_insertNode_self hret

/-- A node that is there is not refused. -/
theorem insertNode_of_entry {d : Directory} {name nodename : Bytes} (h : d.getNodeInfo name nodename ≠ none) :
    (d.insertNodeToUserInfo name nodename).1 = 0 := by
  cases hu : d.dictFetchValue name with
  | none =>
    unfold Directory.getNodeInfo at h
    rw [hu] at h
    exact absurd rfl h
  | some u =>
    rw [getNodeInfo_of_fetch hu] at h
    obtain ⟨line, hline⟩ := Option.ne_none_iff_exists'.mp h
    obtain ⟨n, hn, _⟩ := Option.map_eq_some_iff.mp hline
    have hname : n.name = nodename :=
      beq_iff_eq.mp (List.find?_some (p := fun n : NodeInfo => n.name == nodename) hn)
    have hmem : nodename ∈ u.nodes.map NodeInfo.name := by
      rw [← hname]
      exact List.mem_map_of_mem (List.mem_of_find?_eq_some hn)
    unfold Directory.insertNodeToUserInfo
    rw [hu]
    show (u.insertNode nodename).1 = 0
    unfold NodeUserInfo.insertNode
    rw [dif_pos hmem]

/-- Inserting a node adds no account. -/
theorem names_insertNode (d : Directory) (username nodename : Bytes) :
    (d.insertNodeToUserInfo username nodename).2.names = d.names := by
  unfold Directory.insertNodeToUserInfo
  split
  · rfl
  · exact names_modify fun v => v.insertNode_name nodename

/-! ## 7. The directory the server starts with -/

/-- No node of any account is on line. -/
def Directory.AllOff (d : Directory) : Prop := ∀ name ∈ d.names, ∀ nodename, ¬ d.IsOn name nodename

theorem Directory.AllOff.quiet {d d' : Directory} (h : d.AllOff) (hq : Quiet d d') : d'.AllOff := by
  intro name hname nodename
  by_cases hold : name ∈ d.names
  · rw [hq.same name hold]
    exact h name hold nodename
  · exact hq.added name hname hold nodename

/-- One row more. -/
theorem doMysqlDumpRedis_concat (rows : List UserRow) (row : UserRow) :
    doMysqlDumpRedis (rows ++ [row]) = row.nodeids.foldl (fun d nodeid => (d.insertNodeToUserInfo row.name nodeid).2)
        ((doMysqlDumpRedis rows).insertUserInfo row.userid row.name) := by
  unfold doMysqlDumpRedis
  rw [List.foldl_append]
  rfl

/-- **The rule for the start**: what an account and a node more keep holds of the directory read from the
    tables. -/
theorem doMysqlDumpRedis_rule {P : Directory → Prop} (hempty : P .empty)
    (huser : ∀ d userid username, P d → P (d.insertUserInfo userid username))
    (hnode : ∀ d username nodename, P d → P (d.insertNodeToUserInfo username nodename).2)
    (rows : List UserRow) : P (doMysqlDumpRedis rows) := by
  induction rows using List.reverseRecOn with
  | nil => exact hempty
  | append_singleton rows row ih =>
    rw [doMysqlDumpRedis_concat]
    exact List.foldlRecOn row.nodeids _ (huser _ _ _ ih) fun d hd nodeid _ => hnode d row.name nodeid hd

/-- **After the start every node is off line**, whatever the tables hold. -/
theorem doMysqlDumpRedis_allOff (rows : List UserRow) : (doMysqlDumpRedis rows).AllOff :=
  doMysqlDumpRedis_rule (fun _ h => absurd h List.not_mem_nil)
    (fun d userid username h => h.quiet (quiet_insertUserInfo d userid username))
    (fun d username nodename h => h.quiet (quiet_insertNode d username nodename)) rows

end SmartHome.Chat
