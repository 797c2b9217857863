/-
  Subject:   A RESTART CHANGES NOTHING: the directory read back from the tables is the live one.

  While the server runs, an account is added by name and a node under the name that belongs to a userid,
  and beside that a row is written. When it starts, it reads the rows: for each one an account, and the
  nodes of that userid under the name of the row. A row whose name is taken but for case makes no record;
  it has no nodes either, since no one can log in with a userid that the directory does not know.

  * `Entry`, `insertUserEntry`, `insertNodeEntry`, `dumpEntries` -- the directory without its lines;
    `core_insertUserInfo`, `core_insertNode`, `core_dump` -- the directory refines it;
  * `dumpEntries_node` -- a node more in the row of a record is a node more in the record, though rows that
    were added later are read after it;
  * `RedeemedOnce`, **`restart_same`** -- after every run in which each userid is redeemed at most once, a
    restart finds the same records with the same nodes, all off line.
-/
import Mathlib.Data.List.Nodup
import SmartHome.Chat.Tokens
import SmartHome.Chat.UserPresence

namespace SmartHome.Chat

open SmartHome.Lib

attribute [local instance] lawfulBEq_bytes

/-! ## 1. The directory without its lines -/

/-- Name, userid and the names of the nodes. -/
abbrev Entry := Bytes × Bytes × List Bytes

/-- One node more, if it is new and there is room. -/
def Entry.insertNode (x : Entry) (nodename : Bytes) : Entry :=
  if nodename ∈ x.2.2 ∨ 6 ≤ x.2.2.length then x else (x.1, x.2.1, x.2.2 ++ [nodename])

/-- The entry of a name, in any spelling. -/
def Entry.isNamed (name : Bytes) (x : Entry) : Bool := lower x.1 == lower name

/-- `insertUserInfo`. -/
def insertUserEntry (entries : List Entry) (userid username : Bytes) : List Entry :=
  if entries.any (Entry.isNamed username) then entries else (username, userid, []) :: entries

/-- `insertNodeToUserInfo`. -/
def insertNodeEntry (username : Bytes) (entries : List Entry) (nodename : Bytes) : List Entry :=
  modifyFirst (Entry.isNamed username) (fun x => x.insertNode nodename) entries

/-- A row of the tables. -/
def insertRow (entries : List Entry) (row : UserRow) : List Entry :=
  row.nodeids.foldl (insertNodeEntry row.name) (insertUserEntry entries row.userid row.name)

/-- `do_mysql_dump_redis`. -/
def dumpEntries (rows : List UserRow) : List Entry := rows.foldl insertRow []

@[simp] theorem isNamed_insertNode (name nodename : Bytes) (x : Entry) :
    (x.insertNode nodename).isNamed name = x.isNamed name := by
  unfold Entry.insertNode
  split <;> rfl

/-! ## 2. The directory refines it -/

theorem core_insertUserInfo (d : Directory) (userid username : Bytes) :
    (d.insertUserInfo userid username).core = insertUserEntry d.core userid username := by
  have hany : d.core.any (Entry.isNamed username) = d.userInfo.any fun u => lower u.name == lower username :=
    List.any_map
  unfold Directory.insertUserInfo insertUserEntry
  rw [hany]
  by_cases h : d.dictFetchValue username = none
  · have hfalse : (d.userInfo.any fun u => lower u.name == lower username) = false :=
      List.any_eq_false.mpr (List.find?_eq_none.mp h)
    rw [dif_pos h, hfalse, if_neg Bool.false_ne_true]
    rfl
  · obtain ⟨u, hu⟩ := Option.ne_none_iff_exists'.mp h
    have htrue : (d.userInfo.any fun u => lower u.name == lower username) = true :=
      List.any_eq_true.mpr ⟨u, List.mem_of_find?_eq_some hu,
        List.find?_some (p := fun u : NodeUserInfo => lower u.name == lower username) hu⟩
    rw [dif_neg h, htrue, if_pos rfl]

theorem core_nodeInsert (u : NodeUserInfo) (nodename : Bytes) :
    (u.insertNode nodename).2.core = Entry.insertNode u.core nodename := by
  have hlength : (u.nodes.map NodeInfo.name).length = u.nodes.length := List.length_map _
  unfold NodeUserInfo.insertNode Entry.insertNode NodeUserInfo.core
  simp only [hlength]
  by_cases h : nodename ∈ u.nodes.map NodeInfo.name
  · rw [dif_pos h, if_pos (Or.inl h)]
  · by_cases h6 : u.nodes.length ≥ 6
    · rw [dif_neg h, dif_pos h6, if_pos (Or.inr h6)]
    · rw [dif_neg h, dif_neg h6, if_neg (not_or.mpr ⟨h, h6⟩), List.map_append]
      rfl

theorem core_insertNode (d : Directory) (username nodename : Bytes) :
    (d.insertNodeToUserInfo username nodename).2.core = insertNodeEntry username d.core nodename := by
  have hmodify : insertNodeEntry username d.core nodename =
      (modifyFirst (fun u => lower u.name == lower username) (fun u => (u.insertNode nodename).2)
        d.userInfo).map NodeUserInfo.core :=
    (map_modifyFirst_comm (fun _ => rfl) fun u => core_nodeInsert u nodename).symm
  rw [hmodify]
  unfold Directory.insertNodeToUserInfo
  cases h : d.dictFetchValue username with
  | some u => rfl
  | none => rw [modifyFirst_id fun u hu => absurd (hu.symm.trans h) (Option.some_ne_none u)]; rfl

theorem core_dump (rows : List UserRow) : (doMysqlDumpRedis rows).core = dumpEntries rows := by
  induction rows using List.reverseRecOn with
  | nil => rfl
  | append_singleton rows row ih =>
    unfold dumpEntries
    rw [List.foldl_append]
    show _ = insertRow (dumpEntries rows) row
    rw [doMysqlDumpRedis_concat, ← ih]
    unfold insertRow
    rw [← core_insertUserInfo]
    -- the nodes of the row, one after the other
    generalize (doMysqlDumpRedis rows).insertUserInfo row.userid row.name = d
    induction row.nodeids generalizing d with
    | nil => rfl
    | cons nodeid nodeids ihnodes =>
      rw [List.foldl_cons, List.foldl_cons, ← core_insertNode]
      exact ihnodes _

/-! ## 3. A node more in a row -/

/-- A record of this name is there. -/
def HasEntry (entries : List Entry) (name : Bytes) : Prop := entries.any (Entry.isNamed name) = true

theorem insertUser_known {entries : List Entry} {username : Bytes} (h : HasEntry entries username) (userid : Bytes) :
    insertUserEntry entries userid username = entries := if_pos h

theorem insertUser_new {entries : List Entry} {username : Bytes} (h : ¬ HasEntry entries username) (userid : Bytes) :
    insertUserEntry entries userid username = (username, userid, []) :: entries := if_neg h

theorem hasEntry_insertUser (entries : List Entry) (userid username : Bytes) :
    HasEntry (insertUserEntry entries userid username) username := by
  by_cases h : HasEntry entries username
  · rw [insertUser_known h]
    exact h
  · rw [insertUser_new h]
    unfold HasEntry Entry.isNamed
    rw [List.any_cons, beq_self_eq_true, Bool.true_or]

theorem HasEntry.insertUser {entries : List Entry} {name : Bytes} (h : HasEntry entries name)
    (userid username : Bytes) : HasEntry (insertUserEntry entries userid username) name := by
  by_cases huser : HasEntry entries username
  · rw [insertUser_known huser]
    exact h
  · rw [insertUser_new huser]
    unfold HasEntry
    rw [List.any_cons, show entries.any (Entry.isNamed name) = true from h, Bool.or_true]

theorem hasEntry_insertNode (entries : List Entry) (name username nodename : Bytes) :
    HasEntry (insertNodeEntry username entries nodename) name ↔ HasEntry entries name := by
  have hmap : ∀ l : List Entry, l.any (Entry.isNamed name) = (l.map (Entry.isNamed name)).any id := by
    intro l
    rw [List.any_map]
    rfl
  unfold HasEntry insertNodeEntry
  rw [hmap, map_modifyFirst fun x _ => isNamed_insertNode name nodename x, ← hmap]

theorem HasEntry.insertNodes {entries : List Entry} {name : Bytes} (h : HasEntry entries name)
    (username : Bytes) (nodeids : List Bytes) : HasEntry (nodeids.foldl (insertNodeEntry username) entries) name :=
  List.foldlRecOn (motive := fun entries => HasEntry entries name) nodeids _ h
    fun entries hentries nodeid _ => (hasEntry_insertNode entries name username nodeid).mpr hentries

section Row

variable {entries : List Entry} {name : Bytes} (h : HasEntry entries name) (nodename : Bytes)
include h

theorem HasEntry.insertRow (row : UserRow) : HasEntry (insertRow entries row) name :=
  (h.insertUser row.userid row.name).insertNodes row.name row.nodeids

/-- An account more does not matter to the nodes of a record that is there. -/
theorem insertUser_insertNode (userid username : Bytes) :
    insertUserEntry (insertNodeEntry name entries nodename) userid username =
      insertNodeEntry name (insertUserEntry entries userid username) nodename := by
  by_cases huser : HasEntry entries username
  · rw [insertUser_known huser, insertUser_known ((hasEntry_insertNode entries username name nodename).mpr huser)]
  · have hne : Entry.isNamed name (username, userid, []) = false := by
      rw [Bool.eq_false_iff]
      intro heq
      refine huser ?_
      have hlower : lower username = lower name := beq_iff_eq.mp heq
      unfold HasEntry Entry.isNamed
      rw [hlower]
      exact h
    rw [insertUser_new huser,
      insertUser_new fun hhas => huser ((hasEntry_insertNode entries username name nodename).mp hhas)]
    exact (modifyFirst_neg hne).symm

omit h in
/-- Nor do the nodes of another record. -/
theorem insertNodes_insertNode {username : Bytes} (hne : lower username ≠ lower name) (nodeids : List Bytes)
    (entries : List Entry) :
    nodeids.foldl (insertNodeEntry username) (insertNodeEntry name entries nodename) =
      insertNodeEntry name (nodeids.foldl (insertNodeEntry username) entries) nodename := by
  induction nodeids generalizing entries with
  | nil => rfl
  | cons nodeid nodeids ih =>
    have hcomm : insertNodeEntry username (insertNodeEntry name entries nodename) nodeid =
        insertNodeEntry name (insertNodeEntry username entries nodeid) nodename := by
      refine modifyFirst_comm (fun x => isNamed_insertNode name nodeid x)
        (fun x => isNamed_insertNode username nodename x) fun x hx => ?_
      have hname : lower x.1 = lower name := beq_iff_eq.mp hx
      unfold Entry.isNamed
      rw [hname]
      exact beq_eq_false_iff_ne.mpr (Ne.symm hne)
    rw [List.foldl_cons, hcomm, ih]
    rfl

/-- **A row read later does not matter to the nodes of a record that is there**, if its name is another
    one or it has no nodes. -/
theorem insertRow_insertNode {row : UserRow} (hother : lower row.name = lower name → row.nodeids = []) :
    insertRow (insertNodeEntry name entries nodename) row = insertNodeEntry name (insertRow entries row) nodename := by
  unfold insertRow
  rw [insertUser_insertNode h]
  by_cases hlower : lower row.name = lower name
  · rw [hother hlower]
    rfl
  · exact insertNodes_insertNode nodename hlower _ _

end Row

/-- **A node more in a row is a node more in its record.** -/
theorem dumpEntries_node (before : List UserRow) (row : UserRow) {later : List UserRow} (nodename : Bytes)
    (hother : ∀ q ∈ later, lower q.name = lower row.name → q.nodeids = []) :
    dumpEntries (before ++ { row with nodeids := row.nodeids ++ [nodename] } :: later) =
      insertNodeEntry row.name (dumpEntries (before ++ row :: later)) nodename := by
  have hrow : insertRow (dumpEntries before) { row with nodeids := row.nodeids ++ [nodename] } =
      insertNodeEntry row.name (insertRow (dumpEntries before) row) nodename := by
    unfold insertRow
    rw [List.foldl_append]
    rfl
  have hentry : HasEntry (insertRow (dumpEntries before) row) row.name :=
    (hasEntry_insertUser _ row.userid row.name).insertNodes row.name row.nodeids
  unfold dumpEntries
  rw [List.foldl_append, List.foldl_append, List.foldl_cons, List.foldl_cons]
  show later.foldl insertRow (insertRow (dumpEntries before) _) =
    insertNodeEntry row.name (later.foldl insertRow (insertRow (dumpEntries before) row)) nodename
  rw [hrow]
  generalize insertRow (dumpEntries before) row = entries at hentry ⊢
  -- the rows read later, one after the other
  induction later generalizing entries with
  | nil => rfl
  | cons q later ih =>
    rw [List.foldl_cons, List.foldl_cons, insertRow_insertNode hentry nodename (hother q List.mem_cons_self)]
    exact ih (fun p hp => hother p (List.mem_cons_of_mem q hp)) _ (hentry.insertRow q)

/-! ## 4. Runs -/

/-- **A userid is redeemed once**, and no account is made behind the back of the tables. -/
structure RedeemedOnce (l : Ledger) (e : Event) : Prop where
  noRoot : ∀ id userid username env, e ≠ .command id (.chat (bytes "adduser") userid username) env
  once : ∀ userid, e.redeems = some userid → userid ∉ l.redeemed

/-- The tables hold what the directory holds; whoever has a node has a record. -/
structure Restartable (l : Ledger) : Prop where
  same : l.stored.server.dir.core = dumpEntries l.stored.db.rows
  nodes : ∀ n ∈ l.stored.db.node, n.userid ∈ l.stored.server.dir.userids
  redeemed : ∀ userid ∈ l.stored.db.alluser.map AlluserRow.userid, userid ∈ l.redeemed

theorem restartable_start : Restartable (ledgerStart .empty) :=
  ⟨rfl, fun _ hn => absurd hn List.not_mem_nil, fun _ hx => absurd hx List.not_mem_nil⟩

/-- Every record has its row. -/
theorem Restartable.row {l : Ledger} (h : Restartable l) {u : NodeUserInfo} (hu : u ∈ l.stored.server.dir.userInfo) :
    ∃ r ∈ l.stored.db.alluser, r.name = u.name ∧ r.userid = u.userid := by
  have hmem : (u.name, u.userid) ∈ l.stored.server.dir.accounts := List.mem_map_of_mem hu
  rw [accounts_core, h.same, ← core_dump, ← accounts_core] at hmem
  obtain ⟨row, hrow, he⟩ := List.mem_map.mp (List.mem_reverse.mp ((dump_accounts _).subset hmem))
  obtain ⟨r, hr, rfl⟩ := List.mem_map.mp hrow
  obtain ⟨hname, huserid⟩ := Prod.mk.inj he
  exact ⟨r, hr, hname, huserid⟩

/-- A row whose name is that of another row's record has no nodes. -/
theorem Restartable.noNodes {l : Ledger} (h : Restartable l) {u : NodeUserInfo}
    (hu : u ∈ l.stored.server.dir.userInfo) {r : AlluserRow} (hr : r ∈ l.stored.db.alluser)
    (hlower : lower r.name = lower u.name) (huserid : r.userid ≠ u.userid) :
    (l.stored.db.node.filter fun n => n.userid == r.userid) = [] := by
  rw [List.filter_eq_nil_iff]
  intro n hn hnr
  have hknown := h.nodes n hn
  rw [beq_iff_eq.mp hnr] at hknown
  obtain ⟨v, hv, hvr⟩ := List.mem_map.mp hknown
  -- the record of the userid of this row has the name of this row, so it is the other one
  obtain ⟨r', hr', hname', huserid'⟩ := h.row hv
  have hrow : r' = r := List.inj_on_of_nodup_map l.stored.db.uniqueUserid hr' hr (huserid'.trans hvr)
  have hvu : v = u := by
    refine List.inj_on_of_nodup_map l.stored.server.dir.distinct hv hu ?_
    show lower v.name = lower u.name
    rw [← hname', hrow, hlower]
  exact huserid (by rw [← hvr, hvu])

/-- The rows after an account was made. -/
theorem rows_insertAlluser {db : Tables} {row : AlluserRow} (hnew : row.userid ∉ db.alluser.map AlluserRow.userid)
    (hnodes : ∀ n ∈ db.node, n.userid ≠ row.userid) :
    (db.insertAlluser row).rows = db.rows ++ [⟨row.userid, row.name, []⟩] := by
  have hnone : (db.node.filter fun n => n.userid == row.userid) = [] :=
    List.filter_eq_nil_iff.mpr fun n hn heq => hnodes n hn (beq_iff_eq.mp heq)
  unfold Tables.insertAlluser Tables.rows
  rw [dif_neg hnew, List.map_append, List.map_singleton, hnone]
  rfl

/-- The rows after a node was made, of an account whose row is `r`. -/
theorem rows_insertNode {db : Tables} {before later : List AlluserRow} {r : AlluserRow}
    (hsplit : db.alluser = before ++ r :: later) (nodename : Bytes) :
    ∃ (rows₁ rows₂ : List UserRow) (row : UserRow), db.rows = rows₁ ++ row :: rows₂ ∧ row.name = r.name ∧
      (∀ q ∈ rows₂, ∃ r' ∈ later, q.name = r'.name ∧ q.nodeids =
        (db.node.filter fun n => n.userid == r'.userid).map NodeRow.nodeid) ∧ (db.insertNode r.userid nodename).rows =
        rows₁ ++ { row with nodeids := row.nodeids ++ [nodename] } :: rows₂ := by
  have hnodup := db.uniqueUserid
  rw [hsplit, List.map_append, List.map_cons] at hnodup
  obtain ⟨_, hlater, hbefore⟩ := List.nodup_append.mp hnodup
  have hrest : ∀ r' : AlluserRow, r'.userid ≠ r.userid →
      ((db.node ++ [(⟨r.userid, nodename⟩ : NodeRow)]).filter fun n => n.userid == r'.userid) =
        db.node.filter fun n => n.userid == r'.userid := by
    intro r' hne
    have hfalse : (r.userid == r'.userid) = false := beq_eq_false_iff_ne.mpr (Ne.symm hne)
    rw [List.filter_append, List.filter_singleton, hfalse]
    exact List.append_nil _
  unfold Tables.rows Tables.insertNode
  simp only [hsplit, List.map_append, List.map_cons]
  refine ⟨_, _, _, rfl, rfl, fun q hq => ?_, ?_⟩
  · obtain ⟨r', hr', rfl⟩ := List.mem_map.mp hq
    exact ⟨r', hr', rfl, rfl⟩
  · congr 1
    · refine List.map_congr_left fun r' hr' => ?_
      rw [hrest r' (hbefore _ (List.mem_map_of_mem hr') _ List.mem_cons_self)]
    · congr 1
      · rw [List.filter_append, List.map_append, List.filter_singleton, beq_self_eq_true]
        rfl
      · refine List.map_congr_left fun r' hr' => ?_
        rw [hrest r' fun heq => (List.nodup_cons.mp hlater).1 (heq ▸ List.mem_map_of_mem hr')]

theorem storeToken_node (db : Tables) (email saltmd5 : Bytes) : (db.storeToken email saltmd5).node = db.node := by
  unfold Tables.storeToken Tables.insertEmailmd5
  split
  · rfl
  · split
    · rfl
    · rfl

/-- What makes neither an account nor a node. -/
theorem Restartable.frame {l l' : Ledger} (h : Restartable l)
    (hdir : l'.stored.server.dir.core = l.stored.server.dir.core)
    (husers : l'.stored.db.alluser = l.stored.db.alluser) (hnode : l'.stored.db.node = l.stored.db.node)
    (hredeemed : l'.redeemed = l.redeemed) : Restartable l' := by
  have hrows : l'.stored.db.rows = l.stored.db.rows := by
    unfold Tables.rows
    rw [husers, hnode]
  refine ⟨?_, ?_, ?_⟩
  · rw [hdir, hrows]
    exact h.same
  · rw [userids_core hdir, hnode]
    exact h.nodes
  · rw [husers, hredeemed]
    exact h.redeemed

/-- An account is made whose userid no row has. -/
theorem Restartable.adduser {l l' : Ledger} (h : Restartable l) {row : AlluserRow}
    (hnew : row.userid ∉ l.stored.db.alluser.map AlluserRow.userid)
    (hdir : l'.stored.server.dir = l.stored.server.dir.insertUserInfo row.userid row.name)
    (hdb : l'.stored.db = l.stored.db.insertAlluser row) (hredeemed : l'.redeemed = row.userid :: l.redeemed) :
    Restartable l' := by
  -- a node of this userid would have a record, and the record a row
  have hnodes : ∀ n ∈ l.stored.db.node, n.userid ≠ row.userid := by
    intro n hn hnu
    obtain ⟨u, hu, hun⟩ := List.mem_map.mp (h.nodes n hn)
    obtain ⟨r, hr, _, hru⟩ := h.row hu
    exact hnew (List.mem_map.mpr ⟨r, hr, (hru.trans hun).trans hnu⟩)
  have hinsert : l'.stored.db.alluser = l.stored.db.alluser ++ [row] ∧ l'.stored.db.node = l.stored.db.node := by
    rw [hdb]
    unfold Tables.insertAlluser
    rw [dif_neg hnew]
    exact ⟨rfl, rfl⟩
  refine ⟨?_, fun n hn => ?_, fun x hx => ?_⟩
  · rw [hdir, core_insertUserInfo, h.same, hdb, rows_insertAlluser hnew hnodes]
    unfold dumpEntries
    rw [List.foldl_append]
    rfl
  · rw [hinsert.2] at hn
    rw [hdir]
    rcases userids_insertUserInfo l.stored.server.dir row.userid row.name with he | he
    · rw [he]
      exact h.nodes n hn
    · rw [he]
      exact List.mem_cons_of_mem _ (h.nodes n hn)
  · rw [hinsert.1, List.map_append, List.mem_append] at hx
    rw [hredeemed]
    rcases hx with hx | hx
    · exact List.mem_cons_of_mem _ (h.redeemed x hx)
    · rw [List.mem_singleton.mp hx]
      exact List.mem_cons_self

/-- A node is made, for the record `u`. -/
theorem Restartable.node {l l' : Ledger} (h : Restartable l) {u : NodeUserInfo}
    (hu : u ∈ l.stored.server.dir.userInfo) {nodename : Bytes}
    (hdir : l'.stored.server.dir.core = (l.stored.server.dir.insertNodeToUserInfo u.name nodename).2.core)
    (hdb : l'.stored.db = l.stored.db.insertNode u.userid nodename) (hredeemed : l'.redeemed = l.redeemed) :
    Restartable l' := by
  obtain ⟨r, hr, hrname, hruserid⟩ := h.row hu
  obtain ⟨before, later, hsplit⟩ := List.append_of_mem hr
  obtain ⟨rows₁, rows₂, row, hrows, hrowname, hlater, hrows'⟩ := rows_insertNode hsplit nodename
  have hnodup := l.stored.db.uniqueUserid
  rw [hsplit, List.map_append, List.map_cons] at hnodup
  have hdistinct := (List.nodup_cons.mp (List.nodup_append.mp hnodup).2.1).1
  have hother : ∀ q ∈ rows₂, lower q.name = lower row.name → q.nodeids = [] := by
    intro q hq hlower
    obtain ⟨r', hr', hqname, hqnodes⟩ := hlater q hq
    have hmem : r' ∈ l.stored.db.alluser := by
      rw [hsplit]
      exact List.mem_append_right _ (List.mem_cons_of_mem _ hr')
    rw [hqnodes, h.noNodes hu hmem]
    · rfl
    · rw [← hqname, hlower, hrowname, hrname]
    · rw [← hruserid]
      exact fun heq => hdistinct (heq ▸ List.mem_map_of_mem hr')
  have huserids : l'.stored.server.dir.userids = l.stored.server.dir.userids := by
    rw [userids_core hdir, userids_accounts, userids_accounts, accounts_insertNode]
  refine ⟨?_, fun n hn => ?_, ?_⟩
  · rw [hdir, core_insertNode, h.same, hrows, hdb, ← hruserid, hrows', dumpEntries_node _ _ _ hother, hrowname, hrname]
  · rw [hdb] at hn
    rw [huserids]
    rcases List.mem_append.mp hn with hn | hn
    · exact h.nodes n hn
    · rw [List.mem_singleton.mp hn]
      exact List.mem_map_of_mem hu
  · rw [hdb, hredeemed]
    exact h.redeemed

/-- **Every step keeps it so.** -/
theorem restartable_step {l l' : Ledger} {e : Event} (h : Restartable l) (hok : RedeemedOnce l e)
    (hs : ledgerNext l e = some l') : Restartable l' := by
  have hstep := ledgerNext_step hs
  clear hs
  cases hstep with
  | @adduser id username password userid email env huserid hname hdir hdb hissued hredeemed =>
    have hredeems : Event.redeems
        (.command id (.register (bytes "adduser") username password userid email) env) = some userid :=
      if_pos ⟨rfl, huserid, hname⟩
    have hnew : userid ∉ l.stored.db.alluser.map AlluserRow.userid :=
      fun hmem => hok.once userid hredeems (h.redeemed userid hmem)
    exact h.adduser hnew hdir hdb hredeemed
  | @node _ userid nodename username hname hret hdir hdb hissued hredeemed =>
    obtain ⟨u, hu, rfl⟩ := Option.map_eq_some_iff.mp hname
    have huid : u.userid = userid :=
      beq_iff_eq.mp (List.find?_some (p := fun w : NodeUserInfo => w.userid == userid) hu)
    rw [← huid] at hdb
    exact h.node (List.mem_of_find?_eq_some hu) hdir hdb hredeemed
  | token hdir hdb hissued hredeemed =>
    exact h.frame (by rw [hdir]) (by rw [hdb, storeToken_alluser]) (by rw [hdb, storeToken_node]) hredeemed
  | rootAdduser => exact absurd rfl (hok.noRoot _ _ _ _)
  | other hdir hdb hissued hredeemed => exact h.frame hdir (by rw [hdb]) (by rw [hdb]) hredeemed

/-- **A restart finds the same directory**: the same records, name by name and userid by userid, each with
    the same nodes, and every line off. -/
theorem restart_same (l : Ledger) (h : Reaches ledgerNext RedeemedOnce (ledgerStart .empty) l) :
    (doMysqlDumpRedis l.stored.db.rows).core = l.stored.server.dir.core ∧
      ∀ u ∈ (doMysqlDumpRedis l.stored.db.rows).userInfo, u.line = .off ∧ ∀ n ∈ u.nodes, n.line = .off := by
  have hoff : ∀ line : Line, line ≠ .on → line = .off := by
    intro line
    cases line with
    | off => exact fun _ => rfl
    | on => exact fun hne => absurd rfl hne
  have hinv : Restartable l :=
    Reaches.invariant Restartable restartable_start (fun _ _ _ hI hok hs => restartable_step hI hok hs) h
  refine ⟨(core_dump _).trans hinv.same.symm, fun u hu => ⟨hoff _ fun hon => ?_, fun n hn => hoff _ fun hon => ?_⟩⟩
  · refine doMysqlDumpRedis_lines l.stored.db.rows (lower u.name) ?_
    rw [lineAt_of_mem hu, hon]
  · refine doMysqlDumpRedis_allOff l.stored.db.rows u.name (List.mem_map_of_mem hu) n.name ?_
    unfold Directory.IsOn
    rw [getNodeInfo_of_mem hu hn, hon]

/-- Every token is there and every name is free. -/
def freshEnv : Env := { openEnv with usernameIsExist := fun _ => false }

/-- An account is made; someone connects as its lamp. -/
def lampEvents : List Event :=
  [.connect 0, .command 0 (.register (bytes "adduser") (bytes "alice") (bytes "x") (bytes "17") (bytes "a@b")) freshEnv,
    .command 0 (.node (bytes "login") (bytes "17") (bytes "lamp")) freshEnv]

theorem restart_same_lamp : ∃ l, Reaches ledgerNext RedeemedOnce (ledgerStart .empty) l ∧
      l.stored.server.dir.core = [(bytes "alice", bytes "17", [bytes "lamp"])] ∧
      (doMysqlDumpRedis l.stored.db.rows).core = l.stored.server.dir.core := by
  have hview : ((runEvents ledgerNext (ledgerStart .empty) lampEvents).map fun l => l.stored.server.dir.core) =
      some [(bytes "alice", bytes "17", [bytes "lamp"])] := by decide +kernel
  obtain ⟨l, hl, hcore⟩ := Option.map_eq_some_iff.mp hview
  unfold lampEvents at hl
  obtain ⟨l₁, h₁, hl₁⟩ := Option.bind_eq_some_iff.mp hl
  obtain ⟨l₂, h₂, hl₂⟩ := Option.bind_eq_some_iff.mp hl₁
  obtain ⟨l₃, h₃, hl₃⟩ := Option.bind_eq_some_iff.mp hl₂
  obtain rfl := Option.some.inj hl₃
  have hempty : l₁.redeemed = [] := by
    obtain ⟨_, _, rfl⟩ := Option.map_eq_some_iff.mp h₁
    rfl
  have hrun : Reaches ledgerNext RedeemedOnce (ledgerStart .empty) l₃ := by
    refine .step _ (.step _ (.step _ .start ⟨?_, ?_⟩ h₁) ⟨?_, ?_⟩ h₂) ⟨?_, ?_⟩ h₃
    · exact fun _ _ _ _ he => Event.noConfusion he
    · exact fun _ he => absurd he (Option.some_ne_none _).symm
    · intro _ _ _ _ he
      cases he
    · rw [hempty]
      exact fun _ _ => List.not_mem_nil
    · intro _ _ _ _ he
      cases he
    · exact fun _ he => absurd he (Option.some_ne_none _).symm
  exact ⟨l₃, hrun, hcore, (restart_same l₃ hrun).1⟩

end SmartHome.Chat
