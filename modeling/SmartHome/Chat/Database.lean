/-
  Subject:   THE TABLES, AND WHAT THE SERVER WRITES TO THEM (mysql.php, and the statements of
             myregister.c, mychat.c and mydump.c).

  Accounts are kept in `alluser`, their nodes in `node`, the tokens of those who want to register in
  `emailmd5`. Two columns are UNIQUE; an insert that would repeat a value of such a column fails, and
  the server does not notice. Strings are equal if their bytes are.

  * `Tables` -- the three tables; that the UNIQUE columns have no repeats is part of the type;
  * `Tables.storeToken`, `insertAlluser`, `insertNode` -- the statements; `Tables.rows` -- what the server
    reads when it starts;
  * `Stored`, `storedNext` -- the server with its database;
  * `Ledger`, `ledgerNext` -- beside it, which tokens were issued and which were redeemed;
  * `StoredStep`, **`ledgerNext_step`** -- what an event does to the directory, the tables and this record.
-/
import SmartHome.Chat.Sessions

namespace SmartHome.Chat

open SmartHome.Lib

attribute [local instance] lawfulBEq_bytes

/-! ## 1. The tables -/

/-- A row of `emailmd5`. -/
structure EmailRow where
  email : Bytes
  saltmd5 : Bytes
  deriving DecidableEq

/-- A row of `alluser`. -/
structure AlluserRow where
  userid : Bytes
  name : Bytes
  password : Bytes
  email : Bytes
  deriving DecidableEq

/-- A row of `node`; `command` and `value` are never read. -/
structure NodeRow where
  userid : Bytes
  nodeid : Bytes
  deriving DecidableEq

/-- The database. `emailmd5.email` and `alluser.userid` are UNIQUE. -/
structure Tables where
  emailmd5 : List EmailRow
  alluser : List AlluserRow
  node : List NodeRow
  uniqueEmail : (emailmd5.map EmailRow.email).Nodup
  uniqueUserid : (alluser.map AlluserRow.userid).Nodup

/-- As mysql.php creates them. -/
def Tables.empty : Tables := ⟨[], [], [], List.nodup_nil, List.nodup_nil⟩

/-- `update emailmd5 set saltmd5='…' where email='…'`. -/
def Tables.updateEmailmd5 (db : Tables) (email saltmd5 : Bytes) : Tables :=
  { db with
    emailmd5 := modifyFirst (fun r => r.email == email) (fun r => { r with saltmd5 := saltmd5 }) db.emailmd5
    uniqueEmail := by
      rw [map_modifyFirst (g := EmailRow.email) (f := fun r => { r with saltmd5 := saltmd5 }) fun _ _ => rfl]
      exact db.uniqueEmail }

/-- `insert into emailmd5 values('…','…')`; nothing happens if the email is there. -/
def Tables.insertEmailmd5 (db : Tables) (email saltmd5 : Bytes) : Tables :=
  if h : email ∈ db.emailmd5.map EmailRow.email then db
  else
    { db with
      emailmd5 := db.emailmd5 ++ [⟨email, saltmd5⟩]
      uniqueEmail := nodup_map_concat db.uniqueEmail h }

/-- The end of "getuserid": the token of an email is replaced or stored. -/
def Tables.storeToken (db : Tables) (email saltmd5 : Bytes) : Tables :=
  if db.emailmd5.any (fun r => r.email == email) then db.updateEmailmd5 email saltmd5
  else db.insertEmailmd5 email saltmd5

/-- `insert into alluser values('…', '…',  '…','…');`; nothing happens if the userid is there. -/
def Tables.insertAlluser (db : Tables) (row : AlluserRow) : Tables :=
  if h : row.userid ∈ db.alluser.map AlluserRow.userid then db
  else
    { db with
      alluser := db.alluser ++ [row]
      uniqueUserid := nodup_map_concat db.uniqueUserid h }

/-- `insert into node values('…', '…',  '0','0');`. -/
def Tables.insertNode (db : Tables) (userid nodeid : Bytes) : Tables :=
  { db with node := db.node ++ [⟨userid, nodeid⟩] }

/-- `select userid,name,password from alluser;` and, for each row, `select nodeid from node where userid='…' ;`. -/
def Tables.rows (db : Tables) : List UserRow :=
  db.alluser.map fun r => ⟨r.userid, r.name, (db.node.filter fun n => n.userid == r.userid).map NodeRow.nodeid⟩

/-- What `registerCommand` writes. -/
def Tables.afterRegister (db : Tables) (argv1 argv2 argv3 argv4 argv5 : Bytes) (env : Env) : Tables :=
  if argv1 = bytes "getuserid" then
    if !argv2.contains 0x40 then db
    else if env.emailIsExist argv2 then db
    else db.storeToken argv2 (env.mymd5 (argv2 ++ env.myrandom))
  else if argv1 = bytes "adduser" then
    if !env.useridIsExist argv4 then db
    else if env.usernameIsExist argv2 then db
    else db.insertAlluser ⟨argv4, argv2, argv3, argv5⟩
  else db

/-- What `nodeLogin` writes: a row for a node that is new. -/
def Tables.afterNodeLogin (db : Tables) (s : Server) (c : Client) (userid nodename : Bytes) : Tables :=
  match s.admitsNode c userid nodename with
  | none => db
  | some username =>
    if (s.dir.insertNodeToUserInfo username nodename).1 = 1 then db.insertNode userid nodename else db

/-- What a command writes. -/
def Tables.afterCommand (db : Tables) (s : Server) (c : Client) (env : Env) : Command → Tables
  | .chat _ _ _ => db
  | .node argv1 argv2 argv3 => if argv1 = bytes "login" then db.afterNodeLogin s c argv2 argv3 else db
  | .register argv1 argv2 argv3 argv4 argv5 => db.afterRegister argv1 argv2 argv3 argv4 argv5 env

/-- What an event writes. -/
def Tables.after (db : Tables) (s : Server) : Event → Tables
  | .command id cmd env =>
    match s.client? id with
    | none => db
    | some c => db.afterCommand s c env cmd
  | _ => db

/-- The server and its database. -/
structure Stored where
  server : Server
  db : Tables

/-- One event. -/
def storedNext (st : Stored) (e : Event) : Option Stored :=
  (chatNext st.server e).map fun s' => ⟨s', st.db.after st.server e⟩

/-- The server started on a database. -/
def storedStart (db : Tables) : Stored := ⟨serverStart db.rows, db⟩

/-! ## 3. Tokens issued and redeemed -/

/-- The token a "getuserid" issues, with its email. -/
def Event.issues : Event → Option (Bytes × Bytes)
  | .command _ (.register argv1 email _ _ _) env =>
    if argv1 = bytes "getuserid" ∧ email.contains 0x40 = true ∧ env.emailIsExist email = false then
      some (email, env.mymd5 (email ++ env.myrandom))
    else none
  | _ => none

/-- The userid an "adduser" that is answered ok redeems. -/
def Event.redeems : Event → Option Bytes
  | .command _ (.register argv1 username _ userid _) env =>
    if argv1 = bytes "adduser" ∧ env.useridIsExist userid = true ∧ env.usernameIsExist username = false then
      some userid
    else none
  | _ => none

/-- The server, its database, the tokens issued and the userids redeemed so far, the newest first. -/
structure Ledger where
  stored : Stored
  issued : List (Bytes × Bytes)
  redeemed : List Bytes

/-- One event. -/
def ledgerNext (l : Ledger) (e : Event) : Option Ledger :=
  (storedNext l.stored e).map fun st => ⟨st, e.issues.toList ++ l.issued, e.redeems.toList ++ l.redeemed⟩

/-- The start; what the tables hold counts as issued and redeemed. -/
def ledgerStart (db : Tables) : Ledger :=
  ⟨storedStart db, db.emailmd5.map fun r => (r.email, r.saltmd5), db.alluser.map AlluserRow.userid⟩

/-- The token last issued for an email. -/
def Ledger.lastIssued (l : Ledger) (email : Bytes) : Option Bytes :=
  (l.issued.find? fun x => x.1 == email).map Prod.snd

/-! ## 4. What stays of a record -/

/-- Name, userid and the names of the nodes. -/
def NodeUserInfo.core (u : NodeUserInfo) : Bytes × Bytes × List Bytes := (u.name, u.userid, u.nodes.map NodeInfo.name)

/-- Of all records. -/
def Directory.core (d : Directory) : List (Bytes × Bytes × List Bytes) := d.userInfo.map NodeUserInfo.core

theorem core_setUserInfo (d : Directory) (username : Bytes) (line : Line) :
    (d.setUserInfo username line).core = d.core :=
  map_modifyFirst (f := fun u : NodeUserInfo => { u with line := line }) fun _ _ => rfl

theorem core_setNodeInfo (d : Directory) (username nodename : Bytes) (line : Line) :
    (d.setNodeInfo username nodename line).core = d.core := by
  refine map_modifyFirst fun u _ => ?_
  unfold NodeUserInfo.core
  rw [show (u.setNode nodename line).nodes.map NodeInfo.name = u.nodes.map NodeInfo.name from
    map_modifyFirst (f := fun n : NodeInfo => { n with line := line }) fun _ _ => rfl]
  rfl

/-- A node that was there. -/
theorem insertNode_zero {u : NodeUserInfo} {nodename : Bytes} (h : (u.insertNode nodename).1 ≠ 1) :
    (u.insertNode nodename).2 = u := by
  unfold NodeUserInfo.insertNode at h ⊢
  split
  · rfl
  · rename_i hno
    rw [dif_neg hno] at h
    split
    · rfl
    · rename_i h6
      rw [dif_neg h6] at h
      exact absurd rfl h

theorem insertNodeToUserInfo_zero {d : Directory} {username nodename : Bytes}
    (h : (d.insertNodeToUserInfo username nodename).1 ≠ 1) :
    (d.insertNodeToUserInfo username nodename).2.core = d.core := by
  unfold Directory.insertNodeToUserInfo at h ⊢
  cases hu : d.dictFetchValue username with
  | none => rfl
  | some u =>
    rw [hu] at h
    refine map_modifyFirst fun v hv => ?_
    cases hu.symm.trans hv
    rw [insertNode_zero h]

/-! ## 5. What an event does -/

/-- **What an event does to the directory and the tables**: an account is made, a token is stored, a node
    is made, an account is made by root, or the records and the rows stay. -/
inductive StoredStep (l l' : Ledger) : Event → Prop where
  | adduser {id : Nat} {username password userid email : Bytes} {env : Env}
      (huserid : env.useridIsExist userid = true) (hname : env.usernameIsExist username = false)
      (hdir : l'.stored.server.dir = l.stored.server.dir.insertUserInfo userid username)
      (hdb : l'.stored.db = l.stored.db.insertAlluser ⟨userid, username, password, email⟩)
      (hissued : l'.issued = l.issued) (hredeemed : l'.redeemed = userid :: l.redeemed) :
      StoredStep l l' (.command id (.register (bytes "adduser") username password userid email) env)
  | token {e : Event} {email saltmd5 : Bytes} (hdir : l'.stored.server.dir = l.stored.server.dir)
      (hdb : l'.stored.db = l.stored.db.storeToken email saltmd5)
      (hissued : l'.issued = (email, saltmd5) :: l.issued) (hredeemed : l'.redeemed = l.redeemed) :
      StoredStep l l' e
  | node {e : Event} {userid nodename username : Bytes}
      (hname : l.stored.server.dir.getNameByUserid userid = some username)
      (hret : (l.stored.server.dir.insertNodeToUserInfo username nodename).1 = 1)
      (hdir : l'.stored.server.dir.core = (l.stored.server.dir.insertNodeToUserInfo username nodename).2.core)
      (hdb : l'.stored.db = l.stored.db.insertNode userid nodename) (hissued : l'.issued = l.issued)
      (hredeemed : l'.redeemed = l.redeemed) : StoredStep l l' e
  | rootAdduser {id : Nat} {userid username : Bytes} {env : Env} (hdb : l'.stored.db = l.stored.db)
      (hissued : l'.issued = l.issued) (hredeemed : l'.redeemed = l.redeemed) :
      StoredStep l l' (.command id (.chat (bytes "adduser") userid username) env)
  | other {e : Event} (hdir : l'.stored.server.dir.core = l.stored.server.dir.core)
      (hdb : l'.stored.db = l.stored.db) (hissued : l'.issued = l.issued) (hredeemed : l'.redeemed = l.redeemed) :
      StoredStep l l' e

/-- The commands that may add an account or a node. -/
def Event.Adds : Event → Prop
  | .command _ (.chat argv1 _ _) _ => argv1 = bytes "adduser"
  | .command _ (.register argv1 _ _ _ _) _ => argv1 = bytes "adduser"
  | .command _ (.node argv1 _ _) _ => argv1 = bytes "login"
  | _ => False

/-- Every other event leaves the records as they are. -/
theorem Effect.core {s s' : Server} {e : Event} (h : Effect s s' e) (hno : ¬ e.Adds) : s'.dir.core = s.dir.core := by
  cases h with
  | same hr _ => rw [hr.dir]
  | connect hdir _ => rw [hdir]
  | rootAdduser | adduser => exact absurd rfl hno
  | userLogin _ _ _ hdir _ _ => rw [hdir, core_setUserInfo]
  | nodeLogin => exact absurd rfl hno
  | leave _ _ _ hdir _ _ => rw [hdir]
  | userLeave _ _ _ hdir _ _ => rw [hdir, core_setUserInfo]
  | nodeLeave _ _ _ hdir _ _ => rw [hdir, core_setNodeInfo]

section Steps

variable {l : Ledger} {s' : Server}

/-- `register`. -/
theorem storedStep_register {id : Nat} {c : Client} (argv1 argv2 argv3 argv4 argv5 : Bytes) (env : Env) :
    StoredStep l ⟨⟨l.stored.server.registerCommand c argv1 argv2 argv4 env,
          l.stored.db.afterRegister argv1 argv2 argv3 argv4 argv5 env⟩,
        (Event.issues (.command id (.register argv1 argv2 argv3 argv4 argv5) env)).toList ++ l.issued,
        (Event.redeems (.command id (.register argv1 argv2 argv3 argv4 argv5) env)).toList ++ l.redeemed⟩
      (.command id (.register argv1 argv2 argv3 argv4 argv5) env) := by
  unfold Server.registerCommand Tables.afterRegister Event.issues Event.redeems
  simp only
  by_cases hget : argv1 = bytes "getuserid"
  · subst hget
    have hadd : ¬ bytes "getuserid" = bytes "adduser" := by decide
    simp only [if_true, true_and, hadd, false_and, if_false, Option.toList_none, List.nil_append]
    unfold Server.registerGetuserid
    cases hat : argv2.contains 0x40 with
    | false => exact .other rfl rfl rfl rfl
    | true =>
      cases hexist : env.emailIsExist argv2 with
      | true => exact .other rfl rfl rfl rfl
      | false => exact .token rfl rfl rfl rfl
  · simp only [hget, if_false, false_and, Option.toList_none, List.nil_append]
    by_cases hadd : argv1 = bytes "adduser"
    · subst hadd
      simp only [if_true, true_and]
      unfold Server.registerAdduser
      cases huserid : env.useridIsExist argv4 with
      | false => exact .other rfl rfl rfl rfl
      | true =>
        cases hname : env.usernameIsExist argv2 with
        | true => exact .other rfl rfl rfl rfl
        | false => exact .adduser huserid hname rfl rfl rfl rfl
    · simp only [hadd, if_false, false_and, Option.toList_none, List.nil_append]
      exact .other rfl rfl rfl rfl

/-- `node login`. -/
theorem storedStep_nodeLogin {id : Nat} {c : Client} (hc : l.stored.server.client? id = some c)
    (userid nodename : Bytes) (env : Env) :
    StoredStep l ⟨⟨l.stored.server.nodeLogin c userid nodename,
          l.stored.db.afterNodeLogin l.stored.server c userid nodename⟩, l.issued, l.redeemed⟩
      (.command id (.node (bytes "login") userid nodename) env) := by
  have hid := client?_id hc
  subst hid
  unfold Tables.afterNodeLogin
  cases hgrant : l.stored.server.admitsNode c userid nodename with
  | none => exact .other (by rw [((nodeLogin_refused hgrant).replies hc).dir]) rfl rfl rfl
  | some username =>
    have hname := (admitsNode_iff.mp hgrant).2.1
    have hdir : (l.stored.server.nodeLogin c userid nodename).dir.core =
        (l.stored.server.dir.insertNodeToUserInfo username nodename).2.core := by
      rw [nodeLogin_admitted hgrant, (admitNode_effect _ c username userid nodename).1, core_setNodeInfo]
      rfl
    by_cases hret : (l.stored.server.dir.insertNodeToUserInfo username nodename).1 = 1
    · simp only [if_pos hret]
      exact .node hname hret hdir rfl rfl rfl
    · simp only [if_neg hret]
      exact .other (hdir.trans (insertNodeToUserInfo_zero hret)) rfl rfl rfl

end Steps

/-- **Every event is one of the cases.** -/
theorem ledgerNext_step {l l' : Ledger} {e : Event} (h : ledgerNext l e = some l') : StoredStep l l' e := by
  obtain ⟨st, hst, rfl⟩ := Option.map_eq_some_iff.mp h
  obtain ⟨s', hs', rfl⟩ := Option.map_eq_some_iff.mp hst
  have hcore := (chatNext_effect hs').core
  cases e with
  | connect | quit | free => exact .other (hcore fun h => h) rfl rfl rfl
  | command id cmd env =>
    obtain ⟨c, hc, hrest⟩ := Option.bind_eq_some_iff.mp hs'
    obtain ⟨_, hexec⟩ := Option.ite_none_left_eq_some.mp hrest
    obtain rfl := Option.some.inj hexec
    have hdb : l.stored.db.after l.stored.server (.command id cmd env) =
        l.stored.db.afterCommand l.stored.server c env cmd := by
      simp only [Tables.after, hc]
    rw [hdb]
    cases cmd with
    | chat argv1 argv2 argv3 =>
      by_cases hadd : argv1 = bytes "adduser"
      · subst hadd
        exact .rootAdduser rfl rfl rfl
      · exact .other (hcore hadd) rfl rfl rfl
    | node argv1 argv2 argv3 =>
      by_cases hlogin : argv1 = bytes "login"
      · subst hlogin
        have hstep := storedStep_nodeLogin hc argv2 argv3 env
        have hafter : l.stored.db.afterCommand l.stored.server c env (.node (bytes "login") argv2 argv3) =
            l.stored.db.afterNodeLogin l.stored.server c argv2 argv3 := by
          simp only [Tables.afterCommand, if_true]
        rw [hafter, exec_nodeLogin]
        exact hstep
      · have hafter : l.stored.db.afterCommand l.stored.server c env (.node argv1 argv2 argv3) = l.stored.db :=
          if_neg hlogin
        rw [hafter]
        exact .other (hcore hlogin) rfl rfl rfl
    | register argv1 argv2 argv3 argv4 argv5 =>
      exact storedStep_register argv1 argv2 argv3 argv4 argv5 env

end SmartHome.Chat
