/-
  Subject:   FROM BYTES TO COMMANDS (redis.c, networking.c): the chat server with the connections of all its clients.

  Every client has a query buffer of its own (Queries.lean). The reads of all clients come in any order and in
  any pieces; what a read completes is looked up in the command table and executed at once. Server.lean begins
  one level above, with commands; here are the bytes.

  * `redisCommandTable`, `lookupCommand`, `processCommand` -- the source; `act`, `acts` -- what one read has done;
  * `Wire`, `wireNext` -- everything that can happen;
  * `Server.hush` -- the server without what it has queued: no command depends on it (`exec_alike`);
  * **`wire_refines`** -- a run over bytes is a run over commands, and no read stops the server.
-/
import SmartHome.Chat.Containers
import SmartHome.Chat.Sessions
import SmartHome.Redis.Pipelines

namespace SmartHome.Chat

open SmartHome.Lib SmartHome.Redis

attribute [local instance] lawfulBEq_bytes

/-! ## 1. The source -/

/-- What a string is to `%s`, `strcmp` and their like. -/
def cstr (s : Sds) : Bytes := s.takeWhile (· != 0)

/-- The functions of the command table. -/
inductive Proc where
  | chatCommand
  | nodeCommand
  | registerCommand
  deriving DecidableEq

/-- `struct redisCommand`. -/
structure RedisCommand where
  name : Bytes
  proc : Proc
  arity : Nat
  deriving DecidableEq

/-- `redisCommandTable`; the commands of Redis are compiled out. -/
def redisCommandTable : List RedisCommand :=
  [⟨bytes "chat", .chatCommand, 4⟩, ⟨bytes "node", .nodeCommand, 4⟩, ⟨bytes "register", .registerCommand, 6⟩,
    ⟨bytes "r", .registerCommand, 6⟩]

/-- `populateCommandTable`. -/
def populateCommandTable (seed : UInt32) : Dict Bytes RedisCommand :=
  redisCommandTable.foldl (fun d cmd => (dictAdd (commandTableDictType seed) true d cmd.name cmd).2) dictCreate

/-- `lookupCommand`, by the four chains the table has: the hash is that of the whole string, the comparison ends at a
    zero byte. -/
def lookupCommand (seed : UInt32) (name : Sds) : Option RedisCommand :=
  redisCommandTable.find? fun cmd =>
    dictGenCaseHashFunction seed name &&& 3 == dictGenCaseHashFunction seed cmd.name &&& 3 &&
      strcasecmpZero (cstr name) cmd.name

/-- The arguments the functions of the table use. -/
def Proc.command : Proc → List Sds → Option Command
  | .chatCommand, [_, argv1, argv2, argv3] => some (.chat (cstr argv1) (cstr argv2) (cstr argv3))
  | .nodeCommand, [_, argv1, argv2, argv3] => some (.node (cstr argv1) (cstr argv2) (cstr argv3))
  | .registerCommand, [_, argv1, argv2, argv3, argv4, argv5] =>
    some (.register (cstr argv1) (cstr argv2) (cstr argv3) (cstr argv4) (cstr argv5))
  | _, _ => none

/-- `addReplyErrorLength`. -/
def errorReplies (message : Bytes) : List Reply := [reply (bytes "-ERR "), reply message, reply (bytes "\r\n")]

/-- `addReplyErrorFormat`: no line breaks in the text. -/
def errorFormat (message : Bytes) : List Reply :=
  errorReplies (message.map fun b => if b = 0x0D ∨ b = 0x0A then 0x20 else b)

/-- `processCommand`. -/
def Server.processCommand (s : Server) (seed : UInt32) (c : Client) (env : Env) (argv : List Sds) : Server :=
  if isQuit argv then (s.addReplyString c.id (reply (bytes "+OK\r\n"))).closeAfterReply c.id
  else
    match lookupCommand seed (argv.headD []) with
    | none => s.addReplies c.id (errorFormat (bytes "unknown command '" ++ cstr (argv.headD []) ++ bytes "'"))
    | some cmd =>
      if cmd.arity ≠ argv.length then
        s.addReplies c.id (errorFormat (bytes "wrong number of arguments for '" ++ cmd.name ++ bytes "' command"))
      else (cmd.proc.command argv).elim s fun command => s.exec c env command

/-- What is done for a client; after a protocol error it is closed. -/
def Server.act (s : Server) (seed : UInt32) (id : Nat) (env : Env) : Action → Server
  | .execute argv => (s.client? id).elim s fun c => s.processCommand seed c env argv
  | .error message => (s.addReplies id (errorReplies message)).closeAfterReply id

/-- All that a read completes; every command has answers of its own from the database. -/
def Server.acts (s : Server) (seed : UInt32) (id : Nat) (env : Nat → Env) : List Action → Server
  | [] => s
  | a :: actions => (s.act seed id (env 0) a).acts seed id (fun i => env (i + 1)) actions

/-- The server, the connections and, for reference, all that was read from each. -/
structure Wire where
  server : Server
  readers : Nat → Reader
  received : Nat → Sds

/-- A connection, a read that gives some bytes, the end of a connection. -/
inductive WireEvent where
  | connect (type : UInt8)
  | read (id : Nat) (data : Sds) (env : Nat → Env)
  | free (id : Nat)

def wireStart (rows : List UserRow) : Wire := ⟨serverStart rows, fun _ => readerStart, fun _ => []⟩

/-- One event; `none` if it cannot happen, or an assertion fails. -/
def wireNext (seed : UInt32) (w : Wire) : WireEvent → Option Wire
  | .connect type =>
    some { w with
      server := w.server.createClient type
      readers := Function.update w.readers w.server.nextId readerStart }
  | .read id data env =>
    (w.server.client? id).bind fun c =>
      match readQueryFromClient (w.readers id).query data with
      | .done q actions =>
        some ⟨w.server.acts seed id env actions,
          Function.update w.readers id ⟨q, (w.readers id).served ++ actions⟩,
          Function.update w.received id (w.received id ++ data)⟩
      | .freed => some { w with server := w.server.freeClient c }
      | .assertFailed => none
  | .free id => (w.server.client? id).map fun c => { w with server := w.server.freeClient c }

/-- The command a request is. -/
def toCommand (seed : UInt32) (argv : List Sds) : Option Command :=
  if isQuit argv then none
  else
    (lookupCommand seed (argv.headD [])).bind fun cmd =>
      if cmd.arity ≠ argv.length then none else cmd.proc.command argv

def commandOf (seed : UInt32) : Action → Option Command
  | .execute argv => toCommand seed argv
  | .error _ => none

/-! ## 2. The command table -/

theorem lower_cstr_of_lookup {seed : UInt32} {name : Sds} {cmd : RedisCommand}
    (h : lookupCommand seed name = some cmd) :
    cmd ∈ redisCommandTable ∧ lower (cstr name) = lower cmd.name := by
  refine ⟨List.mem_of_find?_eq_some h, ?_⟩
  have hp := List.find?_some h
  simp only [Bool.and_eq_true, strcasecmpZero_eq, beq_iff_eq] at hp
  exact hp.2

theorem cstr_eq {name : Sds} (h : 0 ∉ name) : cstr name = name := by
  refine List.takeWhile_eq_self_iff.2 fun b hb => ?_
  have hne : b ≠ 0 := fun h0 => h (h0 ▸ hb)
  simpa using hne

theorem names_distinct : redisCommandTable.Pairwise fun a b => strcasecmpZero a.name b.name = false := by
  simp only [redisCommandTable, List.pairwise_cons, List.mem_cons, List.not_mem_nil, or_false, forall_eq_or_imp,
    forall_eq, IsEmpty.forall_iff, implies_true, List.Pairwise.nil, and_true]
  decide

/-- `populateCommandTable` adds every command: its assertion holds, and the dictionary has the table. -/
theorem populate_spec (seed : UInt32) (done todo : List RedisCommand) {d : Dict Bytes RedisCommand}
    (hd : d.WF (commandTableDictType seed)) (hentries : d.entries.Perm (done.reverse.map fun cmd => (cmd.name, cmd)))
    (hdistinct : (done ++ todo).Pairwise fun a b => strcasecmpZero a.name b.name = false) :
    let d' := todo.foldl (fun d cmd => (dictAdd (commandTableDictType seed) true d cmd.name cmd).2) d
    d'.WF (commandTableDictType seed) ∧ d'.entries.Perm ((done ++ todo).reverse.map fun cmd => (cmd.name, cmd)) := by
  induction todo generalizing done d with
  | nil =>
    rw [List.append_nil]
    exact ⟨hd, hentries⟩
  | cons cmd todo ih =>
    have hnew : ∀ x ∈ d.entries, (commandTableDictType seed).keyCompare cmd.name x.1 = false := by
      intro x hx
      obtain ⟨old, hold, rfl⟩ := List.mem_map.1 (hentries.mem_iff.1 hx)
      rw [keyCompare_comm]
      exact (List.pairwise_append.1 hdistinct).2.2 old (List.mem_reverse.1 hold) cmd List.mem_cons_self
    obtain ⟨-, hwf, hperm⟩ := dictAdd_spec hd true hnew cmd
    have hdone : (dictAdd (commandTableDictType seed) true d cmd.name cmd).2.entries.Perm
        ((done ++ [cmd]).reverse.map fun cmd => (cmd.name, cmd)) := by
      rw [List.reverse_append]
      exact hperm.trans (hentries.cons _)
    have hrest := ih (done ++ [cmd]) hwf hdone (by rwa [List.append_assoc, List.singleton_append])
    rw [List.append_assoc, List.singleton_append] at hrest
    exact hrest

/-- **`lookupCommand` is `dictFetchValue`** on the table, for a name without zero bytes. -/
theorem lookupCommand_eq (seed : UInt32) {name : Sds} (hname : 0 ∉ name) :
    lookupCommand seed name = (dictFetchValue (commandTableDictType seed) (populateCommandTable seed) name).1 := by
  obtain ⟨hwf, hperm⟩ := populate_spec seed [] redisCommandTable wf_dictCreate (.refl _) names_distinct
  rw [List.nil_append] at hperm
  have hsame : (fun cmd : RedisCommand =>
      dictGenCaseHashFunction seed name &&& 3 == dictGenCaseHashFunction seed cmd.name &&& 3 &&
        strcasecmpZero (cstr name) cmd.name) = fun cmd => strcasecmpZero name cmd.name := by
    funext cmd
    rw [cstr_eq hname]
    cases h : strcasecmpZero name cmd.name with
    | false => rw [Bool.and_false]
    | true =>
      rw [show dictGenCaseHashFunction seed name = dictGenCaseHashFunction seed cmd.name from
        (commandTableDictType seed).hash_eq h, beq_self_eq_true, Bool.and_true]
  have hfind := (dictFind_spec hwf name).1
  rw [lookupCommand, hsame, dictFetchValue, populateCommandTable, hfind,
    find?_perm (hperm.trans ((List.reverse_perm _).map _)) (hwf.distinct.unique name), List.find?_map, Option.map_map]
  exact Option.map_id'.symm

theorem command_chat {p : Proc} {argv : List Sds} {argv1 argv2 argv3 : Bytes}
    (h : p.command argv = some (.chat argv1 argv2 argv3)) :
    p = .chatCommand ∧ ∃ a₀ a₁ a₂ a₃, argv = [a₀, a₁, a₂, a₃] ∧ cstr a₁ = argv1 ∧ cstr a₂ = argv2 ∧
      cstr a₃ = argv3 := by
  unfold Proc.command at h
  split at h
  · rename_i a₀ a₁ a₂ a₃
    cases h
    exact ⟨rfl, a₀, a₁, a₂, a₃, rfl, rfl, rfl, rfl⟩
  · cases h
  · cases h
  · cases h

/-- What a request must be to be a chat command. -/
theorem toCommand_chat {seed : UInt32} {argv : List Sds} {argv1 argv2 argv3 : Bytes}
    (h : toCommand seed argv = some (.chat argv1 argv2 argv3)) :
    ∃ a₀ a₁ a₂ a₃, argv = [a₀, a₁, a₂, a₃] ∧ lower (cstr a₀) = bytes "chat" ∧ cstr a₁ = argv1 ∧ cstr a₂ = argv2 ∧
      cstr a₃ = argv3 := by
  rw [toCommand, Option.ite_none_left_eq_some, Option.bind_eq_some_iff] at h
  obtain ⟨-, cmd, hcmd, h⟩ := h
  rw [Option.ite_none_left_eq_some] at h
  obtain ⟨hproc, a₀, a₁, a₂, a₃, rfl, h₁, h₂, h₃⟩ := command_chat h.2
  obtain ⟨hmem, hname⟩ := lower_cstr_of_lookup hcmd
  refine ⟨a₀, a₁, a₂, a₃, rfl, hname.trans ?_, h₁, h₂, h₃⟩
  simp only [redisCommandTable, List.mem_cons, List.not_mem_nil, or_false] at hmem
  rcases hmem with rfl | rfl | rfl | rfl
  · decide
  · cases hproc
  · cases hproc
  · cases hproc

/-! ## 3. What is queued decides nothing -/

/-- A client without what was queued for it. -/
def Client.hush (c : Client) : Client := { c with out := [] }

/-- The server without what it has queued. -/
def Server.hush (s : Server) : Server := s.withClients (s.clients.map Client.hush) List.map_map

/-- Whether a client is closed after the reply. -/
def Server.closing? (s : Server) (id : Nat) : Option Bool := (s.client? id).map Client.closing

theorem Server.eq_of {s t : Server} (hdir : s.dir = t.dir) (hclients : s.clients = t.clients)
    (hnext : s.nextId = t.nextId) : s = t := by
  cases s
  cases t
  cases hdir
  cases hclients
  cases hnext
  rfl

theorem Client.hush_addReplyString (c : Client) (r : Reply) : (c.addReplyString r).hush = c.hush := by
  unfold Client.addReplyString
  split <;> rfl

theorem Client.hush_sendTo (c : Client) (dest : Bytes) (toType : UInt8) (r : Reply) :
    (c.sendTo dest toType r).hush = c.hush := by
  unfold Client.sendTo
  split
  · exact c.hush_addReplyString r
  · rfl

section Hush

variable (s : Server) (id : Nat)

theorem dir_addReplyString (r : Reply) : (s.addReplyString id r).dir = s.dir := rfl

theorem dir_setSession (f : Session → Session) : (s.setSession id f).dir = s.dir := rfl

theorem dir_chatSend (tag source dest message : Bytes) (toType : UInt8) :
    (s.chatSend tag source dest message toType).dir = s.dir := rfl

theorem dir_withDir (d : Directory) : (s.withDir d).dir = d := rfl

@[simp]
theorem hush_addReplyString (r : Reply) : (s.addReplyString id r).hush = s.hush :=
  Server.eq_of rfl (map_modifyFirst fun c _ => c.hush_addReplyString r) rfl

@[simp]
theorem hush_addReplies (rs : List Reply) : (s.addReplies id rs).hush = s.hush := by
  induction rs generalizing s with
  | nil => rfl
  | cons r rs ih => exact (ih (s.addReplyString id r)).trans (hush_addReplyString s id r)

@[simp]
theorem hush_chatSend (tag source dest message : Bytes) (toType : UInt8) :
    (s.chatSend tag source dest message toType).hush = s.hush := by
  refine Server.eq_of rfl ?_ rfl
  show (s.clients.map _).map Client.hush = s.clients.map Client.hush
  rw [List.map_map]
  exact List.map_congr_left fun c _ => c.hush_sendTo dest toType _

@[simp]
theorem hush_setSession (f : Session → Session) : (s.setSession id f).hush = s.hush.setSession id f :=
  Server.eq_of rfl (map_modifyFirst_comm (f := fun c : Client => { c with toSession := f c.toSession })
    (fun _ => rfl) fun _ => rfl) rfl

@[simp]
theorem hush_closeAfterReply : (s.closeAfterReply id).hush = s.hush.closeAfterReply id :=
  Server.eq_of rfl (map_modifyFirst_comm (f := fun c : Client => { c with closing := true }) (fun _ => rfl)
    fun _ => rfl) rfl

@[simp]
theorem hush_withDir (d : Directory) : (s.withDir d).hush = s.hush.withDir d := rfl

@[simp]
theorem hush_createClient (type : UInt8) : (s.createClient type).hush = (s.hush.createClient type) :=
  Server.eq_of rfl List.map_append rfl

@[simp]
theorem hush_removeClient : (s.removeClient id).hush = s.hush.removeClient id :=
  Server.eq_of rfl (by
    show (s.clients.eraseP _).map Client.hush = (s.clients.map Client.hush).eraseP _
    rw [List.eraseP_map]
    rfl) rfl

theorem hush_client? : s.hush.client? id = (s.client? id).map Client.hush := List.find?_map

@[simp]
theorem hush_getAllNodeInfo (username : Bytes) : (s.getAllNodeInfo id username).hush = s.hush := by
  unfold Server.getAllNodeInfo
  split
  · rfl
  · exact hush_addReplies s id _

end Hush

/-- Two servers that differ in what they have queued only. -/
def Alike (s t : Server) : Prop := s.hush = t.hush

section Alike

variable {s t : Server} (h : Alike s t)

include h

theorem Alike.dir : s.dir = t.dir := by
  have hdir := congrArg Server.dir (show s.hush = t.hush from h)
  exact hdir

theorem Alike.client {id : Nat} {c : Client} (hc : s.client? id = some c) :
    ∃ c', t.client? id = some c' ∧ c'.hush = c.hush := by
  have hclient := hush_client? t id
  rw [← show s.hush = t.hush from h, hush_client? s id, hc, Option.map_some] at hclient
  exact Option.map_eq_some_iff.1 hclient.symm

theorem Alike.closing? (id : Nat) : s.closing? id = t.closing? id := by
  have hclient := (hush_client? s id).symm.trans ((congrArg (fun s => Server.client? s id) h).trans (hush_client? t id))
  have hclosing := congrArg (Option.map Client.closing) hclient
  rw [Option.map_map, Option.map_map] at hclosing
  exact hclosing

theorem alike_chatLogin (c : Client) (name password : Bytes) (env : Env) :
    Alike (s.chatLogin c name password env) (t.chatLogin c name password env) := by
  have h' : s.hush = t.hush := h
  simp only [Alike, Server.chatLogin, Server.chatUserInfo, apply_ite Server.hush, hush_addReplyString, hush_setSession,
    hush_addReplies, hush_getAllNodeInfo, hush_chatSend, hush_withDir, dir_setSession, h', h.dir]

theorem alike_nodeLogin (c : Client) (userid nodename : Bytes) :
    Alike (s.nodeLogin c userid nodename) (t.nodeLogin c userid nodename) := by
  have h' : s.hush = t.hush := h
  simp only [Alike, Server.nodeLogin, Server.admitNode, h.dir]
  cases t.dir.getNameByUserid userid with
  | none => simp only [apply_ite Server.hush, hush_addReplyString, hush_setSession, h']
  | some username =>
    simp only [apply_ite Server.hush, hush_addReplyString, hush_setSession, hush_chatSend, hush_withDir,
      dir_addReplyString, dir_setSession, dir_chatSend, dir_withDir, h']

/-- **No command depends on what is queued.** -/
theorem exec_alike (c : Client) (env : Env) (cmd : Command) : Alike (s.exec c env cmd) (t.exec c env cmd) := by
  have h' : s.hush = t.hush := h
  cases cmd with
  | chat argv1 argv2 argv3 =>
    have hlogin := alike_chatLogin h c argv2 argv3 env
    simp only [Alike] at hlogin
    simp only [Alike, Server.exec, Server.chatCommand, Server.chatSay, Server.chatUserInfo, Server.myDebugEntry,
      Server.dumpClients, Server.dumpAlluser, Server.myAddUser, apply_ite Server.hush, hush_addReplyString,
      hush_addReplies, hush_chatSend, hush_withDir, hlogin, h', h.dir]
  | node argv1 argv2 argv3 =>
    have hlogin := alike_nodeLogin h c argv2 argv3
    simp only [Alike] at hlogin
    simp only [Alike, Server.exec, Server.nodeCommand, Server.nodeSay, apply_ite Server.hush, hush_addReplyString,
      hush_chatSend, hlogin, h']
  | register argv1 argv2 argv3 argv4 argv5 =>
    simp only [Alike, Server.exec, Server.registerCommand, Server.registerGetuserid, Server.registerAdduser,
      apply_ite Server.hush, hush_addReplyString, hush_withDir, dir_addReplyString, h', h.dir]

theorem alike_freeClient (c : Client) : Alike (s.freeClient c) (t.freeClient c) := by
  have h' : s.hush = t.hush := h
  simp only [Alike, Server.freeClient, Server.chatNotifyUserInfo, hush_removeClient, apply_ite Server.hush,
    hush_chatSend, hush_withDir, dir_chatSend, h', h.dir]

end Alike

theorem exec_hush (s : Server) (c : Client) (env : Env) (cmd : Command) : s.exec c.hush env cmd = s.exec c env cmd := by
  cases cmd with
  | chat | node | register => rfl

theorem freeClient_hush (s : Server) (c : Client) : s.freeClient c.hush = s.freeClient c := rfl

/-! ## 4. Who is there, and who is closed after the reply -/

/-- What a command leaves as it is: the next identity, and who is closed after the reply. -/
def Server.frame (s : Server) : Nat × (Nat → Option Bool) := (s.nextId, s.closing?)

theorem Alike.frame {s t : Server} (h : Alike s t) : s.frame = t.frame := by
  have hnext := congrArg Server.nextId (show s.hush = t.hush from h)
  exact Prod.ext hnext (funext h.closing?)

section Frame

variable (s : Server) (id : Nat)

@[simp]
theorem frame_addReplyString (r : Reply) : (s.addReplyString id r).frame = s.frame :=
  Alike.frame (hush_addReplyString s id r)

@[simp]
theorem frame_addReplies (rs : List Reply) : (s.addReplies id rs).frame = s.frame :=
  Alike.frame (hush_addReplies s id rs)

@[simp]
theorem frame_getAllNodeInfo (username : Bytes) : (s.getAllNodeInfo id username).frame = s.frame :=
  Alike.frame (hush_getAllNodeInfo s id username)

@[simp]
theorem frame_chatSend (tag source dest message : Bytes) (toType : UInt8) :
    (s.chatSend tag source dest message toType).frame = s.frame :=
  Alike.frame (hush_chatSend s tag source dest message toType)

@[simp]
theorem frame_withDir (d : Directory) : (s.withDir d).frame = s.frame := rfl

theorem closing?_eq (i : Nat) :
    s.closing? i = ((s.clients.map fun c => (c.id, c.closing)).find? fun x => x.1 == i).map Prod.snd := by
  rw [List.find?_map, Option.map_map]
  rfl

@[simp]
theorem frame_setSession (f : Session → Session) : (s.setSession id f).frame = s.frame := by
  have hclients : (s.setSession id f).clients.map (fun c => (c.id, c.closing)) =
      s.clients.map fun c => (c.id, c.closing) :=
    map_modifyFirst (f := fun c : Client => { c with toSession := f c.toSession }) fun _ _ => rfl
  refine Prod.ext rfl (funext fun i => ?_)
  show (s.setSession id f).closing? i = s.closing? i
  rw [closing?_eq, closing?_eq, hclients]

theorem frame_exec (c : Client) (env : Env) (cmd : Command) : (s.exec c env cmd).frame = s.frame := by
  cases cmd with
  | chat argv1 argv2 argv3 =>
    simp only [Server.exec, Server.chatCommand, Server.chatLogin, Server.chatSay, Server.chatUserInfo,
      Server.myDebugEntry, Server.dumpClients, Server.dumpAlluser, Server.myAddUser, apply_ite Server.frame,
      frame_addReplyString, frame_addReplies, frame_getAllNodeInfo, frame_chatSend, frame_withDir, frame_setSession,
      ite_self]
  | node argv1 argv2 argv3 =>
    simp only [Server.exec, Server.nodeCommand, Server.nodeSay, Server.nodeLogin, Server.admitNode]
    cases s.dir.getNameByUserid argv2 with
    | none => simp only [apply_ite Server.frame, frame_addReplyString, frame_chatSend, frame_setSession, ite_self]
    | some username =>
      simp only [apply_ite Server.frame, frame_addReplyString, frame_chatSend, frame_withDir, frame_setSession,
        ite_self]
  | register argv1 argv2 argv3 argv4 argv5 =>
    simp only [Server.exec, Server.registerCommand, Server.registerGetuserid, Server.registerAdduser,
      apply_ite Server.frame, frame_addReplyString, frame_withDir, ite_self]

theorem frame_chatNotifyUserInfo (c : Client) : (s.chatNotifyUserInfo c).frame = s.frame := by
  simp only [Server.chatNotifyUserInfo, apply_ite Server.frame, frame_chatSend, frame_withDir, ite_self]

theorem frame_closeAfterReply {s : Server} {id : Nat} (hid : s.closing? id = some false) :
    (s.closeAfterReply id).frame = (s.nextId, Function.update s.closing? id (some true)) := by
  refine Prod.ext rfl (funext fun i => ?_)
  show (s.closeAfterReply id).closing? i = Function.update s.closing? id (some true) i
  obtain ⟨c, hc, -⟩ := Option.map_eq_some_iff.1 hid
  by_cases hi : i = id
  · subst hi
    rw [Function.update_self, Server.closing?, Server.closeAfterReply,
      client?_modify hc (f := fun c : Client => { c with closing := true }) (fun _ => rfl)]
    rfl
  · rw [Function.update_of_ne hi]
    refine congrArg (Option.map Client.closing) (find?_modifyFirst_of_ne fun c hc => ?_)
    have hne : (c.id == i) = false := by
      rw [client?_id (s := s) hc]
      exact beq_eq_false_iff_ne.2 (Ne.symm hi)
    exact ⟨hne, hne⟩

theorem closing?_removeClient {s : Server} {id i : Nat} {b : Bool} (h : (s.removeClient id).closing? i = some b) :
    s.closing? i = some b := by
  obtain ⟨c, hc, rfl⟩ := Option.map_eq_some_iff.1 h
  have hmem : c ∈ s.clients := List.mem_of_mem_eraseP (List.mem_of_find?_eq_some hc)
  have hfind : s.client? c.id = some c := find?_key s.distinct hmem
  rw [Server.closing?, ← client?_id hc, hfind]
  rfl

theorem closing?_freeClient {s : Server} {c : Client} {i : Nat} {b : Bool} (h : (s.freeClient c).closing? i = some b) :
    s.closing? i = some b := by
  rw [← show (s.chatNotifyUserInfo c).closing? = s.closing? from congrArg Prod.snd (frame_chatNotifyUserInfo s c)]
  exact closing?_removeClient h

theorem closing?_createClient {s : Server} {type : UInt8} {i : Nat} {b : Bool}
    (h : (s.createClient type).closing? i = some b) : s.closing? i = some b ∨ i = s.nextId ∧ b = false := by
  obtain ⟨c, hc, rfl⟩ := Option.map_eq_some_iff.1 h
  unfold Server.client? Server.createClient at hc
  rw [List.find?_append, Option.or_eq_some_iff] at hc
  rcases hc with hc | ⟨-, hc⟩
  · exact .inl (Option.map_eq_some_iff.2 ⟨c, hc, rfl⟩)
  · have hmem := List.mem_singleton.1 (List.mem_of_find?_eq_some hc)
    have hid : c.id = i := by simpa using List.find?_some hc
    rw [hmem] at hid ⊢
    exact .inr ⟨hid.symm, rfl⟩

end Frame

/-! ## 5. A run over bytes is a run over commands -/

/-- What a client has commanded. -/
def Event.commandBy (id : Nat) : Event → Option Command
  | .command i cmd _ => if i = id then some cmd else none
  | _ => none

/-- Who asks the database, with what command and with what answers, is as `P` says. -/
def Event.Asks (P : Nat → Command → Env → Prop) : Event → Prop
  | .command id cmd env => P id cmd env
  | _ => True

/-- Some events of one client take a server to one that is like `s'`. -/
structure Performs (P : Nat → Command → Env → Prop) (id : Nat) (t s' : Server) (cmds : List Command)
    (events : List Event) (t' : Server) : Prop where
  run : runEvents chatNext t events = some t'
  alike : Alike t' s'
  commands : ∀ i, events.filterMap (Event.commandBy i) = if i = id then cmds else []
  asks : ∀ e ∈ events, e.Asks P

section Performs

variable {P : Nat → Command → Env → Prop} (seed : UInt32) {id : Nat} {s s' s'' t t' t'' : Server}
  {cmds cmds' : List Command} {events events' : List Event}

theorem Performs.nothing (h : Alike t s) (P : Nat → Command → Env → Prop) (id : Nat) : Performs P id t s [] [] t :=
  ⟨rfl, h, fun _ => (ite_self _).symm, fun _ he => absurd he List.not_mem_nil⟩

theorem Performs.trans (h : Performs P id t s' cmds events t') (h' : Performs P id t' s'' cmds' events' t'') :
    Performs P id t s'' (cmds ++ cmds') (events ++ events') t'' := by
  refine ⟨?_, h'.alike, fun i => ?_, fun e he => ?_⟩
  · rw [runEvents_append, h.run]
    exact h'.run
  · rw [List.filterMap_append, h.commands, h'.commands]
    split <;> rfl
  · rcases List.mem_append.1 he with he | he
    · exact h.asks e he
    · exact h'.asks e he

/-- A command. -/
theorem performs_exec (h : Alike t s) {c : Client} (hc : s.client? id = some c) (hopen : c.closing = false) {env : Env}
    {cmd : Command} (hP : P id cmd env) : ∃ t', Performs P id t (s.exec c env cmd) [cmd] [.command id cmd env] t' := by
  obtain ⟨c', hc', hhush⟩ := Alike.client (show Alike s t from h.symm) hc
  have hopen' : c'.closing = false := (congrArg Client.closing hhush).trans hopen
  refine ⟨t.exec c' env cmd, ?_, ?_, fun i => ?_, fun e he => ?_⟩
  · rw [runEvents, chatNext_command hc' hopen']
    rfl
  · rw [← exec_hush t c', hhush, exec_hush]
    exact exec_alike h c env cmd
  · by_cases hi : id = i
    · simp [Event.commandBy, hi]
    · simp [Event.commandBy, hi, Ne.symm hi]
  · rw [List.mem_singleton.1 he]
    exact hP

/-- A last reply. -/
theorem performs_quit (h : Alike t s) (hopen : s.closing? id = some false) (last : Reply) :
    (s.closeAfterReply id).frame = (s.nextId, Function.update s.closing? id (some true)) ∧
      ∃ events t', Performs P id t (s.closeAfterReply id) [] events t' := by
  obtain ⟨c, hc, hcopen⟩ := Option.map_eq_some_iff.1 hopen
  obtain ⟨c', hc', hhush⟩ := Alike.client (show Alike s t from h.symm) hc
  have hopen' : c'.closing = false := (congrArg Client.closing hhush).trans hcopen
  refine ⟨frame_closeAfterReply hopen, [.quit id last], (t.addReplyString id last).closeAfterReply id, ?_, ?_,
    fun i => ?_, fun e he => ?_⟩
  · simp [runEvents, chatNext, hc', hopen']
  · have h' : t.hush = s.hush := h
    rw [Alike, hush_closeAfterReply, hush_closeAfterReply, hush_addReplyString, h']
  · rw [ite_self]
    rfl
  · rw [List.mem_singleton.1 he]
    trivial

/-- The same, with some replies before. -/
theorem performs_close {s₁ : Server} (h : Alike t s) (hopen : s.closing? id = some false) (h₁ : Alike s₁ s) :
    (s₁.closeAfterReply id).frame = (s.nextId, Function.update s.closing? id (some true)) ∧
      ∃ events t', Performs P id t (s₁.closeAfterReply id) [] events t' := by
  have hframe := h₁.frame
  rw [← show s₁.nextId = s.nextId from congrArg Prod.fst hframe,
    ← show s₁.closing? = s.closing? from congrArg Prod.snd hframe]
  exact performs_quit (show Alike t s₁ from h.trans h₁.symm) ((h₁.closing? id).trans hopen) (reply [])

/-- **What is not final** is a command, or does nothing. -/
theorem act_follows (h : Alike t s) (hopen : s.closing? id = some false) {env : Env} {a : Action}
    (hP : ∀ cmd, commandOf seed a = some cmd → P id cmd env) (ha : a.isFinal = false) :
    (s.act seed id env a).frame = s.frame ∧
      ∃ events t', Performs P id t (s.act seed id env a) (commandOf seed a).toList events t' := by
  obtain ⟨c, hc, hcopen⟩ := Option.map_eq_some_iff.1 hopen
  cases a with
  | error message => cases ha
  | execute argv =>
    have hquit : isQuit argv = false := ha
    have hact : s.act seed id env (.execute argv) = s.processCommand seed c env argv := by
      rw [Server.act, hc]
      rfl
    rw [commandOf, toCommand] at hP
    rw [hact, Server.processCommand, commandOf, toCommand]
    rw [hquit, if_neg (by decide)] at hP
    rw [hquit, if_neg (by decide), if_neg (by decide)]
    cases hlookup : lookupCommand seed (argv.headD []) with
    | none => exact ⟨frame_addReplies s _ _, [], t, .nothing (h.trans (hush_addReplies s _ _).symm) P id⟩
    | some cmd =>
      rw [hlookup] at hP
      simp only [Option.bind_some] at hP ⊢
      split
      · exact ⟨frame_addReplies s _ _, [], t, .nothing (h.trans (hush_addReplies s _ _).symm) P id⟩
      rename_i harity
      rw [if_neg harity] at hP
      cases hproc : cmd.proc.command argv with
      | none => exact ⟨rfl, [], t, .nothing h P id⟩
      | some command =>
        obtain ⟨t', ht'⟩ := performs_exec h hc hcopen (hP command hproc)
        exact ⟨frame_exec s c env command, _, t', ht'⟩

/-- **What is final** closes the client. -/
theorem act_closes (env : Env) (h : Alike t s) (hopen : s.closing? id = some false) {a : Action}
    (ha : a.isFinal = true) :
    commandOf seed a = none ∧ (s.act seed id env a).frame = (s.nextId, Function.update s.closing? id (some true)) ∧
      ∃ events t', Performs P id t (s.act seed id env a) [] events t' := by
  cases a with
  | error message => exact ⟨rfl, performs_close h hopen (hush_addReplies s id (errorReplies message))⟩
  | execute argv =>
    have hquit : isQuit argv = true := ha
    obtain ⟨c, hc, -⟩ := Option.map_eq_some_iff.1 hopen
    have hact : s.act seed id env (.execute argv) =
        (s.addReplyString id (reply (bytes "+OK\r\n"))).closeAfterReply id := by
      rw [Server.act, hc, Option.elim_some, Server.processCommand, hquit, if_pos rfl, client?_id hc]
    rw [hact, commandOf, toCommand, hquit, if_pos rfl]
    exact ⟨rfl, performs_close h hopen (hush_addReplyString s id _)⟩

/-- **A read**: all that it completes. -/
theorem acts_follow {env : Nat → Env} {closed : Bool} {actions : List Action}
    (hP : ∀ i a, actions[i]? = some a → ∀ cmd, commandOf seed a = some cmd → P id cmd (env i)) (h : Alike t s)
    (hopen : s.closing? id = some false) (hserved : ServedUpTo closed actions) :
    (s.acts seed id env actions).frame = (s.nextId, Function.update s.closing? id (some closed)) ∧
      ∃ events t', Performs P id t (s.acts seed id env actions) (actions.filterMap (commandOf seed)) events t' := by
  obtain ⟨before, last, rfl, hbefore, hlast⟩ := hserved
  induction before generalizing s t env with
  | nil =>
    rw [List.nil_append]
    cases closed with
    | false =>
      cases hlast
      refine ⟨?_, [], t, .nothing h P id⟩
      rw [← hopen, Function.update_eq_self]
      rfl
    | true =>
      obtain ⟨a, rfl, ha⟩ := hlast
      obtain ⟨hnone, hact⟩ := act_closes (P := P) seed (env 0) h hopen ha
      rw [List.filterMap_cons_none hnone]
      exact hact
  | cons a before ih =>
    obtain ⟨hframe, events, t', hperf⟩ := act_follows seed h hopen (hP 0 a rfl) (hbefore a List.mem_cons_self)
    obtain ⟨hnext, hclosing⟩ := Prod.mk.inj hframe
    have hopen' : (s.act seed id (env 0) a).closing? id = some false := by
      rw [hclosing]
      exact hopen
    obtain ⟨hframe', events', t'', hperf'⟩ := ih hperf.alike hopen' (fun i b hb => hP (i + 1) b hb)
      fun b hb => hbefore b (List.mem_cons_of_mem a hb)
    refine ⟨?_, events ++ events', t'', ?_⟩
    · rw [← hnext, ← hclosing]
      exact hframe'
    · have hcmds : ((a :: before) ++ last).filterMap (commandOf seed) =
          (commandOf seed a).toList ++ (before ++ last).filterMap (commandOf seed) := by
        rw [List.cons_append, List.filterMap_cons]
        cases commandOf seed a with
        | none | some => rfl
      rw [hcmds]
      exact hperf.trans hperf'

end Performs

theorem readQueryFromClient_closed {q : Query} (hclosed : q.closeAfterReply = true) (data : Sds) :
    readQueryFromClient q data = .freed ∨
      readQueryFromClient q data = .done { q with querybuf := q.querybuf ++ data } [] := by
  unfold readQueryFromClient
  split
  · exact .inl rfl
  · refine .inr (loop_stop _ ?_)
    rw [inputStep, if_pos (.inr hclosed)]

/-- What holds of the connections in every run. -/
structure Connected (w : Wire) : Prop where
  rests : ∀ id, (w.readers id).query.Rests
  closing : ∀ id b, w.server.closing? id = some b → b = (w.readers id).query.closeAfterReply
  fresh : ∀ id, w.server.nextId ≤ id → w.readers id = readerStart

/-- A run over commands that has done what a run over bytes has. -/
structure Follows (seed : UInt32) (P : Nat → Command → Env → Prop) (rows : List UserRow) (w : Wire)
    (events : List Event) (t : Server) : Prop where
  run : runEvents chatNext (serverStart rows) events = some t
  alike : Alike t w.server
  commands : ∀ id, events.filterMap (Event.commandBy id) = (w.readers id).served.filterMap (commandOf seed)
  asks : ∀ e ∈ events, e.Asks P

/-- The read completes `a` as the `i`th request. -/
def Wire.Completes (w : Wire) (id : Nat) (data : Sds) (i : Nat) (a : Action) : Prop :=
  ∃ q actions, readQueryFromClient (w.readers id).query data = .done q actions ∧ actions[i]? = some a

/-- The commands that a read completes, with the answers of the database to each. -/
def WireEvent.Asks (seed : UInt32) (P : Nat → Command → Env → Prop) (w : Wire) : WireEvent → Prop
  | .read id data env => ∀ i a, w.Completes id data i a → ∀ cmd, commandOf seed a = some cmd → P id cmd (env i)
  | _ => True

/-- **A read** frees the client, or is served. -/
theorem read_follows (seed : UInt32) {P : Nat → Command → Env → Prop} {w : Wire} {t : Server} (hw : Connected w)
    (h : Alike t w.server) {id : Nat} {c : Client} (hc : w.server.client? id = some c) (env : Nat → Env) (data : Sds)
    (hP : WireEvent.Asks seed P w (.read id data env)) :
    readQueryFromClient (w.readers id).query data = .freed ∨
      ∃ q actions, readQueryFromClient (w.readers id).query data = .done q actions ∧ q.Rests ∧
        (w.server.acts seed id env actions).frame =
          (w.server.nextId, Function.update w.server.closing? id (some q.closeAfterReply)) ∧ ∃ events t',
          Performs P id t (w.server.acts seed id env actions) (actions.filterMap (commandOf seed)) events t' := by
  have hclosing : w.server.closing? id = some c.closing := by
    rw [Server.closing?, hc]
    rfl
  have hflag := hw.closing id _ hclosing
  cases hclosed : (w.readers id).query.closeAfterReply with
  | false =>
    have hnone : ServedUpTo (w.readers id).query.closeAfterReply [] := by
      rw [hclosed]
      exact ⟨[], [], rfl, fun a ha => absurd ha List.not_mem_nil, rfl⟩
    rcases readQueryFromClient_cases (hw.rests id) hnone data with hr | ⟨q, actions, hr, hq, hserved⟩
    · exact .inl hr
    · rw [hflag, hclosed] at hclosing
      exact .inr ⟨q, actions, hr, hq,
        acts_follow seed (fun i a ha => hP i a ⟨q, actions, hr, ha⟩) h hclosing hserved⟩
  | true =>
    -- nothing is looked at any more, the bytes are only kept
    rcases readQueryFromClient_closed hclosed data with hr | hr
    · exact .inl hr
    · refine .inr ⟨_, _, hr, ⟨fun b hb => ?_, fun hopen => ?_, (hw.rests id).closed⟩, ?_, [], t, .nothing h P id⟩
      · exact absurd (((hw.rests id).closed hclosed).symm.trans hb) (Option.some_ne_none b).symm
      · exact absurd (hclosed.symm.trans hopen) (by decide)
      · rw [← hflag, ← hclosing, Function.update_eq_self]
        rfl

/-- A client is freed. -/
theorem Follows.free {seed : UInt32} {P : Nat → Command → Env → Prop} {rows : List UserRow} {w : Wire}
    {events : List Event} {t : Server} (h : Follows seed P rows w events t) {id : Nat} {c : Client}
    (hc : w.server.client? id = some c) :
    ∃ t', Follows seed P rows { w with server := w.server.freeClient c } (events ++ [.free id]) t' := by
  obtain ⟨c', hc', hhush⟩ := Alike.client (show Alike w.server t from h.alike.symm) hc
  refine ⟨t.freeClient c', ?_, ?_, fun i => ?_, fun e he => ?_⟩
  · rw [runEvents_append, h.run]
    simp [runEvents, chatNext, hc']
  · rw [← freeClient_hush t, hhush, freeClient_hush]
    exact alike_freeClient h.alike c
  · rw [List.filterMap_append, h.commands]
    exact List.append_nil _
  · rcases List.mem_append.1 he with he | he
    · exact h.asks e he
    · rw [List.mem_singleton.1 he]
      trivial

theorem Connected.free {w : Wire} (h : Connected w) (c : Client) :
    Connected { w with server := w.server.freeClient c } := by
  refine ⟨h.rests, fun id b hb => h.closing id b (closing?_freeClient hb), fun id hid => h.fresh id ?_⟩
  have hnext : (w.server.freeClient c).nextId = w.server.nextId :=
    congrArg Prod.fst (frame_chatNotifyUserInfo w.server c)
  rw [← hnext]
  exact hid

/-- **One event.** -/
theorem follows_step {seed : UInt32} {P : Nat → Command → Env → Prop} {rows : List UserRow} {w w' : Wire}
    {events : List Event} {t : Server} {e : WireEvent} (hw : Connected w) (h : Follows seed P rows w events t)
    (he : e.Asks seed P w)
    (hs : wireNext seed w e = some w') : Connected w' ∧ ∃ events' t', Follows seed P rows w' events' t' := by
  cases e with
  | connect type =>
    cases hs
    have hreaders : Function.update w.readers w.server.nextId readerStart = w.readers := by
      rw [← hw.fresh _ (le_refl _), Function.update_eq_self]
    rw [hreaders]
    refine ⟨⟨hw.rests, fun id b hb => ?_, fun id hid => hw.fresh id (Nat.le_of_succ_le hid)⟩,
      events ++ [.connect type], t.createClient type, ?_, ?_, fun id => ?_, fun e he => ?_⟩
    · rcases closing?_createClient hb with hb | ⟨rfl, rfl⟩
      · exact hw.closing id b hb
      · exact (congrArg (fun r => r.query.closeAfterReply) (hw.fresh _ (le_refl _))).symm
    · rw [runEvents_append, h.run]
      rfl
    · have h' : t.hush = w.server.hush := h.alike
      show (t.createClient type).hush = (w.server.createClient type).hush
      rw [hush_createClient, hush_createClient, h']
    · rw [List.filterMap_append, h.commands]
      exact List.append_nil _
    · rcases List.mem_append.1 he with he | he
      · exact h.asks e he
      · rw [List.mem_singleton.1 he]
        trivial
  | free id =>
    obtain ⟨c, hc, rfl⟩ := Option.map_eq_some_iff.1 hs
    obtain ⟨t', ht'⟩ := h.free hc
    exact ⟨hw.free c, _, t', ht'⟩
  | read id data env =>
    obtain ⟨c, hc, hs⟩ := Option.bind_eq_some_iff.1 hs
    rcases read_follows seed hw h.alike hc env data he with hr | ⟨q, actions, hr, hq, hframe, events', t', hperf⟩
    · rw [hr] at hs
      cases hs
      obtain ⟨t', ht'⟩ := h.free hc
      exact ⟨hw.free c, _, t', ht'⟩
    · rw [hr] at hs
      cases hs
      obtain ⟨hnext, hclosing⟩ := Prod.mk.inj hframe
      refine ⟨⟨fun i => ?_, fun i b hb => ?_, fun i hi => ?_⟩, events ++ events', t', ?_, hperf.alike, fun i => ?_,
        ?_⟩
      · by_cases hi : i = id
        · subst hi
          simpa using hq
        · simpa [hi] using hw.rests i
      · simp only at hb ⊢
        rw [hclosing] at hb
        by_cases hi : i = id
        · subst hi
          rw [Function.update_self] at hb ⊢
          exact (Option.some.inj hb).symm
        · rw [Function.update_of_ne hi] at hb ⊢
          exact hw.closing i b hb
      · simp only at hi ⊢
        rw [hnext] at hi
        have hlt : id < w.server.nextId := client?_id hc ▸ w.server.fresh c (List.mem_of_find?_eq_some hc)
        rw [Function.update_of_ne (by omega)]
        exact hw.fresh i hi
      · rw [runEvents_append, h.run]
        exact hperf.run
      · rw [List.filterMap_append, h.commands, hperf.commands]
        by_cases hi : i = id
        · subst hi
          simp
        · simp [hi]
      · intro e he
        rcases List.mem_append.1 he with he | he
        · exact h.asks e he
        · exact hperf.asks e he

/-- All events. -/
theorem follows_of_reaches {seed : UInt32} {P : Nat → Command → Env → Prop} {rows : List UserRow} {w : Wire}
    (h : Reaches (wireNext seed) (fun w e => e.Asks seed P w) (wireStart rows) w) :
    Connected w ∧ ∃ events t, Follows seed P rows w events t := by
  refine h.invariant (fun w => Connected w ∧ ∃ events t, Follows seed P rows w events t) ?_ ?_
  · refine ⟨⟨fun _ => (rests_of_reaches Reaches.start).1, fun id b hb => ?_, fun _ _ => rfl⟩, [], serverStart rows,
      rfl, rfl, fun _ => rfl, fun e he => absurd he List.not_mem_nil⟩
    cases hb
  · intro w e w' hI he hs
    obtain ⟨hw, events, t, hfollows⟩ := hI
    exact follows_step hw hfollows he hs

theorem connected_of_reaches {seed : UInt32} {rows : List UserRow} {ok : Wire → WireEvent → Prop} {w : Wire}
    (h : Reaches (wireNext seed) ok (wireStart rows) w) :
    Connected w ∧ ∃ events t, Follows seed (fun _ _ _ => True) rows w events t :=
  follows_of_reaches <| h.mono fun _ e _ => by
    cases e with
    | connect type => trivial
    | read id data env => exact fun _ _ _ _ _ => trivial
    | free id => trivial

/-- **A run over bytes is a run over commands**: whatever the clients send, the accounts, the sessions and who is
    closed are those after some commands, each client's being what its requests say, in their order; and no read
    stops the server. -/
theorem wire_refines (seed : UInt32) (rows : List UserRow) {ok : Wire → WireEvent → Prop} {w : Wire}
    (h : Reaches (wireNext seed) ok (wireStart rows) w) :
    (∃ events t, runEvents chatNext (serverStart rows) events = some t ∧ t.hush = w.server.hush ∧
      ∀ id, events.filterMap (Event.commandBy id) = (w.readers id).served.filterMap (commandOf seed)) ∧
      ∀ id c data env, w.server.client? id = some c → ∃ w', wireNext seed w (.read id data env) = some w' := by
  obtain ⟨hw, events, t, hfollows⟩ := connected_of_reaches h
  refine ⟨⟨events, t, hfollows.run, hfollows.alike, hfollows.commands⟩, fun id c data env hc => ?_⟩
  rcases read_follows seed hw hfollows.alike hc env data (P := fun _ _ _ => True) fun _ _ _ _ _ => trivial with
    hr | ⟨q, actions, hr, -⟩
  · exact ⟨_, by rw [wireNext, hc, Option.bind_some, hr]⟩
  · exact ⟨_, by rw [wireNext, hc, Option.bind_some, hr]⟩

/-- `chat login`, with its first byte alone, and QUIT of another client in between. -/
def loginInPieces : List WireEvent :=
  let env : Env := ⟨fun name password => name == bytes "alice" && password == bytes "x", fun _ => false, fun _ => false,
    fun _ => false, [], id, id⟩
  [.connect 0, .connect 0, .read 0 (chars "C") fun _ => env, .read 1 (chars "quit\r\nnode\r\n") fun _ => env,
    .read 0 (chars "HAT login alice x\r\n") fun _ => env]

theorem wire_refines_login : ∃ w, runEvents (wireNext 5381) (wireStart []) loginInPieces = some w ∧
    ∃ events t, runEvents chatNext (serverStart []) events = some t ∧ t.hush = w.server.hush ∧
      events.filterMap (Event.commandBy 0) = [.chat (bytes "login") (bytes "alice") (bytes "x")] := by
  have hrun : (runEvents (wireNext 5381) (wireStart []) loginInPieces).map
        (fun w => (w.readers 0).served.filterMap (commandOf 5381)) =
      some [.chat (bytes "login") (bytes "alice") (bytes "x")] := by decide +kernel
  obtain ⟨w, hw, hserved⟩ := Option.map_eq_some_iff.1 hrun
  have hreach : Reaches (wireNext 5381) (fun _ _ => True) (wireStart []) w :=
    Reaches.start.runEvents (fun _ _ _ => trivial) hw
  obtain ⟨⟨events, t, ht, hhush, hcommands⟩, -⟩ := wire_refines 5381 [] hreach
  exact ⟨w, hw, events, t, ht, hhush, (hcommands 0).trans hserved⟩

end SmartHome.Chat
