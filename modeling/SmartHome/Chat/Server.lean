/-
  Subject:   THE CHAT SERVER (mychat.c, myregister.c, mydebug.c, and of networking.c the life of a client).

  The server runs one command at a time, of any of its clients. A client is a connection; `chat login`
  makes it a USER of an account, `node login` a NODE of one. Whoever logs in or leaves is announced,
  and `chat say` and `node say` send a line to every client of a type and a name. The database answers
  whatever it answers (`Env`); a client may be freed at any time, as timeouts and broken connections do.

  * `Session`, `Client`, `Server` -- the fields of `redisClient` the chat reads and writes; that
    clients are told apart is part of the type of the server;
  * `chatSend`, `chatLogin`, `nodeLogin`, `nodeSay`, `chatCommand`, `registerCommand`, `freeClient`, …
    -- the source, function by function;
  * `Event`, `chatNext` -- everything that can happen.
-/
import SmartHome.Lib.Loop
import SmartHome.Chat.Directory

namespace SmartHome.Chat

open SmartHome.Lib

/-! ## 1. Clients -/

/-- `MYNODE_TYPE_USER`. -/
def typeUser : UInt8 := 0

/-- `MYNODE_TYPE_NODE`. -/
def typeNode : UInt8 := 1

/-- A call of `addReplyString`: the text in the buffer and the length it is given. -/
structure Reply where
  text : Bytes
  len : Nat
  deriving DecidableEq, Repr

/-- A text with its `strlen`. -/
def reply (text : Bytes) : Reply := ⟨text, text.length⟩

/-- Who a client is. -/
structure Session where
  userid : Bytes
  username : Bytes
  password : Bytes
  nodename : Bytes
  isvaliduser : Bool
  isvalidnode : Bool
  mynodeType : UInt8
  deriving DecidableEq, Repr

/-- A client: its session, whether it is closed after the reply, and what was queued for it so far.
    The identity stands for its address. -/
structure Client extends Session where
  id : Nat
  closing : Bool
  out : List Reply
  deriving DecidableEq, Repr

/-- `addReplyString`: nothing is queued for a client that is closed after the reply. -/
def Client.addReplyString (c : Client) (r : Reply) : Client :=
  if c.closing then c else { c with out := c.out ++ [r] }

theorem Client.addReplyString_id (c : Client) (r : Reply) : (c.addReplyString r).id = c.id := by
  unfold Client.addReplyString
  split <;> rfl

theorem Client.addReplyString_session (c : Client) (r : Reply) :
    (c.addReplyString r).toSession = c.toSession := by
  unfold Client.addReplyString
  split <;> rfl

/-! ## 2. The server -/

/-- The directory and `server.clients`. Clients are told apart by their identities. -/
structure Server where
  dir : Directory
  clients : List Client
  nextId : Nat
  distinct : (clients.map Client.id).Nodup
  fresh : ∀ c ∈ clients, c.id < nextId

/-- The server after the start, before any client. -/
def serverStart (rows : List UserRow) : Server :=
  ⟨doMysqlDumpRedis rows, [], 0, List.nodup_nil, fun _ h => absurd h List.not_mem_nil⟩

/-- The client of an identity. -/
def Server.client? (s : Server) (id : Nat) : Option Client := s.clients.find? fun c => c.id == id

/-- A change to the clients that keeps who is there. -/
def Server.withClients (s : Server) (cs : List Client) (h : cs.map Client.id = s.clients.map Client.id) :
    Server where
  dir := s.dir
  clients := cs
  nextId := s.nextId
  distinct := by
    rw [h]
    exact s.distinct
  fresh c hc := by
    have hid : c.id ∈ s.clients.map Client.id := by
      rw [← h]
      exact List.mem_map_of_mem hc
    obtain ⟨c', hc', he⟩ := List.mem_map.mp hid
    rw [← he]
    exact s.fresh c' hc'

/-- The server with another directory. -/
def Server.withDir (s : Server) (d : Directory) : Server := { s with dir := d }

/-- `addReplyString` on one client. -/
def Server.addReplyString (s : Server) (id : Nat) (r : Reply) : Server :=
  s.withClients (modifyFirst (fun c => c.id == id) (fun c => c.addReplyString r) s.clients)
    (map_modifyFirst fun c _ => c.addReplyString_id r)

/-- Several of them. -/
def Server.addReplies (s : Server) (id : Nat) (rs : List Reply) : Server :=
  rs.foldl (fun s r => s.addReplyString id r) s

/-- A change to one session. -/
def Server.setSession (s : Server) (id : Nat) (f : Session → Session) : Server :=
  s.withClients (modifyFirst (fun c => c.id == id) (fun c => { c with toSession := f c.toSession }) s.clients)
    (map_modifyFirst (f := fun c : Client => { c with toSession := f c.toSession }) fun _ _ => rfl)

/-- `REDIS_CLOSE_AFTER_REPLY`. -/
def Server.closeAfterReply (s : Server) (id : Nat) : Server :=
  s.withClients (modifyFirst (fun c => c.id == id) (fun c => { c with closing := true }) s.clients)
    (map_modifyFirst (f := fun c : Client => { c with closing := true }) fun _ _ => rfl)

/-- The session of a new client: `mynode_type` is whatever the memory holds. -/
def Session.new (type : UInt8) : Session := ⟨[], [], [], [], false, false, type⟩

/-- `createClient`. -/
def Server.createClient (s : Server) (type : UInt8) : Server where
  dir := s.dir
  clients := s.clients ++ [⟨Session.new type, s.nextId, false, []⟩]
  nextId := s.nextId + 1
  distinct := by
    rw [List.map_append]
    refine List.nodup_append.mpr ⟨s.distinct, List.pairwise_singleton _ _, fun a ha b hb hab => ?_⟩
    have hnew : b = s.nextId := List.mem_singleton.mp hb
    obtain ⟨c, hc, rfl⟩ := List.mem_map.mp ha
    have hlt := s.fresh c hc
    omega
  fresh c hc := by
    rcases List.mem_append.mp hc with hc | hc
    · exact Nat.lt_succ_of_lt (s.fresh c hc)
    · rw [List.mem_singleton.mp hc]
      exact Nat.lt_succ_self _

/-- The client is taken off the list. -/
def Server.removeClient (s : Server) (id : Nat) : Server where
  dir := s.dir
  clients := s.clients.eraseP fun c => c.id == id
  nextId := s.nextId
  distinct := (List.eraseP_sublist.map Client.id).nodup s.distinct
  fresh c hc := s.fresh c (List.mem_of_mem_eraseP hc)

/-! ## 3. mychat.c: sending -/

/-- Whom `_chatSend` sends to. -/
def Client.receives (c : Client) (dest : Bytes) (toType : UInt8) : Bool :=
  c.mynodeType == toType &&
    (if toType == typeNode then dest == bytes "all" || c.nodename == dest
     else if toType == typeUser then dest == bytes "all" || c.username == dest
     else true)

/-- `snprintf(sbuf, 1024, "%s ok %s %s\r\n", …)`: the text is cut to 1023 bytes, the length returned is
    that of the whole. -/
def chatLine (tag source message : Bytes) : Reply :=
  let line := tag ++ bytes " ok " ++ source ++ bytes " " ++ message ++ bytes "\r\n"
  ⟨line.take 1023, line.length⟩

/-- What `_chatSend` does to a client. -/
def Client.sendTo (c : Client) (dest : Bytes) (toType : UInt8) (r : Reply) : Client :=
  if c.receives dest toType then c.addReplyString r else c

theorem Client.sendTo_id (c : Client) (dest : Bytes) (toType : UInt8) (r : Reply) :
    (c.sendTo dest toType r).id = c.id := by
  unfold Client.sendTo
  split
  · exact c.addReplyString_id r
  · rfl

theorem Client.sendTo_session (c : Client) (dest : Bytes) (toType : UInt8) (r : Reply) :
    (c.sendTo dest toType r).toSession = c.toSession := by
  unfold Client.sendTo
  split
  · exact c.addReplyString_session r
  · rfl

/-- `_chatSend`. -/
def Server.chatSend (s : Server) (tag source dest message : Bytes) (toType : UInt8) : Server :=
  s.withClients (s.clients.map fun c => c.sendTo dest toType (chatLine tag source message)) (by
    rw [List.map_map]
    exact List.map_congr_left fun c _ => c.sendTo_id dest toType _)

def errChatInvalidUser : Reply := reply (bytes "chat fail invalidUser\r\n")
def errChatTooBigMsg : Reply := reply (bytes "chat fail tooBigMessage\r\n")
def errWrongNameOrPwd : Reply := reply (bytes "login fail wrongNameOrPasswd\r\n")
def errAlreadyLogin : Reply := reply (bytes "login fail alreadyLogin\r\n")
def errTooManyNodes : Reply := reply (bytes "login fail tooManyNode\r\n")
def errNodeNoLogin : Reply := reply (bytes "node fail nologin\r\n")

/-- `chatNotifyUserInfo`: a USER or NODE that leaves is announced and its line set to off. -/
def Server.chatNotifyUserInfo (s : Server) (c : Client) : Server :=
  if !c.isvaliduser || !c.isvalidnode then s
  else if c.mynodeType == typeUser then
    let s := s.chatSend (bytes "userinfo") c.username (bytes "all") (bytes "off") typeUser
    s.withDir (s.dir.setUserInfo c.username .off)
  else if c.mynodeType == typeNode then
    let s := s.chatSend (bytes "nodeinfo") c.nodename c.username (bytes "off") typeUser
    s.withDir (s.dir.setNodeInfo c.username c.nodename .off)
  else s

/-- `freeClient`. The fields it clears are not seen again: the client leaves the list. -/
def Server.freeClient (s : Server) (c : Client) : Server := (s.chatNotifyUserInfo c).removeClient c.id

/-- `chatSay`; `MYCHAT_MAX_MESSAGE` is 70. -/
def Server.chatSay (s : Server) (c : Client) (dest message : Bytes) : Server :=
  if !c.isvaliduser then s.addReplyString c.id errChatInvalidUser
  else if message.length > 70 then s.addReplyString c.id errChatTooBigMsg
  else s.chatSend (bytes "chat") c.username dest message typeUser

/-! ## 4. mychat.c: logging in -/

/-- What is outside the program: the answers of the database, the random number and its hash, and the
    order in which the dictionary is walked. -/
structure Env where
  isValidUser : Bytes → Bytes → Bool
  emailIsExist : Bytes → Bool
  useridIsExist : Bytes → Bool
  usernameIsExist : Bytes → Bool
  myrandom : Bytes
  mymd5 : Bytes → Bytes
  dictOrder : List NodeUserInfo → List NodeUserInfo

/-- Both flags cleared. -/
def Session.refuse (x : Session) : Session := { x with isvaliduser := false, isvalidnode := false }

/-- Both flags and the type set. -/
def Session.grant (type : UInt8) (x : Session) : Session :=
  { x with isvaliduser := true, isvalidnode := true, mynodeType := type }

/-- The names of a USER. -/
def Session.nameUser (username password : Bytes) (x : Session) : Session :=
  { x with username := username, password := password }

/-- The names of a NODE. -/
def Session.nameNode (username userid nodename : Bytes) (x : Session) : Session :=
  { x with username := username, userid := userid, nodename := nodename }

/-- `chatUserInfo`. -/
def Server.chatUserInfo (s : Server) (id : Nat) : Server :=
  s.addReplies id (s.dir.userInfo.map fun u =>
    reply (bytes "userinfo ok " ++ u.name ++ bytes " " ++ u.line.text ++ bytes "\r\n"))

/-- `getAllNodeInfo`. -/
def Server.getAllNodeInfo (s : Server) (id : Nat) (username : Bytes) : Server :=
  match s.dir.dictFetchValue username with
  | none => s
  | some u => s.addReplies id (u.nodes.map fun n =>
    reply (bytes "nodeinfo ok " ++ n.name ++ bytes " " ++ n.line.text ++ bytes "\r\n"))

/-- `chatLogin`. -/
def Server.chatLogin (s : Server) (c : Client) (name password : Bytes) (env : Env) : Server :=
  if c.isvaliduser || c.isvalidnode then s.addReplyString c.id errAlreadyLogin
  else if !env.isValidUser name password then
    (s.addReplyString c.id errWrongNameOrPwd).setSession c.id Session.refuse
  else if s.dir.getUserInfo name = some .on then
    (s.addReplyString c.id errAlreadyLogin).setSession c.id Session.refuse
  else
    let s := s.setSession c.id (Session.grant typeUser)
    let s := s.withDir (s.dir.setUserInfo name .on)
    let s := s.chatSend (bytes "userinfo") name (bytes "all") (bytes "on") typeUser
    let s := s.setSession c.id (Session.nameUser name password)
    -- `printf` writes a null pointer as "(null)"
    let userid := (s.dir.getUseridByName name).getD (bytes "(null)")
    let s := s.addReplyString c.id (reply (bytes "login ok " ++ userid ++ bytes "\r\n"))
    let s := s.getAllNodeInfo c.id name
    s.chatUserInfo c.id

/-- The end of `nodeLogin`, when nothing was refused: the client is a NODE. -/
def Server.admitNode (s : Server) (c : Client) (username userid nodename : Bytes) : Server :=
  let s := s.addReplyString c.id (reply (bytes "login ok " ++ username ++ bytes "\r\n"))
  let s := s.setSession c.id (Session.grant typeNode)
  let s := s.setSession c.id (Session.nameNode username userid nodename)
  let s := s.chatSend (bytes "nodeinfo") nodename username (bytes "on") typeUser
  s.withDir (s.dir.setNodeInfo username nodename .on)

/-- `nodeLogin`. The state it tests is that of the names the client has, not of those it asks for. -/
def Server.nodeLogin (s : Server) (c : Client) (userid nodename : Bytes) : Server :=
  if c.isvaliduser || c.isvalidnode then s.addReplyString c.id errAlreadyLogin
  else
    match s.dir.getNameByUserid userid with
    | none => (s.addReplyString c.id errWrongNameOrPwd).setSession c.id Session.refuse
    | some username =>
      if s.dir.getNodeInfo c.username c.nodename = some .on then
        (s.addReplyString c.id errAlreadyLogin).setSession c.id Session.refuse
      else
        let inserted := s.dir.insertNodeToUserInfo username nodename
        if inserted.1 = -1 then (s.addReplyString c.id errTooManyNodes).setSession c.id Session.refuse
        else (s.withDir inserted.2).admitNode c username userid nodename

/-- `nodeSay`: a USER speaks to the nodes of a name, a NODE to the users of its account. -/
def Server.nodeSay (s : Server) (c : Client) (dest message : Bytes) : Server :=
  if c.mynodeType == typeUser then s.chatSend (bytes "node") c.username dest message typeNode
  else if c.mynodeType == typeNode then s.chatSend (bytes "node") c.nodename c.username message typeUser
  else s

/-! ## 5. mydebug.c and myregister.c -/

/-- `%-ns`. -/
def padRight (n : Nat) (text : Bytes) : Bytes := text ++ List.replicate (n - text.length) 0x20

/-- `dumpClients`: rotating the list shows the last client first and ends where it began. -/
def Server.dumpClients (s : Server) (id : Nat) : Server :=
  s.addReplies id
    (reply (bytes " total " ++ padRight 6 (bytes (toString s.clients.length)) ++ bytes " client on line\r\n") ::
      s.clients.reverse.map fun c =>
        reply (bytes "type:" ++ padRight 5 (bytes (toString c.mynodeType.toNat)) ++ bytes "  name :" ++
          padRight 15 c.username ++ bytes " id:" ++ padRight 40 c.userid ++ bytes " nodename:" ++
          padRight 15 c.nodename ++ bytes " \r\n"))

/-- `dumpAlluser`. -/
def Server.dumpAlluser (s : Server) (id : Nat) (env : Env) : Server :=
  s.addReplies id ((env.dictOrder s.dir.userInfo).flatMap fun u =>
    reply (bytes "username : " ++ padRight 25 u.name ++ bytes " and userid : " ++ padRight 25 u.userid ++
        bytes "\r\n ") ::
      u.nodes.map fun n =>
        reply (bytes "-----nodename : " ++ padRight 20 n.name ++ bytes "  line :" ++ padRight 5 n.line.text ++
          bytes "\r\n"))

/-- `myDebugEntry`; `MY_REDIS_ROOT_NAME` is "root". -/
def Server.myDebugEntry (s : Server) (c : Client) (env : Env) : Server :=
  if c.username ≠ bytes "root" then s else (s.dumpClients c.id).dumpAlluser c.id env

/-- `myAddUser`. -/
def Server.myAddUser (s : Server) (c : Client) (userid username : Bytes) : Server :=
  if c.username ≠ bytes "root" then s else s.withDir (s.dir.insertUserInfo userid username)

def errRegisterInvalidEmail : Reply := reply (bytes "register fail  invalidEmail\r\n")
def errRegisterEmailIsExist : Reply := reply (bytes "register fail  emailIsExist\r\n")
def errRegisterUsernameIsExist : Reply := reply (bytes "register fail  usernameIsExist\r\n")
def errRegisterInvalidUserid : Reply := reply (bytes "register fail  invalidUserid\r\n")
def okRegister : Reply := reply (bytes "register ok\r\n")

/-- `registerCommand` with "getuserid". -/
def Server.registerGetuserid (s : Server) (c : Client) (email : Bytes) (env : Env) : Server :=
  if !email.contains 0x40 then s.addReplyString c.id errRegisterInvalidEmail
  else if env.emailIsExist email then s.addReplyString c.id errRegisterEmailIsExist
  else s.addReplyString c.id (reply (bytes "register ok   " ++ env.mymd5 (email ++ env.myrandom) ++ bytes "  " ++
    env.myrandom ++ bytes "\r\n"))

/-- `registerCommand` with "adduser". -/
def Server.registerAdduser (s : Server) (c : Client) (username userid : Bytes) (env : Env) : Server :=
  if !env.useridIsExist userid then s.addReplyString c.id errRegisterInvalidUserid
  else if env.usernameIsExist username then s.addReplyString c.id errRegisterUsernameIsExist
  else
    let s := s.addReplyString c.id okRegister
    s.withDir (s.dir.insertUserInfo userid username)

/-! ## 6. Commands and events -/

/-- `argv[1]`, `argv[2]`, …: C strings. -/
inductive Command where
  | chat (argv1 argv2 argv3 : Bytes)
  | node (argv1 argv2 argv3 : Bytes)
  | register (argv1 argv2 argv3 argv4 argv5 : Bytes)
  deriving DecidableEq

/-- `chatCommand`; a heartbeat only sets the time of the last interaction. -/
def Server.chatCommand (s : Server) (c : Client) (argv1 argv2 argv3 : Bytes) (env : Env) : Server :=
  if argv1 = bytes "login" then s.chatLogin c argv2 argv3 env
  else if !c.isvaliduser then s.addReplyString c.id errNodeNoLogin
  else if argv1 = bytes "say" then s.chatSay c argv2 argv3
  else if argv1 = bytes "userinfo" then s.chatUserInfo c.id
  else if argv1 = bytes "heartbeat" then s
  else if argv1 = bytes "debug" then s.myDebugEntry c env
  else if argv1 = bytes "adduser" then s.myAddUser c argv2 argv3
  else s

/-- `nodeCommand`. -/
def Server.nodeCommand (s : Server) (c : Client) (argv1 argv2 argv3 : Bytes) : Server :=
  if argv1 = bytes "login" then s.nodeLogin c argv2 argv3
  else if !c.isvalidnode then s.addReplyString c.id errNodeNoLogin
  else if argv1 = bytes "say" then s.nodeSay c argv2 argv3
  else s

/-- `registerCommand`: name, password, userid and email; the password only goes to the database. -/
def Server.registerCommand (s : Server) (c : Client) (argv1 argv2 argv4 : Bytes) (env : Env) : Server :=
  if argv1 = bytes "getuserid" then s.registerGetuserid c argv2 env
  else if argv1 = bytes "adduser" then s.registerAdduser c argv2 argv4 env
  else s

/-- A command. -/
def Server.exec (s : Server) (c : Client) (env : Env) : Command → Server
  | .chat argv1 argv2 argv3 => s.chatCommand c argv1 argv2 argv3 env
  | .node argv1 argv2 argv3 => s.nodeCommand c argv1 argv2 argv3
  | .register argv1 argv2 _ argv4 _ => s.registerCommand c argv1 argv2 argv4 env

/-- What can happen: a connection, a command, a last reply (QUIT, a protocol error), the end of a
    connection. -/
inductive Event where
  | connect (type : UInt8)
  | command (id : Nat) (cmd : Command) (env : Env)
  | quit (id : Nat) (last : Reply)
  | free (id : Nat)

/-- One event; `none` if it cannot happen. A client that is closed after the reply is not read from. -/
def chatNext (s : Server) : Event → Option Server
  | .connect type => some (s.createClient type)
  | .command id cmd env =>
    (s.client? id).bind fun c => if c.closing then none else some (s.exec c env cmd)
  | .quit id last =>
    (s.client? id).bind fun c =>
      if c.closing then none else some ((s.addReplyString id last).closeAfterReply id)
  | .free id => (s.client? id).map fun c => s.freeClient c

/-- A command of a client that is read from. -/
theorem chatNext_command {s : Server} {id : Nat} {c : Client} (hc : s.client? id = some c)
    (hopen : c.closing = false) (cmd : Command) (env : Env) :
    chatNext s (.command id cmd env) = some (s.exec c env cmd) := by
  simp [chatNext, hc, hopen]

section Exec

variable (s : Server) (c : Client) (env : Env)

theorem exec_chatLogin (name password : Bytes) :
    s.exec c env (.chat (bytes "login") name password) = s.chatLogin c name password env := by
  show s.chatCommand c (bytes "login") name password env = _
  unfold Server.chatCommand
  rw [if_pos rfl]

theorem exec_nodeLogin (userid nodename : Bytes) :
    s.exec c env (.node (bytes "login") userid nodename) = s.nodeLogin c userid nodename := by
  show s.nodeCommand c (bytes "login") userid nodename = _
  unfold Server.nodeCommand
  rw [if_pos rfl]

theorem exec_nodeSay (hin : c.isvalidnode = true) (dest message : Bytes) :
    s.exec c env (.node (bytes "say") dest message) = s.nodeSay c dest message := by
  show s.nodeCommand c (bytes "say") dest message = _
  have hlogin : bytes "say" ≠ bytes "login" := by decide
  unfold Server.nodeCommand
  rw [if_neg hlogin, hin, if_neg (by decide), if_pos rfl]

end Exec

end SmartHome.Chat
