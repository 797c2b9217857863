/-
  Subject:   WHAT A STEP SENDS TO THE OTHERS.

  A step of one client queues replies for that client, and calls `_chatSend` at most once. Whatever
  another client gets, it gets from that call. So for everybody but the client whose step it is, a step
  is the line it sends, and that line is decided by the state before it.

  * `Send`, `Client.hear` -- one call of `_chatSend`, and what it does to a client;
  * `Server.admitsUser`, `Server.admitsNode` -- the tests of the two logins;
  * `Does`, `exec_does` -- everything a command can come to, said once;
  * `Server.sends` -- the call an event makes, if any;
  * **`others_hear`** -- a client whose step it is not is as before, but for that line.
-/
import SmartHome.Chat.Server

namespace SmartHome.Chat

open SmartHome.Lib

/-! ## 1. One call of `_chatSend` -/

/-- The arguments of `_chatSend`. -/
structure Send where
  tag : Bytes
  source : Bytes
  dest : Bytes
  message : Bytes
  toType : UInt8
  deriving DecidableEq

/-- A client after the call. -/
def Client.hear (d : Client) (x : Send) : Client :=
  d.sendTo x.dest x.toType (chatLine x.tag x.source x.message)

/-- A client after at most one call. -/
def Client.hear? (d : Client) : Option Send → Client
  | none => d
  | some x => d.hear x

/-- The server after the call. -/
def Server.send (s : Server) (x : Send) : Server := s.chatSend x.tag x.source x.dest x.message x.toType

theorem client?_id {s : Server} {id : Nat} {c : Client} (h : s.client? id = some c) : c.id = id :=
  beq_iff_eq.mp (List.find?_some (p := fun c : Client => c.id == id) h)

/-- The clients after a line was sent. -/
theorem client?_chatSend (s : Server) (tag source dest message : Bytes) (toType : UInt8) (i : Nat) :
    (s.chatSend tag source dest message toType).client? i =
      (s.client? i).map fun d => d.sendTo dest toType (chatLine tag source message) := by
  unfold Server.client? Server.chatSend Server.withClients
  rw [List.find?_map]
  congr 2
  funext d
  simp only [Function.comp_apply, Client.sendTo_id]

/-! ## 2. The tests of the two logins -/

/-- `chatLogin` gets past its tests. -/
def Server.admitsUser (s : Server) (c : Client) (name password : Bytes) (env : Env) : Bool :=
  !(c.isvaliduser || c.isvalidnode) && env.isValidUser name password &&
    decide (s.dir.getUserInfo name ≠ some .on)

/-- `nodeLogin` gets past its tests, for this account. -/
def Server.admitsNode (s : Server) (c : Client) (userid nodename : Bytes) : Option Bytes :=
  if c.isvaliduser || c.isvalidnode then none
  else
    match s.dir.getNameByUserid userid with
    | none => none
    | some username =>
      if s.dir.getNodeInfo c.username c.nodename = some .on then none
      else if (s.dir.insertNodeToUserInfo username nodename).1 = -1 then none
      else some username

/-- What a login is answered that does not get past them. -/
def loginErrors : List Reply := [errAlreadyLogin, errWrongNameOrPwd, errTooManyNodes]

/-- A login that does not get past them: one reply, and the flags of a client that has none are
    cleared. -/
inductive Refused (s : Server) (c : Client) : Server → Prop where
  | again (r : Reply) (hr : r ∈ loginErrors) : Refused s c (s.addReplyString c.id r)
  | fail (r : Reply) (hr : r ∈ loginErrors) (hfree : (c.isvaliduser || c.isvalidnode) = false) :
      Refused s c ((s.addReplyString c.id r).setSession c.id Session.refuse)

/-- What `chatLogin` does when nothing is refused. -/
def Server.admitUser (s : Server) (c : Client) (name password : Bytes) : Server :=
  let s := s.setSession c.id (Session.grant typeUser)
  let s := s.withDir (s.dir.setUserInfo name .on)
  let s := s.chatSend (bytes "userinfo") name (bytes "all") (bytes "on") typeUser
  let s := s.setSession c.id (Session.nameUser name password)
  let userid := (s.dir.getUseridByName name).getD (bytes "(null)")
  let s := s.addReplyString c.id (reply (bytes "login ok " ++ userid ++ bytes "\r\n"))
  let s := s.getAllNodeInfo c.id name
  s.chatUserInfo c.id

section Logins

variable {s : Server} {c : Client}

theorem admitsUser_iff {name password : Bytes} {env : Env} :
    s.admitsUser c name password env = true ↔
      (c.isvaliduser || c.isvalidnode) = false ∧ env.isValidUser name password = true ∧
        s.dir.getUserInfo name ≠ some .on := by
  unfold Server.admitsUser
  rw [Bool.and_eq_true, Bool.and_eq_true, Bool.not_eq_true', decide_eq_true_iff, and_assoc]

theorem chatLogin_admitted {name password : Bytes} {env : Env} (h : s.admitsUser c name password env = true) :
    s.chatLogin c name password env = s.admitUser c name password := by
  obtain ⟨hfree, hvalid, hoff⟩ := admitsUser_iff.mp h
  unfold Server.chatLogin
  rw [if_neg (by simp [hfree]), if_neg (by simp [hvalid]), if_neg hoff]
  rfl

theorem chatLogin_refused {name password : Bytes} {env : Env} (h : s.admitsUser c name password env = false) :
    Refused s c (s.chatLogin c name password env) := by
  cases hfree : c.isvaliduser || c.isvalidnode with
  | true =>
    unfold Server.chatLogin
    rw [if_pos hfree]
    exact .again _ (by decide)
  | false =>
    unfold Server.chatLogin
    rw [if_neg (by simp [hfree])]
    cases hvalid : env.isValidUser name password with
    | false => exact .fail _ (by decide) hfree
    | true =>
      have hon : s.dir.getUserInfo name = some .on := by
        by_contra hoff
        exact absurd (admitsUser_iff.mpr ⟨hfree, hvalid, hoff⟩) (by simp [h])
      rw [if_neg (by simp), if_pos hon]
      exact .fail _ (by decide) hfree

variable {userid nodename username : Bytes}

theorem admitsNode_iff :
    s.admitsNode c userid nodename = some username ↔
      (c.isvaliduser || c.isvalidnode) = false ∧ s.dir.getNameByUserid userid = some username ∧
        ¬ s.dir.IsOn c.username c.nodename ∧ (s.dir.insertNodeToUserInfo username nodename).1 ≠ -1 := by
  unfold Server.admitsNode Directory.IsOn
  cases hfree : c.isvaliduser || c.isvalidnode with
  | true => simp
  | false =>
    cases hname : s.dir.getNameByUserid userid with
    | none => simp
    | some name =>
      simp only [Bool.false_eq_true, if_false, Option.ite_none_left_eq_some, Option.some.injEq, true_and]
      constructor
      · rintro ⟨htest, hret, rfl⟩
        exact ⟨rfl, htest, hret⟩
      · rintro ⟨rfl, htest, hret⟩
        exact ⟨htest, hret, rfl⟩

theorem nodeLogin_admitted (h : s.admitsNode c userid nodename = some username) :
    s.nodeLogin c userid nodename =
      (s.withDir (s.dir.insertNodeToUserInfo username nodename).2).admitNode c username userid nodename := by
  obtain ⟨hfree, hname, htest, hret⟩ := admitsNode_iff.mp h
  unfold Directory.IsOn at htest
  unfold Server.nodeLogin
  simp [hfree, hname, htest, hret]

theorem nodeLogin_again (h : (c.isvaliduser || c.isvalidnode) = true) :
    s.nodeLogin c userid nodename = s.addReplyString c.id errAlreadyLogin := if_pos h

theorem nodeLogin_on (hfree : (c.isvaliduser || c.isvalidnode) = false)
    (hname : s.dir.getNameByUserid userid = some username) (htest : s.dir.IsOn c.username c.nodename) :
    s.nodeLogin c userid nodename = (s.addReplyString c.id errAlreadyLogin).setSession c.id Session.refuse := by
  unfold Directory.IsOn at htest
  simp [Server.nodeLogin, hfree, hname, htest]

theorem nodeLogin_refused (h : s.admitsNode c userid nodename = none) :
    Refused s c (s.nodeLogin c userid nodename) := by
  unfold Server.nodeLogin
  cases hfree : c.isvaliduser || c.isvalidnode with
  | true => exact .again _ (by decide)
  | false =>
    rw [if_neg Bool.false_ne_true]
    cases hname : s.dir.getNameByUserid userid with
    | none => exact .fail _ (by decide) hfree
    | some username =>
      by_cases htest : s.dir.getNodeInfo c.username c.nodename = some .on
      · simp only [if_pos htest]
        exact .fail _ (by decide) hfree
      · by_cases hret : (s.dir.insertNodeToUserInfo username nodename).1 = -1
        · simp only [if_neg htest, if_pos hret]
          exact .fail _ (by decide) hfree
        · exact absurd (admitsNode_iff.mpr ⟨hfree, hname, htest, hret⟩) (by simp [h])

end Logins

/-! ## 3. The call an event makes -/

/-- The line of `chat login`. -/
def Server.userSend (s : Server) (c : Client) (name password : Bytes) (env : Env) : Option Send :=
  if s.admitsUser c name password env then some ⟨bytes "userinfo", name, bytes "all", bytes "on", typeUser⟩
  else none

/-- The line of `node login`. -/
def Server.nodeSend (s : Server) (c : Client) (userid nodename : Bytes) : Option Send :=
  (s.admitsNode c userid nodename).map fun username =>
    ⟨bytes "nodeinfo", nodename, username, bytes "on", typeUser⟩

/-- The line of `chat say`. -/
def Session.chatSend (x : Session) (dest message : Bytes) : Option Send :=
  if !x.isvaliduser then none
  else if message.length > 70 then none
  else some ⟨bytes "chat", x.username, dest, message, typeUser⟩

/-- The line of `node say`. -/
def Session.saySend (x : Session) (dest message : Bytes) : Option Send :=
  if x.mynodeType == typeUser then some ⟨bytes "node", x.username, dest, message, typeNode⟩
  else if x.mynodeType == typeNode then some ⟨bytes "node", x.nodename, x.username, message, typeUser⟩
  else none

/-- The line of a client that leaves. -/
def Session.leaveSend (x : Session) : Option Send :=
  if !x.isvaliduser || !x.isvalidnode then none
  else if x.mynodeType == typeUser then some ⟨bytes "userinfo", x.username, bytes "all", bytes "off", typeUser⟩
  else if x.mynodeType == typeNode then some ⟨bytes "nodeinfo", x.nodename, x.username, bytes "off", typeUser⟩
  else none

/-- The line of a command. -/
def Server.commandSend (s : Server) (c : Client) (env : Env) : Command → Option Send
  | .chat argv1 argv2 argv3 =>
    if argv1 = bytes "login" then s.userSend c argv2 argv3 env
    else if !c.isvaliduser then none
    else if argv1 = bytes "say" then c.chatSend argv2 argv3
    else none
  | .node argv1 argv2 argv3 =>
    if argv1 = bytes "login" then s.nodeSend c argv2 argv3
    else if !c.isvalidnode then none
    else if argv1 = bytes "say" then c.saySend argv2 argv3
    else none
  | .register _ _ _ _ _ => none

/-- The error lines of `register`. -/
def registerErrors : List Reply :=
  [errRegisterInvalidEmail, errRegisterEmailIsExist, errRegisterUsernameIsExist, errRegisterInvalidUserid]

/-- **What a command comes to**: the line it sends to the others and the state it leaves, by the function it calls. -/
inductive Does (s : Server) (c : Client) (env : Env) : Command → Option Send → Server → Prop where
  | chatLogin (name password : Bytes) :
      Does s c env (.chat (bytes "login") name password) (s.userSend c name password env)
        (s.chatLogin c name password env)
  | chatNologin (argv1 argv2 argv3 : Bytes) (hlogin : argv1 ≠ bytes "login") (hout : c.isvaliduser = false) :
      Does s c env (.chat argv1 argv2 argv3) none (s.addReplyString c.id errNodeNoLogin)
  | chatSay (dest message : Bytes) (hin : c.isvaliduser = true) :
      Does s c env (.chat (bytes "say") dest message) (c.chatSend dest message) (s.chatSay c dest message)
  | chatUserInfo (argv2 argv3 : Bytes) (hin : c.isvaliduser = true) :
      Does s c env (.chat (bytes "userinfo") argv2 argv3) none (s.chatUserInfo c.id)
  | chatDebug (argv2 argv3 : Bytes) (hin : c.isvaliduser = true) :
      Does s c env (.chat (bytes "debug") argv2 argv3) none (s.myDebugEntry c env)
  | chatAdduser (userid username : Bytes) (hin : c.isvaliduser = true) :
      Does s c env (.chat (bytes "adduser") userid username) none (s.myAddUser c userid username)
  | chatOther (argv1 argv2 argv3 : Bytes) (hin : c.isvaliduser = true)
      (hother : argv1 ∉ [bytes "login", bytes "say", bytes "userinfo", bytes "debug", bytes "adduser"]) :
      Does s c env (.chat argv1 argv2 argv3) none s
  | nodeLogin (userid nodename : Bytes) :
      Does s c env (.node (bytes "login") userid nodename) (s.nodeSend c userid nodename)
        (s.nodeLogin c userid nodename)
  | nodeNologin (argv1 argv2 argv3 : Bytes) (hlogin : argv1 ≠ bytes "login") (hout : c.isvalidnode = false) :
      Does s c env (.node argv1 argv2 argv3) none (s.addReplyString c.id errNodeNoLogin)
  | nodeSay (dest message : Bytes) (hin : c.isvalidnode = true) :
      Does s c env (.node (bytes "say") dest message) (c.saySend dest message) (s.nodeSay c dest message)
  | nodeOther (argv1 argv2 argv3 : Bytes) (hin : c.isvalidnode = true)
      (hother : argv1 ∉ [bytes "login", bytes "say"]) : Does s c env (.node argv1 argv2 argv3) none s
  | registerFail (argv1 argv2 argv3 argv4 argv5 : Bytes) (r : Reply) (hr : r ∈ registerErrors) :
      Does s c env (.register argv1 argv2 argv3 argv4 argv5) none (s.addReplyString c.id r)
  | registerGetuserid (email argv3 argv4 argv5 : Bytes) (hat : email.contains 0x40 = true)
      (hemail : env.emailIsExist email = false) :
      Does s c env (.register (bytes "getuserid") email argv3 argv4 argv5) none
        (s.addReplyString c.id (reply (bytes "register ok   " ++ env.mymd5 (email ++ env.myrandom) ++ bytes "  " ++
          env.myrandom ++ bytes "\r\n")))
  | registerAdduser (username argv3 userid argv5 : Bytes) (huserid : env.useridIsExist userid = true)
      (hname : env.usernameIsExist username = false) :
      Does s c env (.register (bytes "adduser") username argv3 userid argv5) none
        ((s.addReplyString c.id okRegister).withDir (s.dir.insertUserInfo userid username))
  | registerOther (argv1 argv2 argv3 argv4 argv5 : Bytes) (hother : argv1 ∉ [bytes "getuserid", bytes "adduser"]) :
      Does s c env (.register argv1 argv2 argv3 argv4 argv5) none s

section Does

variable (s : Server) (c : Client) (env : Env)

theorem chatCommand_does (argv1 argv2 argv3 : Bytes) :
    Does s c env (.chat argv1 argv2 argv3) (s.commandSend c env (.chat argv1 argv2 argv3))
      (s.chatCommand c argv1 argv2 argv3 env) := by
  unfold Server.chatCommand Server.commandSend
  by_cases hlogin : argv1 = bytes "login"
  · subst hlogin
    exact .chatLogin argv2 argv3
  · simp only [if_neg hlogin]
    cases hin : c.isvaliduser with
    | false => exact .chatNologin argv1 argv2 argv3 hlogin hin
    | true =>
      simp only [Bool.not_true, Bool.false_eq_true, if_false]
      by_cases hsay : argv1 = bytes "say"
      · subst hsay
        exact .chatSay argv2 argv3 hin
      · simp only [if_neg hsay]
        -- nothing below sends to the others
        split
        · rename_i h
          subst h
          exact .chatUserInfo argv2 argv3 hin
        · rename_i huserinfo
          split
          · rename_i h
            subst h
            exact .chatOther (bytes "heartbeat") argv2 argv3 hin (by decide)
          · split
            · rename_i h
              subst h
              exact .chatDebug argv2 argv3 hin
            · rename_i hdebug
              split
              · rename_i h
                subst h
                exact .chatAdduser argv2 argv3 hin
              · rename_i hadduser
                exact .chatOther argv1 argv2 argv3 hin (by simp [hlogin, hsay, huserinfo, hdebug, hadduser])

theorem nodeCommand_does (argv1 argv2 argv3 : Bytes) :
    Does s c env (.node argv1 argv2 argv3) (s.commandSend c env (.node argv1 argv2 argv3))
      (s.nodeCommand c argv1 argv2 argv3) := by
  unfold Server.nodeCommand Server.commandSend
  by_cases hlogin : argv1 = bytes "login"
  · subst hlogin
    exact .nodeLogin argv2 argv3
  · simp only [if_neg hlogin]
    cases hin : c.isvalidnode with
    | false => exact .nodeNologin argv1 argv2 argv3 hlogin hin
    | true =>
      simp only [Bool.not_true, Bool.false_eq_true, if_false]
      by_cases hsay : argv1 = bytes "say"
      · subst hsay
        exact .nodeSay argv2 argv3 hin
      · simp only [if_neg hsay]
        exact .nodeOther argv1 argv2 argv3 hin (by simp [hlogin, hsay])

theorem registerCommand_does (argv1 argv2 argv3 argv4 argv5 : Bytes) :
    Does s c env (.register argv1 argv2 argv3 argv4 argv5) none (s.registerCommand c argv1 argv2 argv4 env) := by
  unfold Server.registerCommand
  by_cases hget : argv1 = bytes "getuserid"
  · subst hget
    rw [if_pos rfl]
    unfold Server.registerGetuserid
    cases hat : argv2.contains 0x40 with
    | false => exact .registerFail _ _ _ _ _ errRegisterInvalidEmail (by decide)
    | true =>
      cases hemail : env.emailIsExist argv2 with
      | true => exact .registerFail _ _ _ _ _ errRegisterEmailIsExist (by decide)
      | false => exact .registerGetuserid argv2 argv3 argv4 argv5 hat hemail
  · rw [if_neg hget]
    by_cases hadd : argv1 = bytes "adduser"
    · subst hadd
      rw [if_pos rfl]
      unfold Server.registerAdduser
      cases huserid : env.useridIsExist argv4 with
      | false => exact .registerFail _ _ _ _ _ errRegisterInvalidUserid (by decide)
      | true =>
        cases hname : env.usernameIsExist argv2 with
        | true => exact .registerFail _ _ _ _ _ errRegisterUsernameIsExist (by decide)
        | false => exact .registerAdduser argv2 argv3 argv4 argv5 huserid hname
    · rw [if_neg hadd]
      exact .registerOther argv1 argv2 argv3 argv4 argv5 (by simp [hget, hadd])

/-- **Every command is one of the cases.** -/
theorem exec_does (cmd : Command) : Does s c env cmd (s.commandSend c env cmd) (s.exec c env cmd) := by
  cases cmd with
  | chat argv1 argv2 argv3 => exact chatCommand_does s c env argv1 argv2 argv3
  | node argv1 argv2 argv3 => exact nodeCommand_does s c env argv1 argv2 argv3
  | register argv1 argv2 argv3 argv4 argv5 => exact registerCommand_does s c env argv1 argv2 argv3 argv4 argv5

end Does

/-- The call of `_chatSend` an event makes. -/
def Server.sends (s : Server) : Event → Option Send
  | .connect _ => none
  | .command id cmd env => (s.client? id).bind fun c => if c.closing then none else s.commandSend c env cmd
  | .quit _ _ => none
  | .free id => (s.client? id).bind fun c => c.leaveSend

/-- The client whose step an event is. -/
def Event.client : Event → Option Nat
  | .connect _ => none
  | .command id _ _ => some id
  | .quit id _ => some id
  | .free id => some id

/-! ## 4. The others -/

/-- To every client but `id` the change was this line, if any. -/
def Heard (id : Nat) (x : Option Send) (s s' : Server) : Prop :=
  ∀ i d, i ≠ id → s.client? i = some d → s'.client? i = some (d.hear? x)

section Frames

variable {s s' s'' : Server} {id : Nat} {x : Option Send}

theorem Heard.refl (id : Nat) (s : Server) : Heard id none s s := fun _ _ _ hd => hd

/-- Nothing before the line. -/
theorem Heard.after (h : Heard id none s s') (h' : Heard id x s' s'') : Heard id x s s'' :=
  fun i d hi hd => h' i d hi (h i d hi hd)

/-- Nothing after the line. -/
theorem Heard.before (h : Heard id x s s') (h' : Heard id none s' s'') : Heard id x s s'' :=
  fun i d hi hd => h' i _ hi (h i d hi hd)

/-- A change to one client. -/
theorem heard_modify (s : Server) (id : Nat) {f : Client → Client} (hf : ∀ c, (f c).id = c.id)
    (hids : (modifyFirst (fun c => c.id == id) f s.clients).map Client.id = s.clients.map Client.id) :
    Heard id none s (s.withClients (modifyFirst (fun c => c.id == id) f s.clients) hids) := by
  intro i d hi hd
  have hsame : (modifyFirst (fun c => c.id == id) f s.clients).find? (fun c => c.id == i) =
      s.clients.find? fun c => c.id == i := by
    refine find?_modifyFirst_of_ne fun c hc => ?_
    have hid : c.id = id := beq_iff_eq.mp (List.find?_some (p := fun c : Client => c.id == id) hc)
    have hne : (c.id == i) = false := by
      rw [hid]
      exact beq_eq_false_iff_ne.mpr (Ne.symm hi)
    refine ⟨hne, ?_⟩
    rw [hf]
    exact hne
  exact hsame.trans hd

theorem heard_addReplyString (s : Server) (id : Nat) (r : Reply) : Heard id none s (s.addReplyString id r) :=
  heard_modify s id (fun c => c.addReplyString_id r) _

theorem heard_setSession (s : Server) (id : Nat) (f : Session → Session) : Heard id none s (s.setSession id f) :=
  heard_modify s id (f := fun c : Client => { c with toSession := f c.toSession }) (fun _ => rfl) _

theorem heard_closeAfterReply (s : Server) (id : Nat) : Heard id none s (s.closeAfterReply id) :=
  heard_modify s id (f := fun c : Client => { c with closing := true }) (fun _ => rfl) _

theorem heard_withDir (s : Server) (id : Nat) (d : Directory) : Heard id none s (s.withDir d) := fun _ _ _ hd => hd

theorem heard_send (s : Server) (id : Nat) (x : Send) : Heard id (some x) s (s.send x) := by
  intro i d _ hd
  unfold Server.send
  rw [client?_chatSend, hd]
  rfl

theorem heard_addReplies (s : Server) (id : Nat) (rs : List Reply) : Heard id none s (s.addReplies id rs) := by
  induction rs generalizing s with
  | nil => exact Heard.refl id s
  | cons r rs ih => exact (heard_addReplyString s id r).after (ih (s.addReplyString id r))

theorem heard_getAllNodeInfo (s : Server) (id : Nat) (username : Bytes) :
    Heard id none s (s.getAllNodeInfo id username) := by
  unfold Server.getAllNodeInfo
  split
  · exact Heard.refl id s
  · exact heard_addReplies s id _

theorem heard_removeClient (s : Server) (id : Nat) : Heard id none s (s.removeClient id) := by
  intro i d hi hd
  have hid := client?_id hd
  have hmem : d ∈ (s.clients.eraseP fun c => c.id == id) := by
    refine (List.mem_eraseP_of_neg ?_).mpr (List.mem_of_find?_eq_some hd)
    rw [hid]
    simpa using hi
  rw [← hid]
  exact find?_key (s.removeClient id).distinct hmem

end Frames

/-! ## 5. The client itself -/

section Own

variable {s : Server} {id : Nat} {c : Client} (hc : s.client? id = some c)

include hc

theorem client?_modify {f : Client → Client} (hf : ∀ c, (f c).id = c.id)
    (hids : (modifyFirst (fun c => c.id == id) f s.clients).map Client.id = s.clients.map Client.id) :
    (s.withClients (modifyFirst (fun c => c.id == id) f s.clients) hids).client? id = some (f c) := by
  have hfind : (modifyFirst (fun c => c.id == id) f s.clients).find? (fun c => c.id == id) =
      (s.clients.find? fun c => c.id == id).map f := find?_modifyFirst fun c => by rw [hf]
  exact hfind.trans (congrArg (Option.map f) hc)

theorem client?_setSession (f : Session → Session) :
    (s.setSession id f).client? id = some { c with toSession := f c.toSession } :=
  client?_modify hc (f := fun c : Client => { c with toSession := f c.toSession }) (fun _ => rfl) _

theorem client?_addReplyString (hopen : c.closing = false) (r : Reply) :
    (s.addReplyString id r).client? id = some { c with out := c.out ++ [r] } := by
  have hadd : c.addReplyString r = { c with out := c.out ++ [r] } := if_neg (by simp [hopen])
  rw [← hadd]
  exact client?_modify hc (fun c => c.addReplyString_id r) _

theorem client?_addReplies (hopen : c.closing = false) (rs : List Reply) :
    (s.addReplies id rs).client? id = some { c with out := c.out ++ rs } := by
  induction rs generalizing s c with
  | nil =>
    rw [List.append_nil]
    exact hc
  | cons r rs ih =>
    have hrest := ih (client?_addReplyString hc hopen r) hopen
    rw [List.append_assoc] at hrest
    exact hrest

end Own

/-! ## 6. Function by function -/

section Functions

variable (s : Server) (c : Client)

theorem Refused.heard {s : Server} {c : Client} {s' : Server} (h : Refused s c s') : Heard c.id none s s' := by
  cases h with
  | again r _ => exact heard_addReplyString s c.id r
  | fail r _ _ => exact (heard_addReplyString s c.id r).after (heard_setSession _ c.id _)

/-- `chat login`. -/
theorem heard_chatLogin (name password : Bytes) (env : Env) :
    Heard c.id (s.userSend c name password env) s (s.chatLogin c name password env) := by
  unfold Server.userSend
  cases hgrant : s.admitsUser c name password env with
  | false => exact (chatLogin_refused hgrant).heard
  | true =>
    rw [chatLogin_admitted hgrant]
    unfold Server.admitUser
    extract_lets s₁ s₂ s₃ s₄ userid s₅ s₆
    have h₁ : Heard c.id none s s₁ := heard_setSession s c.id _
    have h₂ : Heard c.id none s₁ s₂ := heard_withDir s₁ c.id _
    have h₃ : Heard c.id (some ⟨bytes "userinfo", name, bytes "all", bytes "on", typeUser⟩) s₂ s₃ :=
      heard_send s₂ c.id _
    have h₄ : Heard c.id none s₃ s₄ := heard_setSession s₃ c.id _
    have h₅ : Heard c.id none s₄ s₅ := heard_addReplyString s₄ c.id _
    have h₆ : Heard c.id none s₅ s₆ := heard_getAllNodeInfo s₅ c.id name
    have h₇ : Heard c.id none s₆ (s₆.chatUserInfo c.id) := heard_addReplies s₆ c.id _
    exact (h₁.after (h₂.after h₃)).before (h₄.after (h₅.after (h₆.after h₇)))

/-- The end of `node login`. -/
theorem heard_admitNode (username userid nodename : Bytes) :
    Heard c.id (some ⟨bytes "nodeinfo", nodename, username, bytes "on", typeUser⟩) s
      (s.admitNode c username userid nodename) := by
  unfold Server.admitNode
  extract_lets s₁ s₂ s₃ s₄
  have h₁ : Heard c.id none s s₁ := heard_addReplyString s c.id _
  have h₂ : Heard c.id none s₁ s₂ := heard_setSession s₁ c.id _
  have h₃ : Heard c.id none s₂ s₃ := heard_setSession s₂ c.id _
  have h₄ : Heard c.id (some ⟨bytes "nodeinfo", nodename, username, bytes "on", typeUser⟩) s₃ s₄ :=
    heard_send s₃ c.id _
  exact (h₁.after (h₂.after (h₃.after h₄))).before (heard_withDir s₄ c.id _)

/-- `node login`. -/
theorem heard_nodeLogin (userid nodename : Bytes) :
    Heard c.id (s.nodeSend c userid nodename) s (s.nodeLogin c userid nodename) := by
  unfold Server.nodeSend
  cases hgrant : s.admitsNode c userid nodename with
  | none => exact (nodeLogin_refused hgrant).heard
  | some username =>
    rw [nodeLogin_admitted hgrant]
    exact (heard_withDir s c.id _).after (heard_admitNode _ c username userid nodename)

/-- `chat say`. -/
theorem heard_chatSay (dest message : Bytes) : Heard c.id (c.chatSend dest message) s (s.chatSay c dest message) := by
  unfold Server.chatSay Session.chatSend
  split
  · exact heard_addReplyString s c.id _
  · split
    · exact heard_addReplyString s c.id _
    · exact heard_send s c.id ⟨bytes "chat", c.username, dest, message, typeUser⟩

/-- `node say`. -/
theorem heard_nodeSay (dest message : Bytes) :
    Heard c.id (c.saySend dest message) s (s.nodeSay c dest message) := by
  unfold Server.nodeSay Session.saySend
  split
  · exact heard_send s c.id ⟨bytes "node", c.username, dest, message, typeNode⟩
  · split
    · exact heard_send s c.id ⟨bytes "node", c.nodename, c.username, message, typeUser⟩
    · exact Heard.refl c.id s

/-- `chat debug`. -/
theorem heard_myDebugEntry (env : Env) : Heard c.id none s (s.myDebugEntry c env) := by
  unfold Server.myDebugEntry
  split
  · exact Heard.refl c.id s
  · exact (heard_addReplies s c.id _).after (heard_addReplies _ c.id _)

/-- `chat adduser`. -/
theorem heard_myAddUser (userid username : Bytes) : Heard c.id none s (s.myAddUser c userid username) := by
  unfold Server.myAddUser
  split
  · exact Heard.refl c.id s
  · exact heard_withDir s c.id _

/-- **To the others a command does what it sends.** -/
theorem Does.heard {s : Server} {c : Client} {env : Env} {cmd : Command} {x : Option Send} {s' : Server}
    (h : Does s c env cmd x s') : Heard c.id x s s' := by
  cases h with
  | chatLogin name password => exact heard_chatLogin s c name password env
  | chatNologin _ _ _ _ _ => exact heard_addReplyString s c.id _
  | chatSay dest message _ => exact heard_chatSay s c dest message
  | chatUserInfo _ _ _ => exact heard_addReplies s c.id _
  | chatDebug _ _ _ => exact heard_myDebugEntry s c env
  | chatAdduser userid username _ => exact heard_myAddUser s c userid username
  | chatOther _ _ _ _ _ => exact Heard.refl c.id s
  | nodeLogin userid nodename => exact heard_nodeLogin s c userid nodename
  | nodeNologin _ _ _ _ _ => exact heard_addReplyString s c.id _
  | nodeSay dest message _ => exact heard_nodeSay s c dest message
  | nodeOther _ _ _ _ _ => exact Heard.refl c.id s
  | registerFail _ _ _ _ _ r _ => exact heard_addReplyString s c.id r
  | registerGetuserid _ _ _ _ _ _ => exact heard_addReplyString s c.id _
  | registerAdduser _ _ _ _ _ _ => exact (heard_addReplyString s c.id _).after (heard_withDir _ c.id _)
  | registerOther _ _ _ _ _ _ => exact Heard.refl c.id s

/-- The end of a connection. -/
theorem heard_freeClient : Heard c.id c.leaveSend s (s.freeClient c) := by
  refine Heard.before ?_ (heard_removeClient _ c.id)
  unfold Server.chatNotifyUserInfo Session.leaveSend
  split
  · exact Heard.refl c.id s
  · split
    · exact (heard_send s c.id ⟨bytes "userinfo", c.username, bytes "all", bytes "off", typeUser⟩).before
        (heard_withDir _ c.id _)
    · split
      · exact (heard_send s c.id ⟨bytes "nodeinfo", c.nodename, c.username, bytes "off", typeUser⟩).before
          (heard_withDir _ c.id _)
      · exact Heard.refl c.id s

end Functions

/-! ## 7. Any event -/

theorem sends_command {s : Server} {id : Nat} {c : Client} (hc : s.client? id = some c) (hopen : c.closing = false)
    (cmd : Command) (env : Env) : s.sends (.command id cmd env) = s.commandSend c env cmd := by
  simp [Server.sends, hc, hopen]

theorem sends_free {s : Server} {id : Nat} {c : Client} (hc : s.client? id = some c) :
    s.sends (.free id) = c.leaveSend := by
  simp [Server.sends, hc]

/-- **A client whose step it is not is as before, but for the line that is sent.** -/
theorem others_hear {s s' : Server} {e : Event} (h : chatNext s e = some s') {i : Nat} {d : Client}
    (hd : s.client? i = some d) (hi : e.client ≠ some i) : s'.client? i = some (d.hear? (s.sends e)) := by
  cases e with
  | connect type =>
    cases h
    show (s.clients ++ _).find? _ = _
    rw [List.find?_append, show s.clients.find? (fun c => c.id == i) = some d from hd]
    rfl
  | command id cmd env =>
    obtain ⟨c, hc, h⟩ := Option.bind_eq_some_iff.mp h
    split at h
    · exact absurd h (Option.some_ne_none _).symm
    · rename_i hopen
      cases h
      have hne : i ≠ c.id := fun he => hi (by rw [he, client?_id hc]; rfl)
      rw [sends_command hc (by simpa using hopen)]
      exact (exec_does s c env cmd).heard i d hne hd
  | quit id last =>
    obtain ⟨c, hc, h⟩ := Option.bind_eq_some_iff.mp h
    split at h
    · exact absurd h (Option.some_ne_none _).symm
    · cases h
      have hne : i ≠ id := fun he => hi (by rw [he]; rfl)
      exact (heard_addReplyString s id last).after (heard_closeAfterReply _ id) i d hne hd
  | free id =>
    obtain ⟨c, hc, h⟩ := Option.map_eq_some_iff.mp h
    cases h
    have hne : i ≠ c.id := fun he => hi (by rw [he, client?_id hc]; rfl)
    rw [sends_free hc]
    exact heard_freeClient s c i d hne hd

end SmartHome.Chat
