/-
  Subject:   WHO IS LOGGED IN: what an event does to the directory and the sessions.

  Most of what the server does is sending lines. A line changes neither the directory nor a session
  (`Replies`), so of a command there remains: nothing, or a new account, or a login, or the end of a
  session.

  * `Effect`, **`chatNext_effect`** -- the cases, with the tests each one has passed and what it
    announces: the inductions over runs split into these cases and never look at the code again;
  * `chatNext_sessions` -- the rule for what is to hold of every session;
  * `Change`, `chatNext_change` -- what of this concerns the nodes;
  * `Session.Ok`, `sessions_ok` -- in every run: the two flags are equal, a client that is not logged
    in has no names, one that is is a USER or a NODE;
  * `NodesKnown`, `nodes_known` -- in every run: the account of a NODE is registered.
-/
import SmartHome.Chat.Sends

namespace SmartHome.Chat

open SmartHome.Lib

/-! ## 1. Sending changes no session -/

/-- The sessions, under the identities of their clients. -/
def Server.sessions (s : Server) : List (Nat × Session) := s.clients.map fun c => (c.id, c.toSession)

/-- Nothing but the queues has changed. -/
structure Replies (s s' : Server) : Prop where
  dir : s'.dir = s.dir
  sessions : s'.sessions = s.sessions

theorem Replies.refl (s : Server) : Replies s s := ⟨rfl, rfl⟩

theorem Replies.trans {s s' s'' : Server} (h : Replies s s') (h' : Replies s' s'') : Replies s s'' :=
  ⟨h'.dir.trans h.dir, h'.sessions.trans h.sessions⟩

section Sending

variable (s : Server) (id : Nat)

theorem replies_addReplyString (r : Reply) : Replies s (s.addReplyString id r) :=
  ⟨rfl, map_modifyFirst fun c _ => by rw [c.addReplyString_id, c.addReplyString_session]⟩

theorem replies_addReplies (rs : List Reply) : Replies s (s.addReplies id rs) := by
  induction rs generalizing s with
  | nil => exact Replies.refl s
  | cons r rs ih => exact (replies_addReplyString s id r).trans (ih (s.addReplyString id r))

theorem replies_closeAfterReply : Replies s (s.closeAfterReply id) :=
  ⟨rfl, map_modifyFirst (f := fun c : Client => { c with closing := true }) fun _ _ => rfl⟩

theorem replies_chatSend (tag source dest message : Bytes) (toType : UInt8) :
    Replies s (s.chatSend tag source dest message toType) := by
  refine ⟨rfl, ?_⟩
  unfold Server.sessions Server.chatSend Server.withClients
  simp only [List.map_map]
  refine List.map_congr_left fun c _ => ?_
  simp only [Function.comp_apply, Client.sendTo_id, Client.sendTo_session]

theorem replies_chatUserInfo : Replies s (s.chatUserInfo id) := replies_addReplies s id _

theorem replies_getAllNodeInfo (username : Bytes) : Replies s (s.getAllNodeInfo id username) := by
  unfold Server.getAllNodeInfo
  split
  · exact Replies.refl s
  · exact replies_addReplies s id _

theorem replies_chatSay (c : Client) (dest message : Bytes) : Replies s (s.chatSay c dest message) := by
  unfold Server.chatSay
  split
  · exact replies_addReplyString s c.id _
  · split
    · exact replies_addReplyString s c.id _
    · exact replies_chatSend s _ _ _ _ _

theorem replies_nodeSay (c : Client) (dest message : Bytes) : Replies s (s.nodeSay c dest message) := by
  unfold Server.nodeSay
  split
  · exact replies_chatSend s _ _ _ _ _
  · split
    · exact replies_chatSend s _ _ _ _ _
    · exact Replies.refl s

theorem replies_myDebugEntry (c : Client) (env : Env) : Replies s (s.myDebugEntry c env) := by
  unfold Server.myDebugEntry
  split
  · exact Replies.refl s
  · exact (replies_addReplies s c.id _).trans (replies_addReplies _ c.id _)

end Sending

/-! ## 2. Changing one session -/

/-- The session of a client. -/
theorem sessions_find {s : Server} {id : Nat} {c : Client} (h : s.client? id = some c) :
    s.sessions.find? (fun x => x.1 == id) = some (id, c.toSession) := by
  have hid : c.id = id := beq_iff_eq.mp (List.find?_some (p := fun c : Client => c.id == id) h)
  have hmap : s.sessions.find? (fun x => x.1 == id) = (s.client? id).map fun c => (c.id, c.toSession) :=
    List.find?_map
  rw [hmap, h, Option.map_some, hid]

theorem sessions_nodup (s : Server) : (s.sessions.map Prod.fst).Nodup := by
  unfold Server.sessions
  rw [List.map_map]
  exact s.distinct

theorem sessions_setSession (s : Server) (id : Nat) (f : Session → Session) :
    (s.setSession id f).sessions = modifyFirst (fun x => x.1 == id) (fun x => (x.1, f x.2)) s.sessions :=
  map_modifyFirst_comm (f := fun c : Client => { c with toSession := f c.toSession })
    (g := fun c : Client => (c.id, c.toSession)) (fun _ => rfl) fun _ => rfl

/-- Two changes to one session. -/
theorem modifySession_modifySession (id : Nat) (f g : Session → Session) (l : List (Nat × Session)) :
    modifyFirst (fun x => x.1 == id) (fun x => (x.1, g x.2))
        (modifyFirst (fun x => x.1 == id) (fun x => (x.1, f x.2)) l) =
      modifyFirst (fun x => x.1 == id) (fun x => (x.1, g (f x.2))) l :=
  modifyFirst_modifyFirst fun _ => rfl

theorem refuse_free {x : Session} (h : (x.isvaliduser || x.isvalidnode) = false) : x.refuse = x := by
  obtain ⟨hu, hn⟩ := Bool.or_eq_false_iff.mp h
  cases x with
  | mk userid username password nodename isvaliduser isvalidnode type =>
    cases hu
    cases hn
    rfl

/-- Clearing the flags of a client that is not logged in changes nothing. -/
theorem sessions_refuse {s s' : Server} {id : Nat} {c : Client} (hc : s.client? id = some c)
    (hfree : (c.isvaliduser || c.isvalidnode) = false) (h : Replies s s') :
    Replies s (s'.setSession id Session.refuse) := by
  refine ⟨h.dir, ?_⟩
  rw [sessions_setSession, h.sessions]
  refine modifyFirst_id fun x hx => ?_
  rw [sessions_find hc] at hx
  cases hx
  rw [refuse_free hfree]

/-! ## 3. What an event does -/

/-- The account and name of a client that is logged in as a NODE. -/
def Session.nodeKey (x : Session) : Option (Bytes × Bytes) :=
  if x.isvaliduser && x.isvalidnode && x.mynodeType == typeNode then some (x.username, x.nodename) else none

/-- The session after `chat login`. -/
def Session.asUser (x : Session) (username password : Bytes) : Session :=
  (x.grant typeUser).nameUser username password

/-- The session after `node login`. -/
def Session.asNode (x : Session) (username userid nodename : Bytes) : Session :=
  (x.grant typeNode).nameNode username userid nodename

/-- The name of a client that is logged in as a USER. -/
def Session.userName? (x : Session) : Option Bytes :=
  if x.isvaliduser && x.isvalidnode && x.mynodeType == typeUser then some x.username else none

/-- No announcement of a user. -/
def NoUserinfo (x : Option Send) : Prop :=
  ∀ y, x = some y → y.tag ∈ [bytes "chat", bytes "node", bytes "nodeinfo"]

/-- **What an event does to the directory and the sessions**, exactly, with what it has tested and what
    it announces. -/
inductive Effect (s s' : Server) : Event → Prop where
  | same {e : Event} (h : Replies s s') (hsend : NoUserinfo (s.sends e)) : Effect s s' e
  | connect {type : UInt8} (hdir : s'.dir = s.dir)
      (hs : s'.sessions = s.sessions ++ [(s.nextId, Session.new type)]) : Effect s s' (.connect type)
  | rootAdduser {id : Nat} {c : Client} {userid username : Bytes} {env : Env} (hc : s.client? id = some c)
      (hopen : c.closing = false) (hin : c.isvaliduser = true) (hroot : c.username = bytes "root")
      (hdir : s'.dir = s.dir.insertUserInfo userid username) (hs : s'.sessions = s.sessions)
      (hsend : s.sends (.command id (.chat (bytes "adduser") userid username) env) = none) :
      Effect s s' (.command id (.chat (bytes "adduser") userid username) env)
  | adduser {id : Nat} {c : Client} {username password userid email : Bytes} {env : Env}
      (hc : s.client? id = some c) (hopen : c.closing = false) (huserid : env.useridIsExist userid = true)
      (hname : env.usernameIsExist username = false) (hdir : s'.dir = s.dir.insertUserInfo userid username)
      (hs : s'.sessions = s.sessions)
      (hsend : s.sends (.command id (.register (bytes "adduser") username password userid email) env) = none) :
      Effect s s' (.command id (.register (bytes "adduser") username password userid email) env)
  | userLogin {id : Nat} {c : Client} {name password : Bytes} {env : Env} (hc : s.client? id = some c)
      (hopen : c.closing = false) (hgrant : s.admitsUser c name password env = true)
      (hdir : s'.dir = s.dir.setUserInfo name .on)
      (hs : s'.sessions =
        modifyFirst (fun x => x.1 == id) (fun x => (x.1, x.2.asUser name password)) s.sessions)
      (hsend : s.sends (.command id (.chat (bytes "login") name password) env) =
        some ⟨bytes "userinfo", name, bytes "all", bytes "on", typeUser⟩) :
      Effect s s' (.command id (.chat (bytes "login") name password) env)
  | nodeLogin {id : Nat} {c : Client} {userid nodename username : Bytes} {env : Env}
      (hc : s.client? id = some c) (hopen : c.closing = false)
      (hgrant : s.admitsNode c userid nodename = some username)
      (hdir : s'.dir = (s.dir.insertNodeToUserInfo username nodename).2.setNodeInfo username nodename .on)
      (hs : s'.sessions =
        modifyFirst (fun x => x.1 == id) (fun x => (x.1, x.2.asNode username userid nodename)) s.sessions)
      (hsend : NoUserinfo (s.sends (.command id (.node (bytes "login") userid nodename) env))) :
      Effect s s' (.command id (.node (bytes "login") userid nodename) env)
  | leave {id : Nat} {c : Client} (hc : s.client? id = some c) (huser : c.userName? = none)
      (hkey : c.nodeKey = none) (hdir : s'.dir = s.dir)
      (hs : s'.sessions = s.sessions.eraseP fun x => x.1 == id) (hsend : s.sends (.free id) = none) :
      Effect s s' (.free id)
  | userLeave {id : Nat} {c : Client} (hc : s.client? id = some c) (huser : c.userName? = some c.username)
      (hkey : c.nodeKey = none) (hdir : s'.dir = s.dir.setUserInfo c.username .off)
      (hs : s'.sessions = s.sessions.eraseP fun x => x.1 == id)
      (hsend : s.sends (.free id) = some ⟨bytes "userinfo", c.username, bytes "all", bytes "off", typeUser⟩) :
      Effect s s' (.free id)
  | nodeLeave {id : Nat} {c : Client} (hc : s.client? id = some c) (huser : c.userName? = none)
      (hkey : c.nodeKey = some (c.username, c.nodename))
      (hdir : s'.dir = s.dir.setNodeInfo c.username c.nodename .off)
      (hs : s'.sessions = s.sessions.eraseP fun x => x.1 == id)
      (hsend : NoUserinfo (s.sends (.free id))) : Effect s s' (.free id)

theorem noUserinfo_none : NoUserinfo none := fun _ h => absurd h (Option.some_ne_none _).symm

theorem noUserinfo_some {tag source dest message : Bytes} {toType : UInt8}
    (h : tag ∈ [bytes "chat", bytes "node", bytes "nodeinfo"]) :
    NoUserinfo (some ⟨tag, source, dest, message, toType⟩) := by
  intro y hy
  cases hy
  exact h

theorem noUserinfo_chatSend (x : Session) (dest message : Bytes) : NoUserinfo (x.chatSend dest message) := by
  unfold Session.chatSend
  split
  · exact noUserinfo_none
  · split
    · exact noUserinfo_none
    · exact noUserinfo_some (by decide)

theorem noUserinfo_saySend (x : Session) (dest message : Bytes) : NoUserinfo (x.saySend dest message) := by
  unfold Session.saySend
  split
  · exact noUserinfo_some (by decide)
  · split
    · exact noUserinfo_some (by decide)
    · exact noUserinfo_none

theorem noUserinfo_nodeSend (s : Server) (c : Client) (userid nodename : Bytes) :
    NoUserinfo (s.nodeSend c userid nodename) := by
  intro y hy
  obtain ⟨username, -, rfl⟩ := Option.map_eq_some_iff.mp hy
  exact show bytes "nodeinfo" ∈ [bytes "chat", bytes "node", bytes "nodeinfo"] by decide

theorem Refused.replies {s s' : Server} {c : Client} (hc : s.client? c.id = some c) (h : Refused s c s') :
    Replies s s' := by
  cases h with
  | again r _ => exact replies_addReplyString s c.id r
  | fail r _ hfree => exact sessions_refuse hc hfree (replies_addReplyString s c.id r)

/-- `chat login` that is admitted. -/
theorem admitUser_effect (s : Server) (c : Client) (name password : Bytes) :
    (s.admitUser c name password).dir = s.dir.setUserInfo name .on ∧ (s.admitUser c name password).sessions =
        modifyFirst (fun x => x.1 == c.id) (fun x => (x.1, x.2.asUser name password)) s.sessions := by
  unfold Server.admitUser
  extract_lets s₁ s₂ s₃ s₄ userid s₅ s₆
  have h₁ : s₁.sessions = _ := sessions_setSession s c.id (Session.grant typeUser)
  have h₃ : Replies s₂ s₃ := replies_chatSend s₂ _ _ _ _ _
  have h₄ : s₄.sessions = _ := sessions_setSession s₃ c.id (Session.nameUser name password)
  have h₅ : Replies s₄ s₅ := replies_addReplyString s₄ c.id _
  have h₆ : Replies s₅ s₆ := replies_getAllNodeInfo s₅ c.id name
  have hlast : Replies s₄ (s₆.chatUserInfo c.id) := (h₅.trans h₆).trans (replies_chatUserInfo s₆ c.id)
  refine ⟨?_, ?_⟩
  · rw [hlast.dir]
    exact h₃.dir
  · rw [hlast.sessions, h₄, h₃.sessions, show s₂.sessions = s₁.sessions from rfl, h₁,
      modifySession_modifySession]
    rfl

/-- `node login` that is admitted. -/
theorem admitNode_effect (s : Server) (c : Client) (username userid nodename : Bytes) :
    (s.admitNode c username userid nodename).dir = s.dir.setNodeInfo username nodename .on ∧
      (s.admitNode c username userid nodename).sessions =
        modifyFirst (fun x => x.1 == c.id) (fun x => (x.1, x.2.asNode username userid nodename)) s.sessions := by
  unfold Server.admitNode
  extract_lets s₁ s₂ s₃ s₄
  have h₁ : Replies s s₁ := replies_addReplyString _ c.id _
  have h₂ : s₂.sessions = _ := sessions_setSession s₁ c.id (Session.grant typeNode)
  have h₃ : s₃.sessions = _ := sessions_setSession s₂ c.id (Session.nameNode username userid nodename)
  have h₄ : Replies s₃ s₄ := replies_chatSend s₃ _ _ _ _ _
  refine ⟨?_, ?_⟩
  · show s₄.dir.setNodeInfo username nodename .on = _
    rw [h₄.dir]
    rfl
  · show s₄.sessions = _
    rw [h₄.sessions, h₃, h₂, h₁.sessions, modifySession_modifySession]
    rfl

section Commands

variable {s : Server} {id : Nat} {c : Client} (hc : s.client? id = some c) (hopen : c.closing = false) (env : Env)

include hc hopen

/-- `chat login`. -/
theorem chatLogin_effect (name password : Bytes) :
    Effect s (s.chatLogin c name password env) (.command id (.chat (bytes "login") name password) env) := by
  have hid := client?_id hc
  subst hid
  have hsend : s.sends (.command c.id (.chat (bytes "login") name password) env) = s.userSend c name password env :=
    sends_command hc hopen _ env
  unfold Server.userSend at hsend
  cases hgrant : s.admitsUser c name password env with
  | false =>
    rw [hgrant] at hsend
    exact .same ((chatLogin_refused hgrant).replies hc) (by rw [hsend]; exact noUserinfo_none)
  | true =>
    rw [hgrant] at hsend
    rw [chatLogin_admitted hgrant]
    obtain ⟨hdir, hs⟩ := admitUser_effect s c name password
    exact .userLogin hc hopen hgrant hdir hs hsend

/-- `node login`. -/
theorem nodeLogin_effect (userid nodename : Bytes) :
    Effect s (s.nodeLogin c userid nodename) (.command id (.node (bytes "login") userid nodename) env) := by
  have hid := client?_id hc
  subst hid
  have hsend : NoUserinfo (s.sends (.command c.id (.node (bytes "login") userid nodename) env)) := by
    rw [sends_command hc hopen]
    exact noUserinfo_nodeSend s c userid nodename
  cases hgrant : s.admitsNode c userid nodename with
  | none => exact .same ((nodeLogin_refused hgrant).replies hc) hsend
  | some username =>
    rw [nodeLogin_admitted hgrant]
    obtain ⟨hdir, hs⟩ := admitNode_effect (s.withDir (s.dir.insertNodeToUserInfo username nodename).2) c username
      userid nodename
    exact .nodeLogin hc hopen hgrant hdir hs hsend

/-- `chat adduser`. -/
theorem myAddUser_effect (hin : c.isvaliduser = true) (userid username : Bytes)
    (hsend : s.sends (.command id (.chat (bytes "adduser") userid username) env) = none) :
    Effect s (s.myAddUser c userid username) (.command id (.chat (bytes "adduser") userid username) env) := by
  unfold Server.myAddUser
  by_cases hroot : c.username = bytes "root"
  · rw [if_neg (not_not.mpr hroot)]
    exact .rootAdduser hc hopen hin hroot rfl rfl hsend
  · rw [if_pos hroot]
    exact .same (Replies.refl s) (by rw [hsend]; exact noUserinfo_none)

/-- Any command. -/
theorem exec_effect (cmd : Command) : Effect s (s.exec c env cmd) (.command id cmd env) := by
  have hsend := sends_command hc hopen cmd env
  have hdoes := exec_does s c env cmd
  generalize s.commandSend c env cmd = x at hsend hdoes
  generalize s.exec c env cmd = s' at hdoes
  have hsame : Replies s s' → NoUserinfo x → Effect s s' (.command id cmd env) :=
    fun hr hno => .same hr (by rw [hsend]; exact hno)
  cases hdoes with
  | chatLogin name password => exact chatLogin_effect hc hopen env name password
  | chatNologin _ _ _ _ _ => exact hsame (replies_addReplyString s c.id _) noUserinfo_none
  | chatSay dest message _ => exact hsame (replies_chatSay s c dest message) (noUserinfo_chatSend _ dest message)
  | chatUserInfo _ _ _ => exact hsame (replies_chatUserInfo s c.id) noUserinfo_none
  | chatDebug _ _ _ => exact hsame (replies_myDebugEntry s c env) noUserinfo_none
  | chatAdduser userid username hin => exact myAddUser_effect hc hopen env hin userid username hsend
  | chatOther _ _ _ _ _ => exact hsame (Replies.refl s) noUserinfo_none
  | nodeLogin userid nodename => exact nodeLogin_effect hc hopen env userid nodename
  | nodeNologin _ _ _ _ _ => exact hsame (replies_addReplyString s c.id _) noUserinfo_none
  | nodeSay dest message _ => exact hsame (replies_nodeSay s c dest message) (noUserinfo_saySend _ dest message)
  | nodeOther _ _ _ _ _ => exact hsame (Replies.refl s) noUserinfo_none
  | registerFail _ _ _ _ _ r _ => exact hsame (replies_addReplyString s c.id r) noUserinfo_none
  | registerGetuserid _ _ _ _ _ _ => exact hsame (replies_addReplyString s c.id _) noUserinfo_none
  | registerAdduser username _ userid _ huserid hname =>
    exact .adduser hc hopen huserid hname rfl (replies_addReplyString s c.id _).sessions hsend
  | registerOther _ _ _ _ _ _ => exact hsame (Replies.refl s) noUserinfo_none

omit hopen in
/-- The end of a connection. -/
theorem freeClient_effect : Effect s (s.freeClient c) (.free id) := by
  have hid := client?_id hc
  subst hid
  have hsend := sends_free hc
  have hremove : ∀ t : Server, t.sessions = s.sessions →
      (t.removeClient c.id).sessions = s.sessions.eraseP fun x => x.1 == c.id := by
    intro t ht
    rw [← ht]
    unfold Server.sessions Server.removeClient
    rw [List.eraseP_map]
    rfl
  unfold Session.leaveSend at hsend
  unfold Server.freeClient Server.chatNotifyUserInfo
  by_cases hout : (!c.isvaliduser || !c.isvalidnode) = true
  · rw [if_pos hout] at hsend ⊢
    refine .leave hc ?_ ?_ rfl (hremove s rfl) hsend
    · unfold Session.userName?
      rw [if_neg]
      intro hin
      simp only [Bool.and_eq_true] at hin
      simp [hin.1.1, hin.1.2] at hout
    · unfold Session.nodeKey
      rw [if_neg]
      intro hin
      simp only [Bool.and_eq_true] at hin
      simp [hin.1.1, hin.1.2] at hout
  · rw [if_neg hout] at hsend ⊢
    simp only [Bool.or_eq_true, Bool.not_eq_true', not_or, Bool.not_eq_false] at hout
    by_cases huser : (c.mynodeType == typeUser) = true
    · rw [if_pos huser] at hsend ⊢
      have hs := (replies_chatSend s (bytes "userinfo") c.username (bytes "all") (bytes "off") typeUser).sessions
      refine .userLeave hc ?_ ?_ rfl (hremove _ hs) hsend
      · unfold Session.userName?
        rw [hout.1, hout.2, huser]
        rfl
      · unfold Session.nodeKey
        rw [beq_iff_eq.mp huser]
        simp [typeUser, typeNode]
    · rw [if_neg huser] at hsend ⊢
      have hno : c.userName? = none := by
        unfold Session.userName?
        rw [Bool.not_eq_true] at huser
        rw [huser]
        simp
      by_cases hnode : (c.mynodeType == typeNode) = true
      · rw [if_pos hnode] at hsend ⊢
        have hs := (replies_chatSend s (bytes "nodeinfo") c.nodename c.username (bytes "off") typeUser).sessions
        refine .nodeLeave hc hno ?_ rfl (hremove _ hs) (by rw [hsend]; exact noUserinfo_some (by decide))
        unfold Session.nodeKey
        rw [hout.1, hout.2, hnode]
        rfl
      · rw [if_neg hnode] at hsend ⊢
        refine .leave hc hno ?_ rfl (hremove s rfl) hsend
        unfold Session.nodeKey
        rw [Bool.not_eq_true] at hnode
        rw [hnode]
        simp

end Commands

/-- **Every event is one of the cases.** -/
theorem chatNext_effect {s s' : Server} {e : Event} (h : chatNext s e = some s') : Effect s s' e := by
  cases e with
  | connect type =>
    cases h
    exact .connect rfl List.map_append
  | command id cmd env =>
    obtain ⟨c, hc, h⟩ := Option.bind_eq_some_iff.mp h
    split at h
    · exact absurd h (Option.some_ne_none _).symm
    · rename_i hopen
      rw [Bool.not_eq_true] at hopen
      cases h
      exact exec_effect hc hopen env cmd
  | quit id last =>
    obtain ⟨c, hc, h⟩ := Option.bind_eq_some_iff.mp h
    split at h
    · exact absurd h (Option.some_ne_none _).symm
    · cases h
      exact .same ((replies_addReplyString s id last).trans (replies_closeAfterReply _ id)) noUserinfo_none
  | free id =>
    obtain ⟨c, hc, h⟩ := Option.map_eq_some_iff.mp h
    cases h
    exact freeClient_effect hc

/-- **What holds of every session** holds after an event, if it did before, and holds of a session that the event
    makes. -/
theorem chatNext_sessions {s s' : Server} {e : Event} (h : chatNext s e = some s') {Q : Nat × Session → Prop}
    (hold : ∀ x ∈ s.sessions, Q x) (hnew : ∀ type, e = .connect type → Q (s.nextId, .new type))
    (huser : ∀ id c name password env, e = .command id (.chat (bytes "login") name password) env →
      s.client? id = some c → s.admitsUser c name password env = true → Q (id, c.toSession.asUser name password))
    (hnode : ∀ id c userid nodename username env, e = .command id (.node (bytes "login") userid nodename) env →
      s.client? id = some c → s.admitsNode c userid nodename = some username →
      Q (id, c.toSession.asNode username userid nodename)) : ∀ x ∈ s'.sessions, Q x := by
  have hlogin : ∀ {id : Nat} {c : Client} {f : Session → Session}, s.client? id = some c → Q (id, f c.toSession) →
      ∀ x ∈ modifyFirst (fun x => x.1 == id) (fun x => (x.1, f x.2)) s.sessions, Q x := by
    intro id c f hc hQ
    refine forall_modifyFirst hold fun x hx _ => ?_
    rw [← Option.some.inj ((sessions_find hc).symm.trans hx)]
    exact hQ
  have heffect := chatNext_effect h
  clear h
  cases heffect with
  | same hr _ => exact hr.sessions ▸ hold
  | connect _ hs =>
    intro x hx
    rw [hs] at hx
    rcases List.mem_append.mp hx with hx | hx
    · exact hold x hx
    · exact List.mem_singleton.mp hx ▸ hnew _ rfl
  | rootAdduser _ _ _ _ _ hs _ | adduser _ _ _ _ _ hs _ => exact hs ▸ hold
  | @userLogin _ _ name password _ hc _ hgrant _ hs _ =>
    exact hs ▸ hlogin hc (f := fun x => x.asUser name password) (huser _ _ _ _ _ rfl hc hgrant)
  | @nodeLogin _ _ userid nodename username _ hc _ hgrant _ hs _ =>
    exact hs ▸ hlogin hc (f := fun x => x.asNode username userid nodename) (hnode _ _ _ _ _ _ rfl hc hgrant)
  | leave _ _ _ _ hs _ | userLeave _ _ _ _ hs _ | nodeLeave _ _ _ _ hs _ =>
    exact fun x hx => hold x (List.mem_of_mem_eraseP (hs ▸ hx))

/-- The same, as far as the nodes are concerned. A login is by a client that is not logged
    in; `node login` has found the account, passed the test of the client's own names, and found or
    made the node. -/
inductive Change (s s' : Server) : Event → Prop where
  | quiet {e : Event} (hdir : Quiet s.dir s'.dir) (hs : s'.sessions = s.sessions) : Change s s' e
  | connect {type : UInt8} (hdir : s'.dir = s.dir)
      (hs : s'.sessions = s.sessions ++ [(s.nextId, Session.new type)]) : Change s s' (.connect type)
  | userLogin {id : Nat} {c : Client} {name password : Bytes} {env : Env} (hc : s.client? id = some c)
      (hfree : (c.isvaliduser || c.isvalidnode) = false) (hdir : Quiet s.dir s'.dir)
      (hs : s'.sessions =
        modifyFirst (fun x => x.1 == id) (fun x => (x.1, x.2.asUser name password)) s.sessions) :
      Change s s' (.command id (.chat (bytes "login") name password) env)
  | nodeLogin {id : Nat} {c : Client} {userid nodename username : Bytes} {env : Env}
      (hc : s.client? id = some c) (hfree : (c.isvaliduser || c.isvalidnode) = false)
      (hname : s.dir.getNameByUserid userid = some username) (htest : ¬ s.dir.IsOn c.username c.nodename)
      (hret : (s.dir.insertNodeToUserInfo username nodename).1 ≠ -1)
      (hdir : s'.dir = (s.dir.insertNodeToUserInfo username nodename).2.setNodeInfo username nodename .on)
      (hs : s'.sessions =
        modifyFirst (fun x => x.1 == id) (fun x => (x.1, x.2.asNode username userid nodename)) s.sessions) :
      Change s s' (.command id (.node (bytes "login") userid nodename) env)
  | leave {id : Nat} {c : Client} (hc : s.client? id = some c) (hkey : c.nodeKey = none)
      (hdir : Quiet s.dir s'.dir) (hs : s'.sessions = s.sessions.eraseP fun x => x.1 == id) :
      Change s s' (.free id)
  | nodeLeave {id : Nat} {c : Client} (hc : s.client? id = some c)
      (hkey : c.nodeKey = some (c.username, c.nodename))
      (hdir : s'.dir = s.dir.setNodeInfo c.username c.nodename .off)
      (hs : s'.sessions = s.sessions.eraseP fun x => x.1 == id) : Change s s' (.free id)

/-- **Every event, as far as nodes are concerned.** -/
theorem chatNext_change {s s' : Server} {e : Event} (h : chatNext s e = some s') : Change s s' e := by
  have heffect := chatNext_effect h
  clear h
  cases heffect with
  | same h _ => exact .quiet (by rw [h.dir]; exact Quiet.refl _) h.sessions
  | connect hdir hs => exact .connect hdir hs
  | rootAdduser _ _ _ _ hdir hs _ | adduser _ _ _ _ hdir hs _ =>
    exact .quiet (by rw [hdir]; exact quiet_insertUserInfo s.dir _ _) hs
  | userLogin hc _ hgrant hdir hs _ =>
    exact .userLogin hc (admitsUser_iff.mp hgrant).1 (by rw [hdir]; exact quiet_setUserInfo s.dir _ .on) hs
  | nodeLogin hc _ hgrant hdir hs _ =>
    obtain ⟨hfree, hname, htest, hret⟩ := admitsNode_iff.mp hgrant
    exact .nodeLogin hc hfree hname htest hret hdir hs
  | leave hc _ hkey hdir hs _ => exact .leave hc hkey (by rw [hdir]; exact Quiet.refl _) hs
  | userLeave hc _ hkey hdir hs _ =>
    exact .leave hc hkey (by rw [hdir]; exact quiet_setUserInfo s.dir _ .off) hs
  | nodeLeave hc _ hkey hdir hs _ => exact .nodeLeave hc hkey hdir hs

/-- The accounts that are there stay. -/
theorem names_grow {s s' : Server} {e : Event} (hs : chatNext s e = some s') {name : Bytes} (h : name ∈ s.dir.names) :
    name ∈ s'.dir.names := by
  have hchange := chatNext_change hs
  clear hs
  cases hchange with
  | quiet hdir _ | userLogin _ _ hdir _ | leave _ _ hdir _ => exact hdir.grows name h
  | connect hdir _ =>
    rw [hdir]
    exact h
  | nodeLogin _ _ _ _ _ hdir _ =>
    rw [hdir, names_setNodeInfo, names_insertNode]
    exact h
  | nodeLeave _ _ hdir _ =>
    rw [hdir, names_setNodeInfo]
    exact h

/-! ## 4. Sessions in every run -/

/-- The two flags agree; without them there are no names, with them the type is one of the two. -/
structure Session.Ok (x : Session) : Prop where
  flags : x.isvaliduser = x.isvalidnode
  names : x.isvaliduser = false → x.username = [] ∧ x.nodename = []
  type : x.isvaliduser = true → x.mynodeType = typeUser ∨ x.mynodeType = typeNode

/-- All of them. -/
def SessionsOk (s : Server) : Prop := ∀ x ∈ s.sessions, Session.Ok x.2

theorem SessionsOk.client {s : Server} (h : SessionsOk s) {id : Nat} {c : Client} (hc : s.client? id = some c) :
    Session.Ok c.toSession := h _ (List.mem_of_find?_eq_some (sessions_find hc))

/-- **An event keeps the sessions in order.** -/
theorem sessionsOk_step {s s' : Server} {e : Event} (h : SessionsOk s) (hs : chatNext s e = some s') :
    SessionsOk s' := by
  refine chatNext_sessions hs h ?_ ?_ ?_
  · intros
    exact ⟨rfl, fun _ => ⟨rfl, rfl⟩, fun hno => absurd hno Bool.false_ne_true⟩
  · intros
    exact ⟨rfl, fun hno => absurd hno Bool.true_eq_false.mp, fun _ => Or.inl rfl⟩
  · intros
    exact ⟨rfl, fun hno => absurd hno Bool.true_eq_false.mp, fun _ => Or.inr rfl⟩

/-- **In every run.** -/
theorem sessions_ok {rows : List UserRow} {ok : Server → Event → Prop} {s : Server}
    (h : Reaches chatNext ok (serverStart rows) s) : SessionsOk s :=
  Reaches.invariant SessionsOk (fun _ hx => absurd hx List.not_mem_nil)
    (fun _ _ _ hI _ hs => sessionsOk_step hI hs) h

/-- A client that is not logged in is no user. -/
theorem userName?_free {x : Session} (h : (x.isvaliduser || x.isvalidnode) = false) : x.userName? = none := by
  unfold Session.userName?
  rw [(Bool.or_eq_false_iff.mp h).1]
  rfl

/-- A client that is not logged in is no node. -/
theorem nodeKey_free {x : Session} (h : (x.isvaliduser || x.isvalidnode) = false) : x.nodeKey = none := by
  unfold Session.nodeKey
  rw [(Bool.or_eq_false_iff.mp h).1]
  rfl

/-! ## 5. A NODE is the node of an account -/

/-- Its account is registered. -/
def NodesKnown (s : Server) : Prop := ∀ x ∈ s.sessions, ∀ k, x.2.nodeKey = some k → k.1 ∈ s.dir.names

theorem nodeKey_asUser (x : Session) (username password : Bytes) : (x.asUser username password).nodeKey = none := rfl

theorem nodeKey_asNode (x : Session) (username userid nodename : Bytes) :
    (x.asNode username userid nodename).nodeKey = some (username, nodename) := rfl

theorem nodesKnown_step {s s' : Server} {e : Event} (h : NodesKnown s) (hs : chatNext s e = some s') :
    NodesKnown s' := by
  refine chatNext_sessions hs (fun x hx k hk => names_grow hs (h x hx k hk)) ?_ ?_ ?_
  · exact fun _ _ k hk => absurd hk (Option.some_ne_none _).symm
  · intro id c name password env _ _ _ k hk
    rw [nodeKey_asUser] at hk
    exact absurd hk (Option.some_ne_none _).symm
  · intro id c userid nodename username env _ _ hgrant k hk
    rw [nodeKey_asNode] at hk
    cases hk
    exact names_grow hs (getNameByUserid_mem (admitsNode_iff.mp hgrant).2.1)

/-- **In every run.** -/
theorem nodes_known {rows : List UserRow} {ok : Server → Event → Prop} {s : Server}
    (h : Reaches chatNext ok (serverStart rows) s) : NodesKnown s :=
  Reaches.invariant NodesKnown (fun _ hx => absurd hx List.not_mem_nil)
    (fun _ _ _ hI _ hs => nodesKnown_step hI hs) h

/-! ## 6. What a client's own step queues for it -/

/-- The client stays, and gets lines that meet `P`. -/
def Own (id : Nat) (P : Reply → Prop) (s s' : Server) : Prop :=
  ∀ c, s.client? id = some c → c.closing = false →
    ∃ c' rs, s'.client? id = some c' ∧ c'.closing = false ∧ c'.out = c.out ++ rs ∧ ∀ r ∈ rs, P r

section Own

variable {P : Reply → Prop} {id : Nat} {s s' s'' : Server}

theorem Own.refl (id : Nat) (P : Reply → Prop) (s : Server) : Own id P s s :=
  fun c hc hopen => ⟨c, [], hc, hopen, (List.append_nil _).symm, fun _ h => absurd h List.not_mem_nil⟩

theorem Own.trans (h : Own id P s s') (h' : Own id P s' s'') : Own id P s s'' := by
  intro c hc hopen
  obtain ⟨c₁, rs₁, hc₁, hopen₁, hout₁, hP₁⟩ := h c hc hopen
  obtain ⟨c₂, rs₂, hc₂, hopen₂, hout₂, hP₂⟩ := h' c₁ hc₁ hopen₁
  refine ⟨c₂, rs₁ ++ rs₂, hc₂, hopen₂, by rw [hout₂, hout₁, List.append_assoc], fun r hr => ?_⟩
  rcases List.mem_append.mp hr with hr | hr
  · exact hP₁ r hr
  · exact hP₂ r hr

theorem own_addReplies (s : Server) (id : Nat) {rs : List Reply} (h : ∀ r ∈ rs, P r) :
    Own id P s (s.addReplies id rs) :=
  fun _ hc hopen => ⟨_, rs, client?_addReplies hc hopen rs, hopen, rfl, h⟩

theorem own_addReplyString (s : Server) (id : Nat) {r : Reply} (h : P r) : Own id P s (s.addReplyString id r) :=
  show Own id P s (s.addReplies id [r]) from own_addReplies s id fun _ hr => List.mem_singleton.mp hr ▸ h

theorem own_setSession (s : Server) (id : Nat) (f : Session → Session) : Own id P s (s.setSession id f) :=
  fun _ hc hopen => ⟨_, [], client?_setSession hc f, hopen, (List.append_nil _).symm,
    fun _ h => absurd h List.not_mem_nil⟩

theorem own_withDir (s : Server) (id : Nat) (d : Directory) : Own id P s (s.withDir d) := Own.refl id P s

theorem own_chatSend (s : Server) (id : Nat) {tag source dest message : Bytes} {toType : UInt8}
    (h : P (chatLine tag source message)) : Own id P s (s.chatSend tag source dest message toType) := by
  intro c hc hopen
  have hc' := client?_chatSend s tag source dest message toType id
  rw [hc, Option.map_some] at hc'
  unfold Client.sendTo at hc'
  split at hc'
  · have hadd : c.addReplyString (chatLine tag source message) =
        { c with out := c.out ++ [chatLine tag source message] } := if_neg (by simp [hopen])
    rw [hadd] at hc'
    exact ⟨_, [chatLine tag source message], hc', hopen, rfl, fun _ hr => List.mem_singleton.mp hr ▸ h⟩
  · exact ⟨c, [], hc', hopen, (List.append_nil _).symm, fun _ h => absurd h List.not_mem_nil⟩

/-- A login that is refused. -/
theorem Refused.own {c : Client} (h : Refused s c s') (hP : ∀ r ∈ loginErrors, P r) : Own c.id P s s' := by
  cases h with
  | again r hr => exact own_addReplyString s c.id (hP r hr)
  | fail r hr _ => exact (own_addReplyString s c.id (hP r hr)).trans (own_setSession _ c.id _)

theorem own_getAllNodeInfo (s : Server) (id : Nat) (username : Bytes)
    (h : ∀ n : NodeInfo, P (reply (bytes "nodeinfo ok " ++ n.name ++ bytes " " ++ n.line.text ++ bytes "\r\n"))) :
    Own id P s (s.getAllNodeInfo id username) := by
  unfold Server.getAllNodeInfo
  split
  · exact Own.refl id P s
  · refine own_addReplies s id fun r hr => ?_
    obtain ⟨n, _, rfl⟩ := List.mem_map.mp hr
    exact h n

theorem own_chatUserInfo (s : Server) (id : Nat) (h : ∀ u ∈ s.dir.userInfo,
      P (reply (bytes "userinfo ok " ++ u.name ++ bytes " " ++ u.line.text ++ bytes "\r\n"))) :
    Own id P s (s.chatUserInfo id) := by
  refine own_addReplies s id fun r hr => ?_
  obtain ⟨u, hu, rfl⟩ := List.mem_map.mp hr
  exact h u hu

theorem own_myAddUser (s : Server) (c : Client) (userid username : Bytes) :
    Own c.id P s (s.myAddUser c userid username) := by
  unfold Server.myAddUser
  split
  · exact Own.refl c.id P s
  · exact own_withDir s c.id _

/-- A `chat login` that is accepted: the line it sends, the userid, the nodes and the accounts. -/
theorem own_admitUser (s : Server) (c : Client) (name password : Bytes)
    (hline : P (chatLine (bytes "userinfo") name (bytes "on")))
    (hlogin : ∀ userid, P (reply (bytes "login ok " ++ userid ++ bytes "\r\n")))
    (hnodes : ∀ n : NodeInfo, P (reply (bytes "nodeinfo ok " ++ n.name ++ bytes " " ++ n.line.text ++ bytes "\r\n")))
    (husers : ∀ u ∈ (s.dir.setUserInfo name .on).userInfo,
      P (reply (bytes "userinfo ok " ++ u.name ++ bytes " " ++ u.line.text ++ bytes "\r\n"))) :
    Own c.id P s (s.admitUser c name password) := by
  unfold Server.admitUser
  extract_lets s₁ s₂ s₃ s₄ userid s₅ s₆
  have hdir : s₆.dir = s.dir.setUserInfo name .on := by
    have h₆ : Replies s₅ s₆ := replies_getAllNodeInfo s₅ c.id name
    rw [h₆.dir]
    rfl
  have h₁ : Own c.id P s s₁ := own_setSession s c.id _
  have h₂ : Own c.id P s₁ s₂ := own_withDir s₁ c.id _
  have h₃ : Own c.id P s₂ s₃ := own_chatSend s₂ c.id hline
  have h₄ : Own c.id P s₃ s₄ := own_setSession s₃ c.id _
  have h₅ : Own c.id P s₄ s₅ := own_addReplyString s₄ c.id (hlogin userid)
  have h₆ : Own c.id P s₅ s₆ := own_getAllNodeInfo s₅ c.id name hnodes
  have h₇ : Own c.id P s₆ (s₆.chatUserInfo c.id) := own_chatUserInfo s₆ c.id (hdir ▸ husers)
  exact h₁.trans (h₂.trans (h₃.trans (h₄.trans (h₅.trans (h₆.trans h₇)))))

/-- A `node login` that is accepted. -/
theorem own_admitNode (s : Server) (c : Client) (username userid nodename : Bytes)
    (hline : P (chatLine (bytes "nodeinfo") nodename (bytes "on")))
    (hlogin : P (reply (bytes "login ok " ++ username ++ bytes "\r\n"))) :
    Own c.id P s (s.admitNode c username userid nodename) := by
  unfold Server.admitNode
  extract_lets s₁ s₂ s₃ s₄
  have h₁ : Own c.id P s s₁ := own_addReplyString s c.id hlogin
  have h₂ : Own c.id P s₁ s₂ := own_setSession s₁ c.id _
  have h₃ : Own c.id P s₂ s₃ := own_setSession s₂ c.id _
  have h₄ : Own c.id P s₃ s₄ := own_chatSend s₃ c.id hline
  exact h₁.trans (h₂.trans (h₃.trans (h₄.trans (own_withDir s₄ c.id _))))

end Own

end SmartHome.Chat
