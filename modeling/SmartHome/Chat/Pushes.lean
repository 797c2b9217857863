/-
  Subject:   THE LINES OF THE CHAT MODULE, and that there are no others.

  A client of the server has to understand what it is sent, so here is the list: the outcome of a login,
  what is said, who comes and goes, who there is, and the error lines. Some are queued for the client
  whose command it is, the others go through `_chatSend` to whoever they are for. Besides them a client
  gets what it asks for with `register` and, if its name is root, with `chat debug`.

  * `Push`, `Push.reply` -- a line, and the call of `addReplyString` it comes to;
  * `Send.Kind`, `sends_kind` -- what `_chatSend` is called with;
  * `own_does` -- what a command queues for its own client;
  * **`queued_pushes`** -- whatever happens, what is queued for a client is such a line.
-/
import SmartHome.Chat.Overheard

namespace SmartHome.Chat

open SmartHome.Lib

/-! ## 1. The lines -/

/-- Why a login fails. -/
inductive LoginError where
  | alreadyLogin
  | wrongNameOrPwd
  | tooManyNodes
  deriving DecidableEq

/-- Why nothing is said. -/
inductive ChatError where
  | invalidUser
  | tooBigMsg
  deriving DecidableEq

/-- A line of the chat module. A state is told by `_chatSend` when it changes, and by `chatUserInfo` and
    `getAllNodeInfo` when a user comes in. -/
inductive Push where
  | loginOk (userid : Bytes)
  | loginFail (why : LoginError)
  | chatOk (source message : Bytes)
  | chatFail (why : ChatError)
  | nodeOk (source message : Bytes)
  | nodeFail
  | userinfo (name : Bytes) (line : Line)
  | userListed (name : Bytes) (line : Line)
  | nodeinfo (name : Bytes) (line : Line)
  | nodeListed (name : Bytes) (line : Line)
  deriving DecidableEq

/-- What `addReplyString` is given for it. -/
def Push.reply : Push → Reply
  | .loginOk userid => Chat.reply (bytes "login ok " ++ userid ++ bytes "\r\n")
  | .loginFail .alreadyLogin => errAlreadyLogin
  | .loginFail .wrongNameOrPwd => errWrongNameOrPwd
  | .loginFail .tooManyNodes => errTooManyNodes
  | .chatOk source message => chatLine (bytes "chat") source message
  | .chatFail .invalidUser => errChatInvalidUser
  | .chatFail .tooBigMsg => errChatTooBigMsg
  | .nodeOk source message => chatLine (bytes "node") source message
  | .nodeFail => errNodeNoLogin
  | .userinfo name line => chatLine (bytes "userinfo") name line.text
  | .userListed name line => Chat.reply (bytes "userinfo ok " ++ name ++ bytes " " ++ line.text ++ bytes "\r\n")
  | .nodeinfo name line => chatLine (bytes "nodeinfo") name line.text
  | .nodeListed name line => Chat.reply (bytes "nodeinfo ok " ++ name ++ bytes " " ++ line.text ++ bytes "\r\n")

/-- A line of `_chatSend` has room for its length exactly if its parts have at most 1016 bytes. -/
theorem chatLine_stored {tag source message : Bytes} :
    (chatLine tag source message).len ≤ (chatLine tag source message).text.length ↔
      tag.length + source.length + message.length ≤ 1016 := by
  have hok : (bytes " ok ").length = 4 := by decide
  have hblank : (bytes " ").length = 1 := by decide
  have hend : (bytes "\r\n").length = 2 := by decide
  unfold chatLine
  simp only [List.length_take, List.length_append, hok, hblank, hend]
  omega

/-- It is then the whole line. -/
theorem chatLine_whole {tag source message : Bytes}
    (h : (chatLine tag source message).len ≤ (chatLine tag source message).text.length) :
    chatLine tag source message = reply (tag ++ bytes " ok " ++ source ++ bytes " " ++ message ++ bytes "\r\n") := by
  have hshort : (tag ++ bytes " ok " ++ source ++ bytes " " ++ message ++ bytes "\r\n").length ≤ 1023 :=
    Nat.le_trans h (List.length_take_le 1023 _)
  exact congrArg (fun text => (⟨text, _⟩ : Reply)) (List.take_of_length_le hshort)

/-- The lines that do not go through `_chatSend`. -/
def Push.Direct : Push → Prop
  | .loginOk _ | .loginFail _ | .chatFail _ | .nodeFail | .userListed _ _ | .nodeListed _ _ => True
  | .chatOk _ _ | .nodeOk _ _ | .userinfo _ _ | .nodeinfo _ _ => False

/-- Commands with lines of their own. -/
def Command.Other : Command → Prop
  | .chat argv1 _ _ => argv1 = bytes "debug"
  | .node _ _ _ => False
  | .register _ _ _ _ _ => True

/-! ## 2. What `_chatSend` is called with -/

inductive Send.Kind : Send → Prop where
  | userinfo (name dest : Bytes) (line : Line) (toType : UInt8) :
      Send.Kind ⟨bytes "userinfo", name, dest, line.text, toType⟩
  | nodeinfo (name dest : Bytes) (line : Line) (toType : UInt8) :
      Send.Kind ⟨bytes "nodeinfo", name, dest, line.text, toType⟩
  | chat (source dest message : Bytes) (toType : UInt8) (hshort : message.length ≤ 70) :
      Send.Kind ⟨bytes "chat", source, dest, message, toType⟩
  | node (source dest message : Bytes) (toType : UInt8) : Send.Kind ⟨bytes "node", source, dest, message, toType⟩

theorem sends_kind {s : Server} {e : Event} {x : Send} (hx : s.sends e = some x) : x.Kind := by
  cases e with
  | connect | quit => exact absurd hx (Option.some_ne_none x).symm
  | free id =>
    obtain ⟨c, _, hleave⟩ := Option.bind_eq_some_iff.mp hx
    unfold Session.leaveSend at hleave
    obtain ⟨_, hleave⟩ := Option.ite_none_left_eq_some.mp hleave
    split at hleave
    · cases hleave
      exact .userinfo c.username (bytes "all") .off typeUser
    · obtain ⟨_, hleave⟩ := Option.ite_none_right_eq_some.mp hleave
      cases hleave
      exact .nodeinfo c.nodename c.username .off typeUser
  | command id cmd env =>
    obtain ⟨c, _, hif⟩ := Option.bind_eq_some_iff.mp hx
    have hsend := (Option.ite_none_left_eq_some.mp hif).2
    have hdoes := exec_does s c env cmd
    rw [hsend] at hdoes
    generalize s.exec c env cmd = s' at hdoes
    generalize hy : some x = y at hdoes
    cases hdoes with
    | chatLogin name password =>
      obtain ⟨_, hy⟩ := Option.ite_none_right_eq_some.mp hy.symm
      cases hy
      exact .userinfo name (bytes "all") .on typeUser
    | chatSay dest message _ =>
      obtain ⟨_, hy⟩ := Option.ite_none_left_eq_some.mp hy.symm
      obtain ⟨hshort, hy⟩ := Option.ite_none_left_eq_some.mp hy
      cases hy
      exact .chat c.username dest message typeUser (Nat.le_of_not_lt hshort)
    | nodeLogin userid nodename =>
      obtain ⟨username, _, rfl⟩ := Option.map_eq_some_iff.mp hy.symm
      exact .nodeinfo nodename username .on typeUser
    | nodeSay dest message _ =>
      unfold Session.saySend at hy
      split at hy
      · cases hy
        exact .node c.username dest message typeNode
      · obtain ⟨_, hy⟩ := Option.ite_none_right_eq_some.mp hy.symm
        cases hy
        exact .node c.nodename c.username message typeUser
    | _ => cases hy

/-- It is one of the lines. -/
theorem Send.Kind.push {x : Send} (h : x.Kind) : ∃ p : Push, chatLine x.tag x.source x.message = p.reply := by
  cases h with
  | userinfo name _ line _ => exact ⟨.userinfo name line, rfl⟩
  | nodeinfo name _ line _ => exact ⟨.nodeinfo name line, rfl⟩
  | chat source _ message _ _ => exact ⟨.chatOk source message, rfl⟩
  | node source _ message _ => exact ⟨.nodeOk source message, rfl⟩

/-! ## 3. What a command queues for its own client -/

section Own

variable {s : Server} {c : Client} {P : Reply → Prop}

theorem reply_loginErrors (hpush : ∀ p : Push, p.Direct → P p.reply) (r : Reply) (hr : r ∈ loginErrors) : P r := by
  unfold loginErrors at hr
  simp only [List.mem_cons, List.not_mem_nil, or_false] at hr
  rcases hr with rfl | rfl | rfl
  · exact hpush (.loginFail .alreadyLogin) trivial
  · exact hpush (.loginFail .wrongNameOrPwd) trivial
  · exact hpush (.loginFail .tooManyNodes) trivial

theorem reply_registerErrors (hreply : ∀ text, P (reply text)) (r : Reply) (hr : r ∈ registerErrors) : P r := by
  unfold registerErrors at hr
  simp only [List.mem_cons, List.not_mem_nil, or_false] at hr
  rcases hr with rfl | rfl | rfl | rfl <;> exact hreply _

theorem own_debug (hreply : ∀ text, P (reply text)) (env : Env) : Own c.id P s (s.myDebugEntry c env) := by
  unfold Server.myDebugEntry
  split
  · exact Own.refl c.id P s
  · refine (own_addReplies s c.id fun r hr => ?_).trans (own_addReplies _ c.id fun r hr => ?_)
    · rcases List.mem_cons.mp hr with rfl | hr
      · exact hreply _
      · obtain ⟨n, _, rfl⟩ := List.mem_map.mp hr
        exact hreply _
    · obtain ⟨u, _, hr⟩ := List.mem_flatMap.mp hr
      rcases List.mem_cons.mp hr with rfl | hr
      · exact hreply _
      · obtain ⟨n, _, rfl⟩ := List.mem_map.mp hr
        exact hreply _

/-- **What a command queues for its own client** is a line of the chat module that does not go through
    `_chatSend`, the line that does, or a text of `register` or `chat debug` with its `strlen`. -/
theorem own_does {env : Env} {cmd : Command} {x : Option Send} {s' : Server} (h : Does s c env cmd x s')
    (hpush : ∀ p : Push, p.Direct → P p.reply) (hother : cmd.Other → ∀ text, P (reply text))
    (hline : ∀ y, x = some y → P (chatLine y.tag y.source y.message)) : Own c.id P s s' := by
  cases h with
  | chatLogin name password =>
    cases hgrant : s.admitsUser c name password env with
    | false => exact (chatLogin_refused hgrant).own (reply_loginErrors hpush)
    | true =>
      rw [chatLogin_admitted hgrant]
      refine own_admitUser s c name password (hline ⟨bytes "userinfo", name, bytes "all", bytes "on", typeUser⟩ ?_)
        (fun userid => hpush (.loginOk userid) trivial) (fun n => hpush (.nodeListed n.name n.line) trivial)
        (fun u _ => hpush (.userListed u.name u.line) trivial)
      unfold Server.userSend
      rw [if_pos hgrant]
  | chatSay dest message hin =>
    unfold Session.chatSend at hline
    unfold Server.chatSay
    split
    · exact own_addReplyString s c.id (hpush (.chatFail .invalidUser) trivial)
    · split
      · exact own_addReplyString s c.id (hpush (.chatFail .tooBigMsg) trivial)
      · rename_i hout hbig
        rw [if_neg hout, if_neg hbig] at hline
        exact own_chatSend s c.id (hline _ rfl)
  | nodeLogin userid nodename =>
    cases hgrant : s.admitsNode c userid nodename with
    | none => exact (nodeLogin_refused hgrant).own (reply_loginErrors hpush)
    | some username =>
      rw [nodeLogin_admitted hgrant]
      refine (own_withDir s c.id _).trans (own_admitNode _ c username userid nodename
        (hline ⟨bytes "nodeinfo", nodename, username, bytes "on", typeUser⟩ ?_) (hpush (.loginOk username) trivial))
      unfold Server.nodeSend
      rw [hgrant, Option.map_some]
  | nodeSay dest message _ =>
    unfold Session.saySend at hline
    unfold Server.nodeSay
    split
    · rename_i huser
      rw [if_pos huser] at hline
      exact own_chatSend s c.id (hline _ rfl)
    · rename_i huser
      rw [if_neg huser] at hline
      split
      · rename_i hnode
        rw [if_pos hnode] at hline
        exact own_chatSend s c.id (hline _ rfl)
      · exact Own.refl c.id P s
  | chatNologin _ _ _ _ _ => exact own_addReplyString s c.id (hpush .nodeFail trivial)
  | chatUserInfo _ _ _ => exact own_chatUserInfo s c.id fun u _ => hpush (.userListed u.name u.line) trivial
  | chatDebug _ _ _ => exact own_debug (hother rfl) env
  | chatAdduser userid username _ => exact own_myAddUser s c userid username
  | chatOther _ _ _ _ _ => exact Own.refl c.id P s
  | nodeNologin _ _ _ _ _ => exact own_addReplyString s c.id (hpush .nodeFail trivial)
  | nodeOther _ _ _ _ _ => exact Own.refl c.id P s
  | registerFail _ _ _ _ _ r hr => exact own_addReplyString s c.id (reply_registerErrors (hother trivial) r hr)
  | registerGetuserid _ _ _ _ _ _ => exact own_addReplyString s c.id (hother trivial _)
  | registerAdduser _ _ _ _ _ _ => exact (own_addReplyString s c.id (hother trivial _)).trans (own_withDir _ c.id _)
  | registerOther _ _ _ _ _ _ => exact Own.refl c.id P s

end Own

/-! ## 4. What anybody gets -/

theorem removeClient_gone (s : Server) (id : Nat) : (s.removeClient id).client? id = none := by
  have hgone := find?_eraseP_key s.distinct id
  exact hgone

/-- What hearing a line adds to the queue. -/
theorem hear_queue (d : Client) (x : Send) :
    (d.hear x).out = d.out ∨ (d.hear x).out = d.out ++ [chatLine x.tag x.source x.message] := by
  unfold Client.hear Client.sendTo Client.addReplyString
  split
  · split
    · exact .inl rfl
    · exact .inr rfl
  · exact .inl rfl

/-- Some replies are queued, each with a property. -/
def Queued (P : Reply → Prop) (d d' : Client) : Prop := ∃ rs, d'.out = d.out ++ rs ∧ ∀ r ∈ rs, P r

theorem Queued.nothing {P : Reply → Prop} {d d' : Client} (h : d'.out = d.out) : Queued P d d' :=
  ⟨[], h.trans (List.append_nil _).symm, fun _ hr => absurd hr List.not_mem_nil⟩

theorem Queued.one {P : Reply → Prop} {d d' : Client} {r : Reply} (h : d'.out = d.out ++ [r]) (hr : P r) :
    Queued P d d' := ⟨[r], h, fun _ hmem => List.mem_singleton.mp hmem ▸ hr⟩

/-- What is queued for somebody else is the line of the step. -/
theorem queued_other {s s' : Server} {e : Event} (hs : chatNext s e = some s') {i : Nat} {d d' : Client}
    (hd : s.client? i = some d) (hd' : s'.client? i = some d') (hi : e.client ≠ some i) :
    Queued (fun r => ∃ x, s.sends e = some x ∧ r = chatLine x.tag x.source x.message) d d' := by
  cases (others_hear hs hd hi).symm.trans hd'
  cases hx : s.sends e with
  | none => exact .nothing rfl
  | some x =>
    rcases hear_queue d x with hout | hout
    · exact .nothing hout
    · exact .one hout ⟨x, rfl, rfl⟩

/-- What a command queues for its own client. -/
theorem queued_own {s s' : Server} {i : Nat} {cmd : Command} {env : Env}
    (hs : chatNext s (.command i cmd env) = some s') {d d' : Client} (hd : s.client? i = some d)
    (hd' : s'.client? i = some d') :
    Queued (fun r => (∃ x, s.sends (.command i cmd env) = some x ∧ r = chatLine x.tag x.source x.message) ∨
      (∃ p : Push, p.Direct ∧ r = p.reply) ∨ cmd.Other ∧ r = reply r.text) d d' := by
  obtain ⟨c, hc, hif⟩ := Option.bind_eq_some_iff.mp hs
  cases hc.symm.trans hd
  obtain ⟨hopen, hexec⟩ := Option.ite_none_left_eq_some.mp hif
  have hopen : d.closing = false := by simpa using hopen
  cases hexec
  have hsend := sends_command hd hopen cmd env
  obtain rfl : d.id = i := client?_id hd
  obtain ⟨c', rs, hc', _, hout, hP⟩ := own_does (P := fun r =>
      (∃ x, s.sends (.command d.id cmd env) = some x ∧ r = chatLine x.tag x.source x.message) ∨
        (∃ p : Push, p.Direct ∧ r = p.reply) ∨ cmd.Other ∧ r = reply r.text) (exec_does s d env cmd)
    (fun p hp => .inr (.inl ⟨p, hp, rfl⟩)) (fun h _ => .inr (.inr ⟨h, rfl⟩))
    (fun y hy => .inl ⟨y, hsend.trans hy, rfl⟩) d hd hopen
  cases hc'.symm.trans hd'
  exact ⟨rs, hout, hP⟩

/-- **There are no other lines**: whatever happens, what it queues for a client is a line of the chat
    module, unless the client itself asked for something with `register` or `chat debug` or is closed
    with a last reply. -/
theorem queued_pushes {s s' : Server} {e : Event} (hs : chatNext s e = some s') {i : Nat} {d d' : Client}
    (hd : s.client? i = some d) (hd' : s'.client? i = some d') :
    Queued (fun r => (∃ p : Push, r = p.reply) ∨ (∃ last, e = .quit i last) ∨
      ∃ cmd env, e = .command i cmd env ∧ cmd.Other) d d' := by
  by_cases hi : e.client = some i
  · cases e with
    | connect type => exact absurd hi (Option.some_ne_none i).symm
    | quit id last =>
      cases hi
      obtain ⟨c, hc, hif⟩ := Option.bind_eq_some_iff.mp hs
      cases hc.symm.trans hd
      obtain ⟨hopen, hexec⟩ := Option.ite_none_left_eq_some.mp hif
      have hopen : d.closing = false := by simpa using hopen
      cases hexec
      have hadd := client?_addReplyString hd hopen last
      cases (client?_modify hadd (f := fun c : Client => { c with closing := true }) (fun _ => rfl) _).symm.trans hd'
      exact .one rfl (.inr (.inl ⟨last, rfl⟩))
    | free id =>
      cases hi
      obtain ⟨c, hc, rfl⟩ := Option.map_eq_some_iff.mp hs
      obtain rfl : c.id = i := client?_id hc
      exact absurd ((removeClient_gone _ _).symm.trans hd') (Option.some_ne_none d').symm
    | command id cmd env =>
      cases hi
      obtain ⟨rs, hout, hrs⟩ := queued_own hs hd hd'
      refine ⟨rs, hout, fun r hr => ?_⟩
      rcases hrs r hr with ⟨x, hx, rfl⟩ | ⟨p, _, rfl⟩ | ⟨hother, _⟩
      · exact .inl (sends_kind hx).push
      · exact .inl ⟨p, rfl⟩
      · exact .inr (.inr ⟨cmd, env, rfl, hother⟩)
  · obtain ⟨rs, hout, hrs⟩ := queued_other hs hd hd' hi
    refine ⟨rs, hout, fun r hr => ?_⟩
    obtain ⟨x, hx, rfl⟩ := hrs r hr
    exact .inl (sends_kind hx).push

end SmartHome.Chat
