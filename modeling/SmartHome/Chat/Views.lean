/-
  Subject:   WHAT A USER KNOWS OF THE OTHERS: the lines it was sent and the directory.

  A user who logs in gets a line for every account, and from then on one for every user who comes or
  goes. Replaying them gives the user's view of who is on line. The first lines carry the registered
  names, the later ones the names as they were spelled at the login. So when Alice comes in as `Alice`,
  the others go on believing that `alice` is off line, and learn of somebody new.

  * `userinfoLine?`, `Client.view` -- reading the lines; `Viewed` -- where each client's lines begin;
  * `Tells`, `Agrees` -- a line, a view that says what the directory says;
  * `SpeltAsRegistered` -- accepted logins use the registered names;
  * **`views_agree`** -- then every view agrees with the directory, in every state;
    `otherSpelling_two` -- a view that does not, with one account under two names.
-/
import SmartHome.Chat.UserPresence
import Mathlib.Logic.Function.Basic

namespace SmartHome.Chat

open SmartHome.Lib

/-! ## 1. Reading a line -/

/-- What follows a given beginning. -/
def dropStart (p t : Bytes) : Option Bytes := if t.take p.length = p then some (t.drop p.length) else none

/-- What precedes a given end. -/
def dropEnd (p t : Bytes) : Option Bytes :=
  if t.drop (t.length - p.length) = p then some (t.take (t.length - p.length)) else none

theorem dropStart_append (p t : Bytes) : dropStart p (p ++ t) = some t := by
  unfold dropStart
  rw [List.take_left, if_pos rfl, List.drop_left]

theorem dropEnd_append (p t : Bytes) : dropEnd p (t ++ p) = some t := by
  unfold dropEnd
  rw [List.length_append, Nat.add_sub_cancel, List.drop_left, if_pos rfl, List.take_left]

/-- The line that announces the state of a user. -/
def userinfoLine? (r : Reply) : Option (Bytes × Line) :=
  (dropStart (bytes "userinfo ok ") r.text).bind fun body =>
    match dropEnd (bytes " on\r\n") body with
    | some name => some (name, .on)
    | none => (dropEnd (bytes " off\r\n") body).map fun name => (name, .off)

/-- An announcement is read as it was written. -/
theorem userinfoLine?_text (name : Bytes) (line : Line) (n : Nat) :
    userinfoLine? ⟨bytes "userinfo ok " ++ name ++ bytes " " ++ line.text ++ bytes "\r\n", n⟩ = some (name, line) := by
  have hbody : bytes "userinfo ok " ++ name ++ bytes " " ++ line.text ++ bytes "\r\n" =
      bytes "userinfo ok " ++ (name ++ (bytes " " ++ line.text ++ bytes "\r\n")) := by
    simp only [List.append_assoc]
  unfold userinfoLine?
  simp only [hbody, dropStart_append, Option.bind_some]
  cases line with
  | on =>
    rw [show bytes " " ++ Line.on.text ++ bytes "\r\n" = bytes " on\r\n" by decide, dropEnd_append]
  | off =>
    rw [show bytes " " ++ Line.off.text ++ bytes "\r\n" = bytes " off\r\n" by decide]
    have hon : dropEnd (bytes " on\r\n") (name ++ bytes " off\r\n") = none := by
      have hlen : (name ++ bytes " off\r\n").length - (bytes " on\r\n").length = name.length + 1 := by
        rw [List.length_append, show (bytes " off\r\n").length = 6 by decide,
          show (bytes " on\r\n").length = 5 by decide]
        omega
      unfold dropEnd
      rw [hlen, ← List.drop_drop, List.drop_left, if_neg (by decide)]
    rw [hon]
    show (dropEnd (bytes " off\r\n") (name ++ bytes " off\r\n")).map _ = _
    rw [dropEnd_append]
    rfl

/-- A line that begins otherwise announces no user. -/
theorem userinfoLine?_none {lit : Bytes} (hlen : 5 ≤ lit.length) (hne : lit.take 5 ≠ bytes "useri") (rest : Bytes)
    (n : Nat) : userinfoLine? ⟨lit ++ rest, n⟩ = none := by
  unfold userinfoLine?
  have hstart : dropStart (bytes "userinfo ok ") (lit ++ rest) = none := by
    refine if_neg fun heq => hne ?_
    have hfive := congrArg (List.take 5) heq
    rw [List.take_take, show min 5 (bytes "userinfo ok ").length = 5 by decide,
      List.take_append_of_le_length hlen] at hfive
    exact hfive
  simp only [hstart, Option.bind_none]

/-- The lines of `_chatSend` that are no announcement of a user. -/
theorem userinfoLine?_chatLine_none {tag : Bytes} (htag : tag ∈ [bytes "chat", bytes "node", bytes "nodeinfo"])
    (source message : Bytes) : userinfoLine? (chatLine tag source message) = none := by
  have hlit : 5 ≤ (tag ++ bytes " ok ").length ∧ (tag ++ bytes " ok ").length ≤ 1023 ∧
      (tag ++ bytes " ok ").take 5 ≠ bytes "useri" := by
    simp only [List.mem_cons, List.not_mem_nil, or_false] at htag
    rcases htag with rfl | rfl | rfl <;> decide
  obtain ⟨hlen, hcut, hne⟩ := hlit
  have htext : (chatLine tag source message).text = (tag ++ bytes " ok ") ++
      (source ++ bytes " " ++ message ++ bytes "\r\n").take (1023 - (tag ++ bytes " ok ").length) := by
    unfold chatLine
    show ((tag ++ bytes " ok ") ++ source ++ bytes " " ++ message ++ bytes "\r\n").take 1023 = _
    simp only [List.append_assoc]
    rw [← List.append_assoc tag, List.take_append, List.take_of_length_le hcut, List.append_assoc]
  have hnone := userinfoLine?_none hlen hne
    ((source ++ bytes " " ++ message ++ bytes "\r\n").take (1023 - (tag ++ bytes " ok ").length))
    (chatLine tag source message).len
  rw [← htext] at hnone
  exact hnone

/-- The announcement of a user, if it is not cut. -/
theorem userinfoLine?_chatLine {name : Bytes} (hlen : name.length < 256) (line : Line) :
    userinfoLine? (chatLine (bytes "userinfo") name line.text) = some (name, line) := by
  have htext : (chatLine (bytes "userinfo") name line.text).text =
      bytes "userinfo ok " ++ name ++ bytes " " ++ line.text ++ bytes "\r\n" := by
    unfold chatLine
    show (bytes "userinfo" ++ bytes " ok " ++ name ++ bytes " " ++ line.text ++ bytes "\r\n").take 1023 = _
    rw [show bytes "userinfo" ++ bytes " ok " = bytes "userinfo ok " by decide]
    refine List.take_of_length_le ?_
    have hstart : (bytes "userinfo ok ").length = 12 := by decide
    have hblank : (bytes " ").length = 1 := by decide
    have hend : (bytes "\r\n").length = 2 := by decide
    have hline : line.text.length ≤ 3 := by
      cases line with
      | on | off => decide
    simp only [List.length_append, hstart, hblank, hend]
    omega
  have hread := userinfoLine?_text name line (chatLine (bytes "userinfo") name line.text).len
  rw [← htext] at hread
  exact hread

/-! ## 2. Views -/

/-- What a user knows: of some names, whether they are on line. -/
abbrev View := Bytes → Option Line

/-- One more line. -/
def View.read (v : View) (r : Reply) : View :=
  match userinfoLine? r with
  | none => v
  | some (name, line) => Function.update v name (some line)

/-- The view of a client whose lines count from `mark` on. -/
def Client.view (w : Client) (mark : Nat) : View := (w.out.drop mark).foldl View.read fun _ => none

/-- **The view says what the directory says**, under registered names. -/
def Agrees (d : Directory) (v : View) : Prop :=
  ∀ name line, v name = some line → name ∈ d.names ∧ d.getUserInfo name = some line

/-- The line says what the directory says. -/
def Tells (d : Directory) (r : Reply) : Prop :=
  ∀ name line, userinfoLine? r = some (name, line) → name ∈ d.names ∧ d.getUserInfo name = some line

theorem tells_none {d : Directory} {r : Reply} (h : userinfoLine? r = none) : Tells d r :=
  fun _ _ hline => absurd (h.symm.trans hline) (Option.some_ne_none _).symm

theorem Agrees.read {d : Directory} {v : View} {r : Reply} (h : Agrees d v) (hr : Tells d r) :
    Agrees d (v.read r) := by
  intro name line hname
  unfold View.read at hname
  cases hread : userinfoLine? r with
  | none =>
    rw [hread] at hname
    exact h name line hname
  | some x =>
    obtain ⟨name', line'⟩ := x
    simp only [hread] at hname
    by_cases heq : name = name'
    · subst heq
      rw [Function.update_self] at hname
      cases hname
      exact hr name line hread
    · rw [Function.update_of_ne heq] at hname
      exact h name line hname

theorem Agrees.reads {d : Directory} {rs : List Reply} {v : View} (h : Agrees d v) (hrs : ∀ r ∈ rs, Tells d r) :
    Agrees d (rs.foldl View.read v) := by
  induction rs generalizing v with
  | nil => exact h
  | cons r rs ih =>
    exact ih (h.read (hrs r List.mem_cons_self)) fun r' hr' => hrs r' (List.mem_cons_of_mem r hr')

theorem agrees_empty (d : Directory) : Agrees d fun _ => none :=
  fun _ _ h => absurd h (Option.some_ne_none _).symm

/-- More lines. -/
theorem view_append {c c' : Client} {rs : List Reply} {mark : Nat} (hmark : mark ≤ c.out.length)
    (hout : c'.out = c.out ++ rs) : c'.view mark = rs.foldl View.read (c.view mark) := by
  unfold Client.view
  rw [hout, List.drop_append_of_le_length hmark, List.foldl_append]

/-- Accounts are added, the lines of the others stay. -/
theorem Agrees.same {d d' : Directory} {v : View} (h : Agrees d v) (hnames : ∀ name ∈ d.names, name ∈ d'.names)
    (hlines : SameLines d d') : Agrees d' v := by
  intro name line hname
  obtain ⟨hmem, hline⟩ := h name line hname
  exact ⟨hnames name hmem, hlines.kept (lower name) line hline⟩

/-- The line of a registered name after it was set. -/
theorem getUserInfo_setUserInfo {d : Directory} {name : Bytes} (h : name ∈ d.names) (line : Line) :
    (d.setUserInfo name line).getUserInfo name = some line := by
  obtain ⟨u, hu, _⟩ := dictFetchValue_of_name h
  rw [← lineAt_lower, lineAt_setUserInfo, lineAt_lower]
  unfold Directory.getUserInfo
  rw [hu]
  rfl

theorem getUserInfo_setUserInfo_ne {d : Directory} {name name' : Bytes} (h : name ∈ d.names)
    (h' : name' ∈ d.names) (hne : name' ≠ name) (line : Line) :
    (d.setUserInfo name line).getUserInfo name' = d.getUserInfo name' := by
  rw [← lineAt_lower, ← lineAt_lower]
  exact lineAt_setUserInfo_ne d line fun heq => hne (names_inj h' h heq)

/-- **An announcement under the registered name keeps a view right.** -/
theorem Agrees.announce {d : Directory} {v : View} (h : Agrees d v) {name : Bytes} (hname : name ∈ d.names)
    (hlen : name.length < 256) (line : Line) :
    Agrees (d.setUserInfo name line) (v.read (chatLine (bytes "userinfo") name line.text)) := by
  unfold View.read
  rw [userinfoLine?_chatLine hlen]
  intro name' line' hview
  rw [names_setUserInfo]
  by_cases heq : name' = name
  · subst heq
    simp only [Function.update_self] at hview
    cases hview
    exact ⟨hname, getUserInfo_setUserInfo hname line⟩
  · simp only [Function.update_of_ne heq] at hview
    obtain ⟨hmem, hline⟩ := h name' line' hview
    exact ⟨hmem, (getUserInfo_setUserInfo_ne hname hmem heq line).trans hline⟩

/-! ## 3. What a client's own step queues for it -/

section Commands

variable (s : Server) (c : Client) {d : Directory}

/-- A line that begins otherwise. -/
theorem tells_start (lit : Bytes) {t : Bytes} {n : Nat} (hstart : lit <+: t) (hlen : 5 ≤ lit.length)
    (hne : lit.take 5 ≠ bytes "useri") : Tells d ⟨t, n⟩ := by
  obtain ⟨rest, rfl⟩ := hstart
  exact tells_none (userinfoLine?_none hlen hne rest n)

/-- The lines of `chat userinfo`. -/
theorem tells_chatUserInfo {u : NodeUserInfo} (hu : u ∈ d.userInfo) :
    Tells d (reply (bytes "userinfo ok " ++ u.name ++ bytes " " ++ u.line.text ++ bytes "\r\n")) := by
  intro name line hread
  unfold reply at hread
  rw [userinfoLine?_text] at hread
  cases hread
  exact ⟨List.mem_map_of_mem hu, lineAt_of_mem hu⟩

theorem own_myDebugEntry (env : Env) : Own c.id (Tells d) s (s.myDebugEntry c env) := by
  unfold Server.myDebugEntry
  split
  · exact Own.refl c.id _ s
  · refine (own_addReplies s c.id fun r hr => ?_).trans (own_addReplies _ c.id fun r hr => ?_)
    · rcases List.mem_cons.mp hr with rfl | hr
      · exact tells_start (bytes " total ") (by simp) (by decide) (by decide)
      · obtain ⟨n, _, rfl⟩ := List.mem_map.mp hr
        exact tells_start (bytes "type:") (by simp) (by decide) (by decide)
    · obtain ⟨u, _, hr⟩ := List.mem_flatMap.mp hr
      rcases List.mem_cons.mp hr with rfl | hr
      · exact tells_start (bytes "username : ") (by simp) (by decide) (by decide)
      · obtain ⟨n, _, rfl⟩ := List.mem_map.mp hr
        exact tells_start (bytes "-----nodename : ") (by simp) (by decide) (by decide)

theorem tells_loginErrors (r : Reply) (hr : r ∈ loginErrors) : Tells d r := by
  unfold loginErrors at hr
  simp only [List.mem_cons, List.not_mem_nil, or_false] at hr
  rcases hr with rfl | rfl | rfl <;> exact tells_none (by decide)

/-- Lines that announce no user. -/
theorem tells_chatLine {tag : Bytes} (htag : tag ∈ [bytes "chat", bytes "node", bytes "nodeinfo"])
    (source message : Bytes) : Tells d (chatLine tag source message) :=
  tells_none (userinfoLine?_chatLine_none htag source message)

/-- `node login`. -/
theorem own_nodeLogin (userid nodename : Bytes) : Own c.id (Tells d) s (s.nodeLogin c userid nodename) := by
  cases hgrant : s.admitsNode c userid nodename with
  | none => exact (nodeLogin_refused hgrant).own tells_loginErrors
  | some username =>
    rw [nodeLogin_admitted hgrant]
    exact own_admitNode _ c username userid nodename (tells_chatLine (by decide) nodename (bytes "on"))
      (tells_start (bytes "login ok ") (by simp) (by decide) (by decide))

/-- `node say`. -/
theorem own_nodeSay (dest message : Bytes) : Own c.id (Tells d) s (s.nodeSay c dest message) := by
  unfold Server.nodeSay
  split
  · exact own_chatSend s c.id (tells_chatLine (by decide) _ _)
  · split
    · exact own_chatSend s c.id (tells_chatLine (by decide) _ _)
    · exact Own.refl c.id _ s

/-- `chat say`. -/
theorem own_chatSay (dest message : Bytes) : Own c.id (Tells d) s (s.chatSay c dest message) := by
  unfold Server.chatSay
  split
  · exact own_addReplyString s c.id (tells_none (by decide))
  · split
    · exact own_addReplyString s c.id (tells_none (by decide))
    · exact own_chatSend s c.id (tells_chatLine (by decide) _ _)

theorem tells_registerErrors (r : Reply) (hr : r ∈ registerErrors) : Tells d r := by
  unfold registerErrors at hr
  simp only [List.mem_cons, List.not_mem_nil, or_false] at hr
  rcases hr with rfl | rfl | rfl | rfl <;> exact tells_none (by decide)

/-- **Every line a command queues for its own client tells what the directory says**, but for a login
    that is accepted. -/
theorem own_exec (env : Env) (cmd : Command)
    (hno : ∀ name password, cmd = .chat (bytes "login") name password → s.admitsUser c name password env = false) :
    Own c.id (Tells s.dir) s (s.exec c env cmd) := by
  have hdoes := exec_does s c env cmd
  generalize s.commandSend c env cmd = x at hdoes
  generalize s.exec c env cmd = s' at hdoes
  cases hdoes with
  | chatLogin name password => exact (chatLogin_refused (hno name password rfl)).own tells_loginErrors
  | chatNologin _ _ _ _ _ => exact own_addReplyString s c.id (tells_none (by decide))
  | chatSay dest message _ => exact own_chatSay s c dest message
  | chatUserInfo _ _ _ => exact own_chatUserInfo s c.id fun _ hu => tells_chatUserInfo hu
  | chatDebug _ _ _ => exact own_myDebugEntry s c env
  | chatAdduser userid username _ => exact own_myAddUser s c userid username
  | chatOther _ _ _ _ _ => exact Own.refl c.id _ s
  | nodeLogin userid nodename => exact own_nodeLogin s c userid nodename
  | nodeNologin _ _ _ _ _ => exact own_addReplyString s c.id (tells_none (by decide))
  | nodeSay dest message _ => exact own_nodeSay s c dest message
  | nodeOther _ _ _ _ _ => exact Own.refl c.id _ s
  | registerFail _ _ _ _ _ r hr => exact own_addReplyString s c.id (tells_registerErrors r hr)
  | registerGetuserid _ _ _ _ _ _ =>
    exact own_addReplyString s c.id (tells_start (bytes "register ok   ") (by simp) (by decide) (by decide))
  | registerAdduser _ _ _ _ _ _ =>
    exact (own_addReplyString s c.id (tells_none (by decide))).trans (own_withDir _ c.id _)
  | registerOther _ _ _ _ _ _ => exact Own.refl c.id _ s

/-- **The lines of a login that is accepted** tell what the directory says afterwards, if the name is
    the registered one. -/
theorem tells_admitUser {name : Bytes} (hname : name ∈ s.dir.names) (hlen : name.length < 256) (password : Bytes) :
    Own c.id (Tells (s.dir.setUserInfo name .on)) s (s.admitUser c name password) := by
  refine own_admitUser s c name password ?_ (fun _ => ?_) (fun _ => ?_) fun _ hu => tells_chatUserInfo hu
  · intro name' line hread
    rw [show bytes "on" = Line.on.text from rfl, userinfoLine?_chatLine hlen] at hread
    cases hread
    exact ⟨(names_setUserInfo s.dir name .on).symm ▸ hname, getUserInfo_setUserInfo hname .on⟩
  · exact tells_start (bytes "login ok ") (by simp) (by decide) (by decide)
  · exact tells_start (bytes "nodeinfo ok ") (by simp) (by decide) (by decide)

end Commands

/-! ## 4. Who was there before a step -/

theorem client?_iff_key {s : Server} {i : Nat} : (∃ w, s.client? i = some w) ↔ i ∈ s.sessions.map Prod.fst := by
  unfold Server.sessions
  rw [List.map_map]
  constructor
  · rintro ⟨w, hw⟩
    exact List.mem_map.mpr ⟨w, List.mem_of_find?_eq_some hw, client?_id hw⟩
  · intro h
    obtain ⟨w, hw, hid⟩ := List.mem_map.mp h
    refine ⟨w, ?_⟩
    rw [← hid]
    exact find?_key s.distinct hw

/-- The session of a client, found by its key. -/
theorem session_of_find {s : Server} {i : Nat} {w : Client} {x : Session} (hw : s.client? i = some w)
    (h : s.sessions.find? (fun x => x.1 == i) = some (i, x)) : w.toSession = x := by
  rw [sessions_find hw] at h
  exact congrArg Prod.snd (Option.some.inj h)

/-- **A client that is there after a step was there before it**, or it has just connected. -/
theorem client?_before {s s' : Server} {e : Event} (h : chatNext s e = some s') {i : Nat} {w : Client}
    (hw : s'.client? i = some w) :
    (∃ w₀, s.client? i = some w₀) ∨ ∃ type, e = .connect type ∧ w.toSession = Session.new type := by
  have heffect := chatNext_effect h
  have hkey := client?_iff_key.mp ⟨w, hw⟩
  rw [client?_iff_key]
  have hmodify : ∀ {id : Nat} {f : Session → Session},
      s'.sessions = modifyFirst (fun x => x.1 == id) (fun x => (x.1, f x.2)) s.sessions →
        i ∈ s.sessions.map Prod.fst := by
    intro id f hs
    rw [hs, map_modifyFirst (f := fun x : Nat × Session => (x.1, f x.2)) fun _ _ => rfl] at hkey
    exact hkey
  have herase : ∀ {id : Nat}, s'.sessions = (s.sessions.eraseP fun x => x.1 == id) →
      i ∈ s.sessions.map Prod.fst := by
    intro id hs
    rw [hs] at hkey
    exact (List.eraseP_sublist.map Prod.fst).subset hkey
  clear h
  cases heffect with
  | same hr _ => exact Or.inl (hr.sessions ▸ hkey)
  | connect _ hs =>
    rw [hs, List.map_append] at hkey
    by_cases hold : i ∈ s.sessions.map Prod.fst
    · exact Or.inl hold
    · have hnew : i = s.nextId := List.mem_singleton.mp ((List.mem_append.mp hkey).resolve_left hold)
      refine Or.inr ⟨_, rfl, session_of_find hw ?_⟩
      rw [hs, List.find?_append, List.find?_eq_none.mpr fun x hx hxi => hold ?_]
      · rw [hnew]
        simp
      · exact List.mem_map.mpr ⟨x, hx, beq_iff_eq.mp hxi⟩
  | rootAdduser _ _ _ _ _ hs _ | adduser _ _ _ _ _ hs _ => exact Or.inl (hs ▸ hkey)
  | @userLogin _ _ name password _ _ _ _ _ hs _ => exact Or.inl (hmodify (f := fun x => x.asUser name password) hs)
  | @nodeLogin _ _ userid nodename username _ _ _ _ _ hs _ =>
    exact Or.inl (hmodify (f := fun x => x.asNode username userid nodename) hs)
  | leave _ _ _ _ hs _ | userLeave _ _ _ _ hs _ | nodeLeave _ _ _ _ hs _ => exact Or.inl (herase hs)

/-- A client that was freed is gone. -/
theorem freeClient_gone {s : Server} {id : Nat} {c : Client} (hc : s.client? id = some c) :
    (s.freeClient c).client? id = none := by
  have hid := client?_id hc
  subst hid
  exact find?_eraseP_key (s.chatNotifyUserInfo c).distinct c.id

/-! ## 5. Runs -/

/-- The connection whose `chat login` the server accepts, and how many lines were queued for it before. -/
def Server.loginMark (s : Server) : Event → Option (Nat × Nat)
  | .command id (.chat argv1 name password) env =>
    (s.client? id).bind fun c =>
      if argv1 = bytes "login" ∧ s.admitsUser c name password env = true then some (id, c.out.length) else none
  | _ => none

/-- The server, and where the lines of each client begin that count. -/
structure Viewed where
  server : Server
  mark : Nat → Nat

/-- The marks after an event. -/
def Viewed.nextMark (v : Viewed) (e : Event) : Nat → Nat :=
  match v.server.loginMark e with
  | none => v.mark
  | some (id, n) => Function.update v.mark id n

/-- One event. -/
def viewNext (v : Viewed) (e : Event) : Option Viewed := (chatNext v.server e).map fun s' => ⟨s', v.nextMark e⟩

/-- The start. -/
def viewStart (rows : List UserRow) : Viewed := ⟨serverStart rows, fun _ => 0⟩

/-- **A login that is accepted uses the registered name**, and one that fits the buffers. -/
def SpeltAsRegistered (v : Viewed) (e : Event) : Prop :=
  ∀ id name password env c, e = .command id (.chat (bytes "login") name password) env →
    v.server.client? id = some c → v.server.admitsUser c name password env = true →
      name ∈ v.server.dir.names ∧ name.length < 256

/-- The names of the users are registered, and their views agree with the directory. -/
structure ViewsOk (v : Viewed) : Prop where
  names : ∀ x ∈ v.server.sessions, ∀ name, x.2.userName? = some name →
    name ∈ v.server.dir.names ∧ name.length < 256
  views : ∀ i w, v.server.client? i = some w → w.closing = false → w.userName? ≠ none →
    v.mark i ≤ w.out.length ∧ Agrees v.server.dir (w.view (v.mark i))

/-- A view after more lines that tell what the directory says. -/
theorem Agrees.more {d : Directory} {w w' : Client} {mark : Nat} {rs : List Reply}
    (h : mark ≤ w.out.length ∧ Agrees d (w.view mark)) (hout : w'.out = w.out ++ rs) (hrs : ∀ r ∈ rs, Tells d r) :
    mark ≤ w'.out.length ∧ Agrees d (w'.view mark) := by
  refine ⟨?_, ?_⟩
  · rw [hout, List.length_append]
    exact Nat.le_add_right_of_le h.1
  · rw [view_append h.1 hout]
    exact h.2.reads hrs

/-! ## 6. The others -/

theorem hear?_session (w : Client) (x : Option Send) : (w.hear? x).toSession = w.toSession := by
  cases x with
  | none => rfl
  | some x => exact w.sendTo_session _ _ _

theorem hear?_closing (w : Client) (x : Option Send) : (w.hear? x).closing = w.closing := by
  cases x with
  | none => rfl
  | some x =>
    show (w.hear x).closing = w.closing
    unfold Client.hear Client.sendTo Client.addReplyString
    split
    · split
      · rfl
      · rfl
    · rfl

/-- A line that announces no user changes no view. -/
theorem hear?_other {x : Option Send} (hx : NoUserinfo x) (d : Directory) (w : Client) :
    ∃ rs, (w.hear? x).out = w.out ++ rs ∧ ∀ r ∈ rs, Tells d r := by
  cases x with
  | none => exact ⟨[], (List.append_nil _).symm, fun _ h => absurd h List.not_mem_nil⟩
  | some x =>
    show ∃ rs, (w.hear x).out = w.out ++ rs ∧ ∀ r ∈ rs, Tells d r
    unfold Client.hear Client.sendTo Client.addReplyString
    split
    · split
      · exact ⟨[], (List.append_nil _).symm, fun _ h => absurd h List.not_mem_nil⟩
      · exact ⟨[_], rfl, fun _ hr => List.mem_singleton.mp hr ▸ tells_chatLine (hx x rfl) _ _⟩
    · exact ⟨[], (List.append_nil _).symm, fun _ h => absurd h List.not_mem_nil⟩

theorem userName?_type {x : Session} (h : x.userName? ≠ none) : x.mynodeType = typeUser := by
  unfold Session.userName? at h
  split at h
  · rename_i hin
    simp only [Bool.and_eq_true, beq_iff_eq] at hin
    exact hin.2
  · exact absurd rfl h

/-- A user hears every announcement of a user. -/
theorem hear_announce {w : Client} (hopen : w.closing = false) (huser : w.userName? ≠ none) (name message : Bytes) :
    (w.hear ⟨bytes "userinfo", name, bytes "all", message, typeUser⟩).out =
      w.out ++ [chatLine (bytes "userinfo") name message] := by
  have hreceives : w.receives (bytes "all") typeUser = true :=
    (receives_user w _).mpr ⟨userName?_type huser, Or.inl rfl⟩
  unfold Client.hear Client.sendTo
  rw [if_pos hreceives]
  unfold Client.addReplyString
  rw [if_neg (by simp [hopen])]

/-- **A step of another keeps a view right.** -/
theorem views_other {s s' : Server} {e : Event} (hs : chatNext s e = some s')
    (hnames : ∀ x ∈ s.sessions, ∀ name, x.2.userName? = some name → name ∈ s.dir.names ∧ name.length < 256)
    (hspelt : ∀ id name password env c, e = .command id (.chat (bytes "login") name password) env →
      s.client? id = some c → s.admitsUser c name password env = true → name ∈ s.dir.names ∧ name.length < 256)
    {w : Client} (hopen : w.closing = false) (huser : w.userName? ≠ none) {mark : Nat}
    (h : mark ≤ w.out.length ∧ Agrees s.dir (w.view mark)) :
    mark ≤ (w.hear? (s.sends e)).out.length ∧ Agrees s'.dir ((w.hear? (s.sends e)).view mark) := by
  have hgrow : ∀ name ∈ s.dir.names, name ∈ s'.dir.names := fun _ => names_grow hs
  have hquiet : NoUserinfo (s.sends e) → SameLines s.dir s'.dir →
      mark ≤ (w.hear? (s.sends e)).out.length ∧ Agrees s'.dir ((w.hear? (s.sends e)).view mark) := by
    intro hno hlines
    obtain ⟨rs, hout, hrs⟩ := hear?_other hno s.dir w
    obtain ⟨hmark, hagrees⟩ := Agrees.more h hout hrs
    exact ⟨hmark, hagrees.same hgrow hlines⟩
  have hannounce : ∀ name (line : Line), name ∈ s.dir.names → name.length < 256 →
      s'.dir = s.dir.setUserInfo name line →
      s.sends e = some ⟨bytes "userinfo", name, bytes "all", line.text, typeUser⟩ →
      mark ≤ (w.hear? (s.sends e)).out.length ∧ Agrees s'.dir ((w.hear? (s.sends e)).view mark) := by
    intro name line hname hlen hdir hsend
    have hout : (w.hear? (s.sends e)).out = w.out ++ [chatLine (bytes "userinfo") name line.text] := by
      rw [hsend]
      exact hear_announce hopen huser name line.text
    rw [view_append h.1 hout, hdir, hout, List.length_append]
    exact ⟨Nat.le_add_right_of_le h.1, h.2.announce hname hlen line⟩
  have heffect := chatNext_effect hs
  clear hs
  cases heffect with
  | same hr hsend => exact hquiet hsend (sameLines_of_eq fun _ => by rw [hr.dir])
  | connect hdir _ => exact hquiet noUserinfo_none (sameLines_of_eq fun _ => by rw [hdir])
  | rootAdduser _ _ _ _ hdir _ hsend | adduser _ _ _ _ hdir _ hsend =>
    exact hquiet (hsend ▸ noUserinfo_none) (hdir ▸ sameLines_insertUserInfo s.dir _ _)
  | userLogin hc _ hgrant hdir _ hsend =>
    obtain ⟨hname, hlen⟩ := hspelt _ _ _ _ _ rfl hc hgrant
    exact hannounce _ .on hname hlen hdir hsend
  | nodeLogin _ _ _ hdir _ hsend =>
    exact hquiet hsend (sameLines_of_eq fun _ => by rw [hdir, lineAt_setNodeInfo, lineAt_insertNode])
  | leave _ _ _ hdir _ hsend => exact hquiet (hsend ▸ noUserinfo_none) (sameLines_of_eq fun _ => by rw [hdir])
  | userLeave hc huser' _ hdir _ hsend =>
    obtain ⟨hname, hlen⟩ := hnames _ (List.mem_of_find?_eq_some (sessions_find hc)) _ huser'
    exact hannounce _ .off hname hlen hdir hsend
  | nodeLeave _ _ _ hdir _ hsend =>
    exact hquiet hsend (sameLines_of_eq fun _ => by rw [hdir, lineAt_setNodeInfo])

/-! ## 7. The client whose step it is -/

/-- A command that is no accepted login leaves the lines alone. -/
theorem sameLines_command {s s' : Server} {id : Nat} {cmd : Command} {env : Env}
    (hs : chatNext s (.command id cmd env) = some s')
    (hno : ∀ c name password, s.client? id = some c → cmd = .chat (bytes "login") name password →
      s.admitsUser c name password env = false) : SameLines s.dir s'.dir := by
  have heffect := chatNext_effect hs
  clear hs
  generalize he : Event.command id cmd env = e at heffect
  cases heffect with
  | same hr _ => exact sameLines_of_eq fun _ => by rw [hr.dir]
  | connect _ _ => exact Event.noConfusion he
  | rootAdduser _ _ _ _ hdir _ _ | adduser _ _ _ _ hdir _ _ => exact hdir ▸ sameLines_insertUserInfo s.dir _ _
  | userLogin hc _ hgrant _ _ _ =>
    cases he
    exact absurd (hgrant.symm.trans (hno _ _ _ hc rfl)) Bool.noConfusion
  | nodeLogin _ _ _ hdir _ _ => exact sameLines_of_eq fun _ => by rw [hdir, lineAt_setNodeInfo, lineAt_insertNode]
  | leave | userLeave | nodeLeave => exact Event.noConfusion he

/-- A client that is a user after such a command was one before. -/
theorem user_before {s s' : Server} {id : Nat} {cmd : Command} {env : Env}
    (hs : chatNext s (.command id cmd env) = some s')
    (hno : ∀ c name password, s.client? id = some c → cmd = .chat (bytes "login") name password →
      s.admitsUser c name password env = false) {c w : Client} (hc : s.client? id = some c)
    (hw : s'.client? id = some w) (huser : w.userName? ≠ none) : c.userName? ≠ none := by
  have hsame : s'.sessions = s.sessions → c.userName? ≠ none := by
    intro hsessions
    have hfind := sessions_find hw
    rw [hsessions] at hfind
    rw [session_of_find hc hfind]
    exact huser
  have heffect := chatNext_effect hs
  clear hs
  generalize he : Event.command id cmd env = e at heffect
  cases heffect with
  | same hr _ => exact hsame hr.sessions
  | connect _ _ => exact Event.noConfusion he
  | rootAdduser _ _ _ _ _ hs _ | adduser _ _ _ _ _ hs _ => exact hsame hs
  | userLogin hc' _ hgrant _ _ _ =>
    cases he
    exact absurd (hgrant.symm.trans (hno _ _ _ hc' rfl)) Bool.noConfusion
  | @nodeLogin id' _ userid nodename username _ hc' _ _ _ hs _ =>
    cases he
    -- it is a node now
    have hfind := find?_modifyFirst (l := s.sessions) (p := fun x => x.1 == id)
      (f := fun x => (x.1, x.2.asNode username userid nodename)) fun _ => rfl
    rw [← hs, sessions_find hw, sessions_find hc] at hfind
    have hnode : w.toSession = c.asNode username userid nodename := congrArg Prod.snd (Option.some.inj hfind)
    rw [hnode] at huser
    exact absurd rfl huser
  | leave | userLeave | nodeLeave => exact Event.noConfusion he

/-- **A command of its own keeps a view right**; a login that is accepted starts it. -/
theorem views_own {v v' : Viewed} (h : ViewsOk v) {id : Nat} {cmd : Command} {env : Env}
    (hspelt : SpeltAsRegistered v (.command id cmd env)) (hs : viewNext v (.command id cmd env) = some v')
    {w : Client} (hw : v'.server.client? id = some w) (huser : w.userName? ≠ none) :
    v'.mark id ≤ w.out.length ∧ Agrees v'.server.dir (w.view (v'.mark id)) := by
  obtain ⟨s', hs', rfl⟩ := Option.map_eq_some_iff.mp hs
  obtain ⟨c, hc, hrest⟩ := Option.bind_eq_some_iff.mp hs'
  obtain ⟨hopen, hexec⟩ := Option.ite_none_left_eq_some.mp hrest
  rw [Bool.not_eq_true] at hopen
  have hid := client?_id hc
  subst hid
  obtain rfl := Option.some.inj hexec
  by_cases hlogin : ∃ name password, cmd = .chat (bytes "login") name password ∧
      v.server.admitsUser c name password env = true
  · -- the view begins with the lines of the login
    obtain ⟨name, password, rfl, hgrant⟩ := hlogin
    obtain ⟨hname, hlen⟩ := hspelt _ _ _ _ _ rfl hc hgrant
    have hmark : v.nextMark (.command c.id (.chat (bytes "login") name password) env) c.id = c.out.length := by
      simp only [Viewed.nextMark, Server.loginMark]
      rw [hc, Option.bind_some, if_pos ⟨trivial, hgrant⟩]
      exact Function.update_self _ _ _
    have hadmitted : v.server.exec c env (.chat (bytes "login") name password) =
        v.server.admitUser c name password :=
      (exec_chatLogin v.server c env name password).trans (chatLogin_admitted hgrant)
    simp only [hmark, hadmitted] at hw ⊢
    obtain ⟨c', rs, hc', _, hout, hrs⟩ := tells_admitUser v.server c hname hlen password c hc hopen
    cases hc'.symm.trans hw
    refine ⟨by rw [hout, List.length_append]; exact Nat.le_add_right _ _, ?_⟩
    unfold Client.view
    rw [hout, List.drop_left, (admitUser_effect v.server c name password).1]
    exact (agrees_empty _).reads hrs
  · have hno : ∀ c₀ name password, v.server.client? c.id = some c₀ → cmd = .chat (bytes "login") name password →
        v.server.admitsUser c₀ name password env = false := by
      intro c₀ name password hc₀ hcmd
      cases hc.symm.trans hc₀
      exact Bool.eq_false_iff.mpr fun hgrant => hlogin ⟨name, password, hcmd, hgrant⟩
    have hnone : v.server.loginMark (.command c.id cmd env) = none := by
      unfold Server.loginMark
      split
      · rename_i he
        cases he
        rw [hc, Option.bind_some, if_neg]
        rintro ⟨rfl, hgrant⟩
        exact hlogin ⟨_, _, rfl, hgrant⟩
      · rfl
    have hmark : v.nextMark (.command c.id cmd env) = v.mark := by
      unfold Viewed.nextMark
      rw [hnone]
    simp only [hmark] at hw ⊢
    obtain ⟨c', rs, hc', _, hout, hrs⟩ := own_exec v.server c env cmd
      (fun name password hcmd => hno c name password hc hcmd) c hc hopen
    cases hc'.symm.trans hw
    have hold := h.views c.id c hc hopen (user_before hs' hno hc hw huser)
    obtain ⟨hlen, hagrees⟩ := Agrees.more hold hout hrs
    exact ⟨hlen, hagrees.same (fun _ => names_grow hs') (sameLines_command hs' hno)⟩

/-- The marks of the others stay. -/
theorem mark_other {v : Viewed} {e : Event} {i : Nat} (hi : e.client ≠ some i) : v.nextMark e i = v.mark i := by
  unfold Viewed.nextMark
  cases hmark : v.server.loginMark e with
  | none => rfl
  | some x =>
    refine Function.update_of_ne (fun heq => hi ?_) _ _
    unfold Server.loginMark at hmark
    split at hmark
    · obtain ⟨c, _, hrest⟩ := Option.bind_eq_some_iff.mp hmark
      obtain ⟨_, hx⟩ := Option.ite_none_right_eq_some.mp hrest
      rw [heq, ← Option.some.inj hx]
      rfl
    · exact absurd hmark (Option.some_ne_none _).symm

/-- The names of the users stay registered. -/
theorem viewsOk_names {v : Viewed} (h : ViewsOk v) {e : Event} (hspelt : SpeltAsRegistered v e) {s' : Server}
    (hs : chatNext v.server e = some s') : ∀ x ∈ s'.sessions, ∀ name, x.2.userName? = some name →
      name ∈ s'.dir.names ∧ name.length < 256 := by
  have hold : ∀ x ∈ v.server.sessions, ∀ name, x.2.userName? = some name → name ∈ s'.dir.names ∧ name.length < 256 :=
    fun x hx name hname => ⟨names_grow hs (h.names x hx name hname).1, (h.names x hx name hname).2⟩
  refine chatNext_sessions hs hold (fun _ _ name hname => absurd hname (Option.some_ne_none _).symm) ?_
    fun _ _ _ _ _ _ _ _ _ name hname => absurd hname (Option.some_ne_none _).symm
  intro id c name password env he hc hgrant name' hname'
  obtain ⟨hname, hlen⟩ := hspelt _ _ _ _ _ he hc hgrant
  cases hname'
  exact ⟨names_grow hs hname, hlen⟩

/-- **An event keeps every view right**, if the accepted logins use the registered names. -/
theorem viewsOk_step {v v' : Viewed} {e : Event} (h : ViewsOk v) (hspelt : SpeltAsRegistered v e)
    (hs : viewNext v e = some v') : ViewsOk v' := by
  obtain ⟨s', hs', heq⟩ := Option.map_eq_some_iff.mp hs
  refine ⟨by rw [← heq]; exact viewsOk_names h hspelt hs', fun i w hw hopen huser => ?_⟩
  by_cases hi : e.client = some i
  · cases e with
    | connect type => exact absurd hi (Option.some_ne_none _).symm
    | command id cmd env =>
      cases hi
      exact views_own h hspelt hs hw huser
    | quit id last =>
      -- it is closed after the reply
      cases hi
      obtain ⟨c, hc, hrest⟩ := Option.bind_eq_some_iff.mp hs'
      obtain ⟨hcopen, hquit⟩ := Option.ite_none_left_eq_some.mp hrest
      rw [Bool.not_eq_true] at hcopen
      rw [← heq, ← Option.some.inj hquit] at hw
      have hclosed := client?_modify (client?_addReplyString hc hcopen last)
        (f := fun c : Client => { c with closing := true }) (fun _ => rfl)
        (map_modifyFirst (f := fun c : Client => { c with closing := true }) fun _ _ => rfl)
      cases hclosed.symm.trans hw
      exact absurd hopen Bool.noConfusion
    | free id =>
      -- it is gone
      cases hi
      obtain ⟨c, hc, hfree⟩ := Option.map_eq_some_iff.mp hs'
      rw [← heq, ← hfree] at hw
      refine absurd hw ?_
      rw [freeClient_gone hc]
      exact (Option.some_ne_none _).symm
  · subst heq
    rcases client?_before hs' hw with ⟨w₀, hw₀⟩ | ⟨type, -, hnew⟩
    · cases (others_hear hs' hw₀ hi).symm.trans hw
      rw [hear?_closing] at hopen
      rw [hear?_session] at huser
      simp only [mark_other hi]
      exact views_other hs' h.names (fun id name password env c he hc => hspelt id name password env c he hc)
        hopen huser
        (h.views i w₀ hw₀ hopen huser)
    · rw [hnew] at huser
      exact absurd rfl huser

theorem viewsOk_start (rows : List UserRow) : ViewsOk (viewStart rows) where
  names _ hx := absurd hx List.not_mem_nil
  views _ _ hw _ _ := absurd hw (Option.some_ne_none _).symm

theorem viewsOk_run {rows : List UserRow} {v : Viewed}
    (h : Reaches viewNext SpeltAsRegistered (viewStart rows) v) : ViewsOk v :=
  Reaches.invariant ViewsOk (viewsOk_start rows) (fun _ _ _ hI hok hs => viewsOk_step hI hok hs) h

/-- **In every run whose accepted logins use the registered names, the view of every user who is there to
    stay agrees with the directory**: whatever name is in it resolves to an account with this line, and no
    account is in it under two names. -/
theorem views_agree (rows : List UserRow) (v : Viewed) (h : Reaches viewNext SpeltAsRegistered (viewStart rows) v)
    (i : Nat) (w : Client) (hw : v.server.client? i = some w) (hopen : w.closing = false)
    (huser : w.userName? = some w.username) :
    (∀ name line, w.view (v.mark i) name = some line →
      ∃ u, v.server.dir.dictFetchValue name = some u ∧ u.line = line) ∧
    ∀ name name' u, w.view (v.mark i) name ≠ none → w.view (v.mark i) name' ≠ none →
      v.server.dir.dictFetchValue name = some u → v.server.dir.dictFetchValue name' = some u → name = name' := by
  obtain ⟨_, hagrees⟩ := (viewsOk_run h).views i w hw hopen (by rw [huser]; exact Option.some_ne_none _)
  have hregistered : ∀ name u, w.view (v.mark i) name ≠ none → v.server.dir.dictFetchValue name = some u →
      name = u.name := by
    intro name u hname hu
    obtain ⟨line, hline⟩ := Option.ne_none_iff_exists'.mp hname
    obtain ⟨u', hu', hname'⟩ := dictFetchValue_of_name (hagrees name line hline).1
    cases hu'.symm.trans hu
    exact hname'.symm
  refine ⟨fun name line hline => ?_, fun name name' u hname hname' hu hu' => ?_⟩
  · exact Option.map_eq_some_iff.mp (hagrees name line hline).2
  · rw [hregistered name u hname hu, hregistered name' u hname' hu']

/-! ## 8. Another spelling -/

/-- The database knows Alice and Bob, under any spelling. -/
def bothEnv : Env := { openEnv with isValidUser := fun name _ => [bytes "alice", bytes "bob"].contains (lower name) }

def bothRows : List UserRow := [⟨bytes "17", bytes "alice", []⟩, ⟨bytes "18", bytes "bob", []⟩]

/-- Two connections. -/
def bothConnected : Viewed := ⟨((serverStart bothRows).createClient 0).createClient 0, fun _ => 0⟩

def bobLogin : Event := .command 0 (.chat (bytes "login") (bytes "bob") (bytes "x")) bothEnv

def aliceOtherwise : Event := .command 1 (.chat (bytes "login") (bytes "Alice") (bytes "x")) bothEnv

theorem views_agree_bob : ∃ v w,
    Reaches viewNext SpeltAsRegistered (viewStart bothRows) v ∧ v.server.client? 0 = some w ∧
      w.view (v.mark 0) (bytes "alice") = some .off ∧ (∀ name line, w.view (v.mark 0) name = some line →
        ∃ u, v.server.dir.dictFetchValue name = some u ∧ u.line = line) ∧
      ∀ name name' u, w.view (v.mark 0) name ≠ none → w.view (v.mark 0) name' ≠ none →
        v.server.dir.dictFetchValue name = some u → v.server.dir.dictFetchValue name' = some u → name = name' := by
  have hview : ((viewNext bothConnected bobLogin).bind fun v => (v.server.client? 0).map fun w =>
      (w.closing, decide (w.userName? = some w.username), w.view (v.mark 0) (bytes "alice"))) =
      some (false, true, some .off) := by decide +kernel
  obtain ⟨v, hv, hrest⟩ := Option.bind_eq_some_iff.mp hview
  obtain ⟨w, hw, hfacts⟩ := Option.map_eq_some_iff.mp hrest
  simp only [Prod.mk.injEq, decide_eq_true_eq] at hfacts
  obtain ⟨hopen, huser, hoff⟩ := hfacts
  have hconnect : ∀ (v : Viewed) (type : UInt8), SpeltAsRegistered v (.connect type) :=
    fun _ _ _ _ _ _ _ he => Event.noConfusion he
  have hboth : Reaches viewNext SpeltAsRegistered (viewStart bothRows) bothConnected :=
    .step (.connect 0) (.step (.connect 0) .start (hconnect _ _) rfl) (hconnect _ _) rfl
  have hspelt : SpeltAsRegistered bothConnected bobLogin := by
    intro id name password env c he _ _
    cases he
    exact ⟨by decide +kernel, by decide⟩
  have hrun := Reaches.step bobLogin hboth hspelt hv
  obtain ⟨hlines, honce⟩ := views_agree bothRows v hrun 0 w hw hopen huser
  exact ⟨v, w, hrun, hw, hoff, hlines, honce⟩

/-- **Alice comes in as `Alice`, and Bob does not learn it.** His view has `alice` off line, though the
    record is on line, and one account under two names. -/
theorem otherSpelling_two : ∃ v w, Reaches viewNext (fun _ _ => True) (viewStart bothRows) v ∧
      v.server.client? 0 = some w ∧ w.closing = false ∧ w.userName? = some (bytes "bob") ∧
      w.view (v.mark 0) (bytes "alice") = some .off ∧ w.view (v.mark 0) (bytes "Alice") = some .on ∧
      v.server.dir.getUserInfo (bytes "alice") = some .on ∧
      v.server.dir.dictFetchValue (bytes "Alice") = v.server.dir.dictFetchValue (bytes "alice") := by
  have hview : ((runEvents viewNext (viewStart bothRows) [.connect 0, .connect 0, bobLogin, aliceOtherwise]).bind
      fun v => (v.server.client? 0).map fun w =>
        ((w.closing, w.userName?), (w.view (v.mark 0) (bytes "alice"), w.view (v.mark 0) (bytes "Alice")),
          v.server.dir.getUserInfo (bytes "alice"))) =
      some ((false, some (bytes "bob")), (some .off, some .on), some .on) := by decide +kernel
  obtain ⟨v, hv, hrest⟩ := Option.bind_eq_some_iff.mp hview
  obtain ⟨w, hw, hfacts⟩ := Option.map_eq_some_iff.mp hrest
  simp only [Prod.mk.injEq] at hfacts
  obtain ⟨⟨hopen, huser⟩, ⟨hoff, hon⟩, hline⟩ := hfacts
  refine ⟨v, w, Reaches.start.runEvents (fun _ _ _ => trivial) hv, hw, hopen, huser, hoff, hon, hline, ?_⟩
  unfold Directory.dictFetchValue
  rw [show lower (bytes "Alice") = lower (bytes "alice") by decide]

end SmartHome.Chat
