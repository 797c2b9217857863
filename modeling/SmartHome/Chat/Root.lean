/-
  Subject:   WHO MAY DO WHAT ONLY ROOT MAY DO.

  `chat debug` shows every client and every account, `chat adduser` makes one. Both are for root, and
  both ask whether the name of the session is `root`. A user gets that name with a password. A node gets
  the name of its account too, with a userid and no password; and `node login` sets the flag `chat` looks
  at. So the userid of root is as good as the password of root.

  * `Watched` -- the server, and which connections root has logged in on;
  * `Privileged` -- `chat adduser` changed the directory, or `chat debug` showed it;
  * **`root_only`** -- in every state any run reaches, only connections root has logged in on get that
    far, exactly if no node of the account root is logged in; `rootNode_adds` -- one that is.
-/
import SmartHome.Chat.Overheard

namespace SmartHome.Chat

open SmartHome.Lib

/-! ## 1. Logins of root -/

/-- `MY_REDIS_ROOT_NAME`. -/
def rootName : Bytes := bytes "root"

/-- The connection whose `chat login` as root this event is, if the server accepts it. -/
def Server.rootLogin (s : Server) : Event → Option Nat
  | .command id (.chat argv1 name password) env =>
    (s.client? id).bind fun c =>
      if argv1 = bytes "login" ∧ name = rootName ∧ s.admitsUser c name password env = true then some id else none
  | _ => none

/-- The server, and the connections on which root has logged in. -/
structure Watched where
  server : Server
  rooted : List Nat

/-- One event, watched. -/
def watchNext (w : Watched) (e : Event) : Option Watched :=
  (chatNext w.server e).map fun s' => ⟨s', (w.server.rootLogin e).toList ++ w.rooted⟩

/-- The start. -/
def watchStart (rows : List UserRow) : Watched := ⟨serverStart rows, []⟩

/-- The first line of `chat debug`. -/
def Server.dumpHead (s : Server) : Reply :=
  reply (bytes " total " ++ padRight 6 (bytes (toString s.clients.length)) ++ bytes " client on line\r\n")

/-- The queue of the client got the list of clients and accounts. -/
def Dumps (s s' : Server) (id : Nat) : Prop :=
  ∃ c c' rest, s.client? id = some c ∧ s'.client? id = some c' ∧ c'.out = c.out ++ s.dumpHead :: rest

/-- **What only root may do**: the command changed the directory, or showed it. -/
def Privileged (s s' : Server) (id : Nat) : Command → Prop
  | .chat argv1 _ _ => (argv1 = bytes "adduser" ∧ s'.dir ≠ s.dir) ∨ (argv1 = bytes "debug" ∧ Dumps s s' id)
  | _ => False

/-- **No node of the account root is logged in.** -/
def NoRootNode (s : Server) : Prop :=
  ∀ id c, s.client? id = some c → c.closing = false → c.isvaliduser = true → c.mynodeType = typeNode →
    c.username ≠ rootName

/-! ## 2. The two commands -/

/-- It is not what a client gets that is not logged in: it starts with a blank. -/
theorem dumpHead_ne (s : Server) : s.dumpHead ≠ errNodeNoLogin := by
  intro heq
  have htotal : bytes " total " = 0x20 :: (bytes " total ").tail := by decide
  have hblank : s.dumpHead.text.head? = some 0x20 := by
    unfold Server.dumpHead reply
    rw [htotal]
    rfl
  rw [heq] at hblank
  exact absurd hblank (by decide)

section Commands

variable {s : Server} {id : Nat} {c : Client} (hc : s.client? id = some c)

/-- `chat` of a client that is not logged in. -/
theorem chatCommand_out (hout : c.isvaliduser = false) {argv1 : Bytes} (hlogin : argv1 ≠ bytes "login")
    (argv2 argv3 : Bytes) (env : Env) :
    s.chatCommand c argv1 argv2 argv3 env = s.addReplyString c.id errNodeNoLogin := by
  unfold Server.chatCommand
  rw [if_neg hlogin, hout]
  rfl

theorem chatCommand_debug (hin : c.isvaliduser = true) (argv2 argv3 : Bytes) (env : Env) :
    s.chatCommand c (bytes "debug") argv2 argv3 env = s.myDebugEntry c env := by
  unfold Server.chatCommand
  rw [if_neg (by decide), hin, if_neg (by decide), if_neg (by decide), if_neg (by decide), if_neg (by decide),
    if_pos rfl]

theorem chatCommand_adduser (hin : c.isvaliduser = true) (argv2 argv3 : Bytes) (env : Env) :
    s.chatCommand c (bytes "adduser") argv2 argv3 env = s.myAddUser c argv2 argv3 := by
  unfold Server.chatCommand
  rw [if_neg (by decide), hin, if_neg (by decide), if_neg (by decide), if_neg (by decide), if_neg (by decide),
    if_neg (by decide), if_pos rfl]

include hc

/-- `chat debug` of a client called root. -/
theorem dumps_root (hopen : c.closing = false) (hroot : c.username = rootName) (env : Env) :
    Dumps s (s.myDebugEntry c env) id := by
  have hid := client?_id hc
  subst hid
  have hdump : s.myDebugEntry c env = (s.dumpClients c.id).dumpAlluser c.id env := if_neg (not_not.mpr hroot)
  rw [hdump]
  have hclients := client?_addReplies hc hopen (s.dumpHead :: s.clients.reverse.map fun c =>
    reply (bytes "type:" ++ padRight 5 (bytes (toString c.mynodeType.toNat)) ++ bytes "  name :" ++
      padRight 15 c.username ++ bytes " id:" ++ padRight 40 c.userid ++ bytes " nodename:" ++
      padRight 15 c.nodename ++ bytes " \r\n"))
  have hall := client?_addReplies (s := s.dumpClients c.id) hclients hopen
  exact ⟨c, _, _, hc, hall _, by rw [List.append_assoc]; rfl⟩

/-- **What is privileged needs the name root.** -/
theorem privileged_root (hopen : c.closing = false) {cmd : Command} {env : Env}
    (h : Privileged s (s.exec c env cmd) id cmd) : c.isvaliduser = true ∧ c.username = rootName := by
  have hid := client?_id hc
  subst hid
  cases cmd with
  | node | register => exact h.elim
  | chat argv1 argv2 argv3 =>
    cases hin : c.isvaliduser with
    | false =>
      -- all it gets is that it is not logged in
      refine absurd h ?_
      rintro (⟨rfl, hdir⟩ | ⟨rfl, c₀, c', rest, hc₀, hc', hout⟩)
      · refine hdir ?_
        show (s.chatCommand c _ _ _ _).dir = _
        rw [chatCommand_out hin (by decide)]
        rfl
      · change (s.chatCommand c _ _ _ _).client? c.id = some c' at hc'
        rw [chatCommand_out hin (by decide), client?_addReplyString hc hopen] at hc'
        cases hc'
        cases hc.symm.trans hc₀
        exact dumpHead_ne s (List.cons.inj (List.append_cancel_left hout)).1.symm
    | true =>
      refine ⟨rfl, ?_⟩
      by_contra hroot
      rcases h with ⟨rfl, hdir⟩ | ⟨rfl, c₀, c', rest, hc₀, hc', hout⟩
      · refine hdir ?_
        show (s.chatCommand c _ _ _ _).dir = _
        rw [chatCommand_adduser hin]
        exact congrArg Server.dir (if_pos hroot)
      · change (s.chatCommand c _ _ _ _).client? c.id = some c' at hc'
        rw [chatCommand_debug hin, show s.myDebugEntry c env = s from if_pos hroot] at hc'
        cases hc.symm.trans hc'
        cases hc.symm.trans hc₀
        exact List.cons_ne_nil _ _ (List.append_right_eq_self.mp hout.symm)

end Commands

/-! ## 3. Identities -/

theorem nextId_addReplies (s : Server) (id : Nat) (rs : List Reply) : (s.addReplies id rs).nextId = s.nextId := by
  induction rs generalizing s with
  | nil => rfl
  | cons r rs ih => exact ih (s.addReplyString id r)

theorem nextId_getAllNodeInfo (s : Server) (id : Nat) (username : Bytes) :
    (s.getAllNodeInfo id username).nextId = s.nextId := by
  unfold Server.getAllNodeInfo
  split
  · rfl
  · exact nextId_addReplies _ _ _

theorem nextId_chatLogin (s : Server) (c : Client) (name password : Bytes) (env : Env) :
    (s.chatLogin c name password env).nextId = s.nextId := by
  cases hgrant : s.admitsUser c name password env with
  | false =>
    have hrefused := chatLogin_refused hgrant
    generalize s.chatLogin c name password env = s' at hrefused
    cases hrefused with
    | again | fail => rfl
  | true =>
    rw [chatLogin_admitted hgrant]
    unfold Server.admitUser Server.chatUserInfo
    extract_lets s₁ s₂ s₃ s₄ userid s₅ s₆
    rw [nextId_addReplies, nextId_getAllNodeInfo]
    rfl

theorem nextId_nodeLogin (s : Server) (c : Client) (userid nodename : Bytes) :
    (s.nodeLogin c userid nodename).nextId = s.nextId := by
  cases hgrant : s.admitsNode c userid nodename with
  | none =>
    have hrefused := nodeLogin_refused hgrant
    generalize s.nodeLogin c userid nodename = s' at hrefused
    cases hrefused with
    | again | fail => rfl
  | some username =>
    rw [nodeLogin_admitted hgrant]
    rfl

theorem nextId_chatSay (s : Server) (c : Client) (dest message : Bytes) :
    (s.chatSay c dest message).nextId = s.nextId := by
  unfold Server.chatSay
  split
  · rfl
  · split
    · rfl
    · rfl

theorem nextId_nodeSay (s : Server) (c : Client) (dest message : Bytes) :
    (s.nodeSay c dest message).nextId = s.nextId := by
  unfold Server.nodeSay
  split
  · rfl
  · split
    · rfl
    · rfl

theorem nextId_myDebugEntry (s : Server) (c : Client) (env : Env) : (s.myDebugEntry c env).nextId = s.nextId := by
  unfold Server.myDebugEntry
  split
  · rfl
  · exact (nextId_addReplies _ c.id _).trans (nextId_addReplies s c.id _)

theorem nextId_myAddUser (s : Server) (c : Client) (userid username : Bytes) :
    (s.myAddUser c userid username).nextId = s.nextId := by
  unfold Server.myAddUser
  split <;> rfl

theorem nextId_exec (s : Server) (c : Client) (env : Env) (cmd : Command) :
    (s.exec c env cmd).nextId = s.nextId := by
  have hdoes := exec_does s c env cmd
  generalize s.commandSend c env cmd = x at hdoes
  generalize s.exec c env cmd = s' at hdoes
  cases hdoes with
  | chatLogin name password => exact nextId_chatLogin s c name password env
  | chatNologin _ _ _ _ _ => rfl
  | chatSay dest message _ => exact nextId_chatSay s c dest message
  | chatUserInfo _ _ _ => exact nextId_addReplies s c.id _
  | chatDebug _ _ _ => exact nextId_myDebugEntry s c env
  | chatAdduser userid username _ => exact nextId_myAddUser s c userid username
  | chatOther _ _ _ _ _ => rfl
  | nodeLogin userid nodename => exact nextId_nodeLogin s c userid nodename
  | nodeNologin _ _ _ _ _ => rfl
  | nodeSay dest message _ => exact nextId_nodeSay s c dest message
  | _ => rfl

/-- Identities are not used again. -/
theorem nextId_step {s s' : Server} {e : Event} (h : chatNext s e = some s') : s.nextId ≤ s'.nextId := by
  cases e with
  | connect type =>
    cases h
    exact Nat.le_succ _
  | command id cmd env =>
    obtain ⟨c, _, h⟩ := Option.bind_eq_some_iff.mp h
    obtain ⟨_, h⟩ := Option.ite_none_left_eq_some.mp h
    cases h
    exact Nat.le_of_eq (nextId_exec s c env cmd).symm
  | quit id last =>
    obtain ⟨c, _, h⟩ := Option.bind_eq_some_iff.mp h
    obtain ⟨_, h⟩ := Option.ite_none_left_eq_some.mp h
    cases h
    exact Nat.le_refl _
  | free id =>
    obtain ⟨c, _, h⟩ := Option.map_eq_some_iff.mp h
    cases h
    refine Nat.le_of_eq ?_
    unfold Server.freeClient Server.chatNotifyUserInfo
    split
    · rfl
    · split
      · rfl
      · split
        · rfl
        · rfl

/-! ## 4. In every run -/

/-- A connection is logged in as the user root exactly if root has logged in on it. -/
structure RootOk (w : Watched) : Prop where
  rooted : ∀ x ∈ w.server.sessions, x.2.userName? = some rootName ↔ x.1 ∈ w.rooted
  used : ∀ i ∈ w.rooted, i < w.server.nextId

section Step

variable {w : Watched} (h : RootOk w) {s' : Server}

include h

/-- Root has not logged in on the connection of a client that is not logged in. -/
theorem RootOk.free {id : Nat} {c : Client} (hc : w.server.client? id = some c)
    (hfree : (c.isvaliduser || c.isvalidnode) = false) : id ∉ w.rooted := by
  intro hmem
  have hroot := (h.rooted _ (List.mem_of_find?_eq_some (sessions_find hc))).mpr hmem
  exact absurd ((userName?_free hfree).symm.trans hroot) (Option.some_ne_none _).symm

/-- **A login of root.** -/
theorem RootOk.login (hnext : w.server.nextId ≤ s'.nextId) {id : Nat} {c : Client}
    (hc : w.server.client? id = some c) {password : Bytes}
    (hs : s'.sessions = modifyFirst (fun x => x.1 == id) (fun x => (x.1, x.2.asUser rootName password))
      w.server.sessions) : RootOk ⟨s', id :: w.rooted⟩ := by
  refine ⟨fun x hx => ?_, fun i hi => ?_⟩
  · change x ∈ s'.sessions at hx
    rw [hs] at hx
    rcases mem_modifyFirst_key (k := Prod.fst) (sessions_nodup w.server) hx with ⟨hne, hx⟩ | ⟨y, hy, rfl⟩
    · rw [h.rooted x hx]
      exact ⟨fun hmem => List.mem_cons_of_mem id hmem, fun hmem => (List.mem_cons.mp hmem).resolve_left hne⟩
    · have hid : y.1 = id := beq_iff_eq.mp (List.find?_some (p := fun x : Nat × Session => x.1 == id) hy)
      exact ⟨fun _ => hid ▸ List.mem_cons_self, fun _ => rfl⟩
  · rcases List.mem_cons.mp hi with rfl | hi
    · rw [← client?_id hc]
      exact Nat.lt_of_lt_of_le (w.server.fresh c (List.mem_of_find?_eq_some hc)) hnext
    · exact Nat.lt_of_lt_of_le (h.used i hi) hnext

end Step

theorem rootLogin_some {s : Server} {e : Event} {i : Nat} (h : s.rootLogin e = some i) :
    ∃ c password env, e = .command i (.chat (bytes "login") rootName password) env ∧ s.client? i = some c ∧
      s.admitsUser c rootName password env = true := by
  unfold Server.rootLogin at h
  split at h
  · obtain ⟨c, hc, hlogin⟩ := Option.bind_eq_some_iff.mp h
    obtain ⟨⟨rfl, rfl, hgrant⟩, hid⟩ := Option.ite_none_right_eq_some.mp hlogin
    obtain rfl := Option.some.inj hid
    exact ⟨c, _, _, rfl, hc, hgrant⟩
  · exact absurd h (Option.some_ne_none _).symm

/-- **An event keeps it so.** -/
theorem rootOk_step {w w' : Watched} {e : Event} (h : RootOk w) (hs : watchNext w e = some w') : RootOk w' := by
  obtain ⟨s', hs', rfl⟩ := Option.map_eq_some_iff.mp hs
  have hnext := nextId_step hs'
  clear hs
  cases hroot : w.server.rootLogin e with
  | some i =>
    -- root logs in
    obtain ⟨c, password, env, rfl, hc, hgrant⟩ := rootLogin_some hroot
    obtain ⟨c', hc', hnext'⟩ := Option.bind_eq_some_iff.mp hs'
    obtain ⟨_, hexec⟩ := Option.ite_none_left_eq_some.mp hnext'
    cases hc.symm.trans hc'
    have hid := client?_id hc
    subst hid
    have hlogin : w.server.exec c env (.chat (bytes "login") rootName password) =
        w.server.admitUser c rootName password :=
      (exec_chatLogin w.server c env rootName password).trans (chatLogin_admitted hgrant)
    have hsessions := (admitUser_effect w.server c rootName password).2
    rw [← hlogin, Option.some.inj hexec] at hsessions
    exact h.login hnext hc hsessions
  | none =>
    refine ⟨chatNext_sessions hs' h.rooted ?_ ?_ ?_, fun i hi => Nat.lt_of_lt_of_le (h.used i hi) hnext⟩
    · intro type _
      refine ⟨fun hno => absurd hno (Option.some_ne_none _).symm, fun hmem => ?_⟩
      exact absurd (h.used _ hmem) (Nat.lt_irrefl _)
    · intro id c name password env he hc hgrant
      refine ⟨fun heq => ?_, fun hmem => absurd hmem (h.free hc (admitsUser_iff.mp hgrant).1)⟩
      -- the name is another one
      have hname : name = rootName := Option.some.inj heq
      simp only [he, Server.rootLogin] at hroot
      rw [hc, Option.bind_some, if_pos ⟨trivial, hname, hgrant⟩] at hroot
      exact absurd hroot (Option.some_ne_none _)
    · intro id c userid nodename username env _ hc hgrant
      exact ⟨fun hno => absurd hno (Option.some_ne_none _).symm,
        fun hmem => absurd hmem (h.free hc (admitsNode_iff.mp hgrant).1)⟩

theorem rootOk_run {rows : List UserRow} {w : Watched}
    (h : Reaches watchNext (fun _ _ => True) (watchStart rows) w) : RootOk w :=
  Reaches.invariant RootOk ⟨fun _ hx => absurd hx List.not_mem_nil, fun _ hi => absurd hi List.not_mem_nil⟩
    (fun _ _ _ hI _ hs => rootOk_step hI hs) h

/-- The server of a watched run. -/
theorem watched_server {rows : List UserRow} {w : Watched}
    (h : Reaches watchNext (fun _ _ => True) (watchStart rows) w) :
    Reaches chatNext (fun _ _ => True) (serverStart rows) w.server := by
  induction h with
  | start => exact .start
  | step e _ _ hs ih =>
    obtain ⟨s', hs', rfl⟩ := Option.map_eq_some_iff.mp hs
    exact .step e ih trivial hs'

/-- A client that is logged in is a USER or a NODE; if it is a USER, it is one with its name. -/
theorem userName?_user {x : Session} (hok : Session.Ok x) (hin : x.isvaliduser = true)
    (htype : x.mynodeType = typeUser) : x.userName? = some x.username := by
  unfold Session.userName?
  rw [← hok.flags, hin, htype]
  rfl

theorem userName?_node {x : Session} (htype : x.mynodeType = typeNode) : x.userName? = none := by
  unfold Session.userName?
  rw [htype]
  simp [typeUser, typeNode]

/-- **Only connections that root has logged in on get the list or change the directory, exactly if no
    node of the account root is logged in.** In every state that any run reaches, for every command. -/
theorem root_only (rows : List UserRow) (w : Watched) (h : Reaches watchNext (fun _ _ => True) (watchStart rows) w) :
    (∀ id cmd env s', chatNext w.server (.command id cmd env) = some s' → Privileged w.server s' id cmd →
      id ∈ w.rooted) ↔ NoRootNode w.server := by
  have hrooted := (rootOk_run h).rooted
  have hok := sessions_ok (watched_server h)
  constructor
  · intro honly id c hc hopen hin htype hroot
    -- the node asks for the list
    have hexec : w.server.exec c openEnv (.chat (bytes "debug") [] []) = w.server.myDebugEntry c openEnv :=
      chatCommand_debug hin [] [] openEnv
    have hdumps : Privileged w.server (w.server.myDebugEntry c openEnv) id (.chat (bytes "debug") [] []) :=
      Or.inr ⟨rfl, dumps_root hc hopen hroot openEnv⟩
    have hmem := honly id (.chat (bytes "debug") [] []) openEnv _
      (by rw [chatNext_command hc hopen, hexec]) hdumps
    have huser := (hrooted _ (List.mem_of_find?_eq_some (sessions_find hc))).mpr hmem
    rw [userName?_node htype] at huser
    exact Option.some_ne_none _ huser.symm
  · intro hno id cmd env s' hs' hpriv
    obtain ⟨c, hc, hs'⟩ := Option.bind_eq_some_iff.mp hs'
    obtain ⟨hopen, hs'⟩ := Option.ite_none_left_eq_some.mp hs'
    rw [Bool.not_eq_true] at hopen
    cases hs'
    obtain ⟨hin, hroot⟩ := privileged_root hc hopen hpriv
    rcases (hok.client hc).type hin with htype | htype
    · refine (hrooted _ (List.mem_of_find?_eq_some (sessions_find hc))).mp ?_
      rw [userName?_user (hok.client hc) hin htype, hroot]
    · exact absurd hroot (hno id c hc hopen hin htype)

/-! ## 5. A node of root -/

/-- One account, root. -/
def rootRows : List UserRow := [⟨bytes "1", rootName, []⟩]

/-- A connection logs in as a node of root. -/
def rootNodeLogin : List Event :=
  [.connect 0, .command 0 (.node (bytes "login") (bytes "1") (bytes "tv")) closedEnv]

theorem root_only_node : ∃ w, Reaches watchNext (fun _ _ => True) (watchStart rootRows) w ∧
      ((∀ id cmd env s', chatNext w.server (.command id cmd env) = some s' → Privileged w.server s' id cmd →
        id ∈ w.rooted) ↔ NoRootNode w.server) := by
  have hview : ((runEvents watchNext (watchStart rootRows) rootNodeLogin).map fun w => w.rooted) = some [] := by
    decide +kernel
  obtain ⟨w, hw, _⟩ := Option.map_eq_some_iff.mp hview
  have hrun := Reaches.start.runEvents (fun _ _ _ => trivial) hw
  exact ⟨w, hrun, root_only rootRows w hrun⟩

/-- **A connection that gave no password makes an account**: it logs in as a node with the userid of
    root, and then `chat adduser` works. -/
theorem rootNode_adds : ∃ w s', Reaches watchNext (fun _ _ => True) (watchStart rootRows) w ∧ w.rooted = [] ∧
      chatNext w.server (.command 0 (.chat (bytes "adduser") (bytes "9") (bytes "eve")) closedEnv) = some s' ∧
      s'.dir.names = bytes "eve" :: w.server.dir.names := by
  have hview : ((runEvents watchNext (watchStart rootRows) rootNodeLogin).bind fun w =>
      (chatNext w.server (.command 0 (.chat (bytes "adduser") (bytes "9") (bytes "eve")) closedEnv)).map fun s' =>
        (w.rooted, decide (s'.dir.names = bytes "eve" :: w.server.dir.names))) = some ([], true) := by decide +kernel
  obtain ⟨w, hw, hrest⟩ := Option.bind_eq_some_iff.mp hview
  obtain ⟨s', hs', hfacts⟩ := Option.map_eq_some_iff.mp hrest
  simp only [Prod.mk.injEq, decide_eq_true_eq] at hfacts
  exact ⟨w, s', Reaches.start.runEvents (fun _ _ _ => trivial) hw, hfacts.1, hs', hfacts.2⟩

end SmartHome.Chat
