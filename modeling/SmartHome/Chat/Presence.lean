/-
  Subject:   WHO IS ON LINE: the directory and the connections.

  The directory says of every node whether it is on line. That should be the same as a connection that
  is logged in as this node. A login sets the line, the end of the connection clears it, and a second
  login for a node that is on line should be refused. But `nodeLogin` asks for the line of the names the
  client already has, and a client that may log in has none. So the second login succeeds, there are
  two connections for one node, and the first to leave takes the node off line.

  * `Server.online`, `Present` -- the nodes that are logged in, and that they are the ones on line;
  * `LoginOk` -- no client asks for a node that is on line, unless the test it is given happens to hold;
  * **`nodes_present`** -- then the directory is right in every state, and a login for a node that is on
    line is refused exactly if it meets `LoginOk`; `doubleLogin` -- one that does not.
-/
import SmartHome.Lib.Roster
import SmartHome.Chat.Overheard

namespace SmartHome.Chat

open SmartHome.Lib

/-! ## 1. Nodes that are logged in -/

/-- The clients that are logged in as a node of an account. -/
def Server.nodeClients (s : Server) (username nodename : Bytes) : List Client :=
  s.clients.filter fun c =>
    c.isvaliduser && c.isvalidnode && c.mynodeType == typeNode && c.username == username && c.nodename == nodename

/-- The nodes that are logged in, once for every client. -/
def Server.online (s : Server) : List (Bytes × Bytes) := s.sessions.filterMap fun x => x.2.nodeKey

theorem nodeKey_beq (x : Session) (username nodename : Bytes) :
    (x.nodeKey == some (username, nodename)) =
      (x.isvaliduser && x.isvalidnode && x.mynodeType == typeNode && x.username == username &&
        x.nodename == nodename) := by
  unfold Session.nodeKey
  cases hkey : x.isvaliduser && x.isvalidnode && x.mynodeType == typeNode with
  | false => simp
  | true =>
    rw [if_pos rfl, Bool.true_and]
    rfl

/-- The clients of a node, counted. -/
theorem nodeClients_length (s : Server) (username nodename : Bytes) :
    (s.nodeClients username nodename).length = s.online.count (username, nodename) := by
  unfold Server.online Server.sessions Server.nodeClients
  rw [List.count_filterMap, List.countP_map, ← List.countP_eq_length_filter]
  refine List.countP_congr fun c _ => ?_
  simp only [Function.comp_apply, nodeKey_beq]

/-- **The nodes on line are those that are logged in**, each by one client. -/
structure Present (s : Server) : Prop where
  known : ∀ k ∈ s.online, k.1 ∈ s.dir.names
  count : ∀ name ∈ s.dir.names, ∀ nodename,
    s.online.count (name, nodename) = if s.dir.IsOn name nodename then 1 else 0

/-- The list of who is there and the lines agree. -/
theorem present_iff {s : Server} :
    Present s ↔ Counted s.online (fun k => k.1 ∈ s.dir.names) fun k => s.dir.IsOn k.1 k.2 := by
  constructor
  · intro h
    refine ⟨h.known, fun k hk hon => ?_, fun k hk hoff => ?_⟩
    · exact (h.count k.1 hk k.2).trans (if_pos hon)
    · exact (h.count k.1 hk k.2).trans (if_neg hoff)
  · intro h
    refine ⟨h.mem, fun name hname nodename => ?_⟩
    split
    · rename_i hon
      exact h.once (name, nodename) hname hon
    · rename_i hoff
      exact h.none (name, nodename) hname hoff

theorem present_start (rows : List UserRow) : Present (serverStart rows) :=
  present_iff.mpr (counted_nil fun k hk => doMysqlDumpRedis_allOff rows k.1 hk k.2)

/-! ## 2. Events -/

section Events

variable {s s' : Server}

/-- Nobody logs in as a node or leaves. -/
theorem Present.quiet (h : Present s) (hdir : Quiet s.dir s'.dir) (honline : s.online.Perm s'.online) :
    Present s' :=
  present_iff.mpr ((present_iff.mp h).frame (fun k hk => hdir.grows k.1 hk) (fun k hk => hdir.same k.1 hk k.2)
    (fun k hk hnew => hdir.added k.1 hk hnew k.2) honline)

/-- The lines after one was set. -/
theorem isOn_other {d : Directory} {name nodename : Bytes} (line : Line) (hname : name ∈ d.names)
    (hentry : d.getNodeInfo name nodename ≠ none) (k : Bytes × Bytes) (hne : k ≠ (name, nodename))
    (hk : k.1 ∈ d.names) : (d.setNodeInfo name nodename line).IsOn k.1 k.2 ↔ d.IsOn k.1 k.2 := by
  rw [isOn_setNodeInfo line hname hk hentry, if_neg]
  rintro ⟨h1, h2⟩
  exact hne (Prod.ext h1 h2)

/-- **A node logs in** that is not on line. -/
theorem Present.login (h : Present s) {name nodename : Bytes} {d : Directory} (hname : name ∈ s.dir.names)
    (hoff : ¬ s.dir.IsOn name nodename) (hquiet : Quiet s.dir d) (hnames : d.names = s.dir.names)
    (hentry : d.getNodeInfo name nodename ≠ none) (hdir : s'.dir = d.setNodeInfo name nodename .on)
    (honline : s'.online.Perm ((name, nodename) :: s.online)) : Present s' := by
  have hnames' : s'.dir.names = s.dir.names := by
    rw [hdir, names_setNodeInfo, hnames]
  rw [present_iff, hdir]
  have hname' : name ∈ d.names := hnames.symm ▸ hname
  refine (present_iff.mp h).join (fun k => by rw [← hdir, hnames']) hname hoff ?_ (fun k hne hk => ?_) honline
  · exact (isOn_setNodeInfo .on hname' hname' hentry).mpr (by rw [if_pos ⟨rfl, rfl⟩])
  · exact (isOn_other .on hname' hentry k hne (hnames.symm ▸ hk)).trans (hquiet.same k.1 hk k.2)

/-- **A node leaves.** -/
theorem Present.logout (h : Present s) {name nodename : Bytes} (hdir : s'.dir = s.dir.setNodeInfo name nodename .off)
    (honline : s.online.Perm ((name, nodename) :: s'.online)) : Present s' := by
  have hkey : (name, nodename) ∈ s.online := honline.mem_iff.mpr List.mem_cons_self
  have hname : name ∈ s.dir.names := h.known _ hkey
  have hon : s.dir.IsOn name nodename := (present_iff.mp h).isOn hkey
  have hentry : s.dir.getNodeInfo name nodename ≠ none := by
    rw [show s.dir.getNodeInfo name nodename = some .on from hon]
    exact Option.some_ne_none _
  have hnames' : s'.dir.names = s.dir.names := by
    rw [hdir, names_setNodeInfo]
  rw [present_iff, hdir]
  refine (present_iff.mp h).leave (fun k => by rw [← hdir, hnames']) (fun hno => ?_)
    (fun k hne hk => isOn_other .off hname hentry k hne hk) honline
  rw [isOn_setNodeInfo .off hname hname hentry, if_pos ⟨rfl, rfl⟩] at hno
  exact Line.noConfusion hno

end Events

/-! ## 3. Runs -/

/-- **No client asks for a node that is on line**, unless the node of no name of the account of no name
    is on line too: that is the one whose line the login looks at. -/
def LoginOk (s : Server) (e : Event) : Prop :=
  ∀ id userid nodename env, e = .command id (.node (bytes "login") userid nodename) env →
    ∀ c username, s.client? id = some c → (c.isvaliduser || c.isvalidnode) = false →
      s.dir.getNameByUserid userid = some username → s.dir.IsOn username nodename → s.dir.IsOn [] []

/-- A client that is not logged in has no names. -/
theorem SessionsOk.free {s : Server} (h : SessionsOk s) {id : Nat} {c : Client} (hc : s.client? id = some c)
    (hfree : (c.isvaliduser || c.isvalidnode) = false) : c.username = [] ∧ c.nodename = [] :=
  (h.client hc).names (Bool.or_eq_false_iff.mp hfree).1

/-- **An event that meets `LoginOk` keeps the directory right.** -/
theorem present_step {s s' : Server} {e : Event} (hs : SessionsOk s) (h : Present s) (hok : LoginOk s e)
    (hchange : Change s s' e) : Present s' := by
  cases hchange with
  | quiet hdir hsessions =>
    refine h.quiet hdir ?_
    unfold Server.online
    rw [hsessions]
  | connect hdir hsessions =>
    refine h.quiet (hdir ▸ Quiet.refl s.dir) ?_
    unfold Server.online
    rw [hsessions, List.filterMap_append]
    exact List.Perm.of_eq (List.append_nil _).symm
  | userLogin hc hfree hdir hsessions =>
    refine h.quiet hdir ?_
    unfold Server.online
    rw [hsessions]
    refine List.Perm.of_eq (filterMap_modifyFirst fun x hx => ?_).symm
    rw [sessions_find hc] at hx
    cases hx
    exact (nodeKey_free hfree).symm
  | nodeLogin hc hfree hname htest hret hdir hsessions =>
    have hnames := getNameByUserid_mem hname
    obtain ⟨hu, hn⟩ := hs.free hc hfree
    have hoff : ¬ s.dir.IsOn _ _ := fun hon =>
      htest (by rw [hu, hn]; exact hok _ _ _ _ rfl _ _ hc hfree hname hon)
    refine h.login hnames hoff (quiet_insertNode s.dir _ _) (names_insertNode s.dir _ _)
      (getNodeInfo_insertNode hnames hret) hdir ?_
    unfold Server.online
    rw [hsessions]
    exact filterMap_modifyFirst_new (sessions_find hc) (nodeKey_free hfree) rfl
  | leave hc hkey hdir hsessions =>
    refine h.quiet hdir ?_
    unfold Server.online
    rw [hsessions]
    have hperm := filterMap_eraseP (g := fun x : Nat × Session => x.2.nodeKey) (sessions_find hc)
    rw [hkey] at hperm
    exact hperm
  | nodeLeave hc hkey hdir hsessions =>
    refine h.logout hdir ?_
    unfold Server.online
    rw [hsessions]
    have hperm := filterMap_eraseP (g := fun x : Nat × Session => x.2.nodeKey) (sessions_find hc)
    rw [hkey] at hperm
    exact hperm

/-- **In every run of such events the directory is right.** -/
theorem present_run {rows : List UserRow} {s : Server} (h : Reaches chatNext LoginOk (serverStart rows) s) :
    SessionsOk s ∧ Present s :=
  Reaches.invariant (fun s => SessionsOk s ∧ Present s) ⟨fun _ hx => absurd hx List.not_mem_nil, present_start rows⟩
    (fun _ _ _ hI hok hs => ⟨sessionsOk_step hI.1 hs, present_step hI.1 hI.2 hok (chatNext_change hs)⟩) h

/-! ## 4. A second login -/

/-- A change to the clients that changes none. -/
theorem withClients_self (s : Server) {cs : List Client} (h : cs.map Client.id = s.clients.map Client.id)
    (hcs : cs = s.clients) : s.withClients cs h = s := by
  subst hcs
  rfl

/-- Clearing the flags of a client that was only sent a line. -/
theorem setSession_refuse {s : Server} {id : Nat} {c : Client} (hc : s.client? id = some c)
    (hfree : (c.isvaliduser || c.isvalidnode) = false) (r : Reply) :
    (s.addReplyString id r).setSession id Session.refuse = s.addReplyString id r := by
  refine withClients_self _ _ (modifyFirst_id fun d hd => ?_)
  have hfound : (s.addReplyString id r).clients.find? (fun c => c.id == id) = (s.client? id).map fun c =>
      c.addReplyString r := find?_modifyFirst fun c => by rw [c.addReplyString_id]
  rw [hfound, hc] at hd
  cases hd
  have hsession : Session.refuse (c.addReplyString r).toSession = (c.addReplyString r).toSession := by
    rw [c.addReplyString_session]
    exact refuse_free hfree
  rw [hsession]

section Second

variable {s : Server} {id : Nat} {c : Client} {userid nodename username : Bytes} {env : Env}

theorem chatNext_nodeLogin (hc : s.client? id = some c) (hopen : c.closing = false) :
    chatNext s (.command id (.node (bytes "login") userid nodename) env) = some (s.nodeLogin c userid nodename) := by
  rw [chatNext_command hc hopen, exec_nodeLogin]

/-- `LoginOk` for the login of a client. -/
theorem loginOk_iff (hc : s.client? id = some c) (hname : s.dir.getNameByUserid userid = some username)
    (hon : s.dir.IsOn username nodename) :
    LoginOk s (.command id (.node (bytes "login") userid nodename) env) ↔
      ((c.isvaliduser || c.isvalidnode) = false → s.dir.IsOn [] []) := by
  constructor
  · intro hok hfree
    exact hok id userid nodename env rfl c username hc hfree hname hon
  · intro h id' userid' nodename' env' he c' username' hc' hfree' _ _
    cases he
    rw [hc] at hc'
    cases hc'
    exact h hfree'

/-- **A login for a node that is on line is refused** if the client is logged in or the test holds. -/
theorem secondLogin_refused (hs : SessionsOk s) (hc : s.client? id = some c)
    (hname : s.dir.getNameByUserid userid = some username)
    (hok : (c.isvaliduser || c.isvalidnode) = false → s.dir.IsOn [] []) :
    s.nodeLogin c userid nodename = s.addReplyString id errAlreadyLogin := by
  have hid := client?_id hc
  subst hid
  cases hfree : c.isvaliduser || c.isvalidnode with
  | true => exact nodeLogin_again hfree
  | false =>
    obtain ⟨hu, hn⟩ := hs.free hc hfree
    have htest : s.dir.IsOn c.username c.nodename := by
      rw [hu, hn]
      exact hok hfree
    rw [nodeLogin_on hfree hname htest]
    exact setSession_refuse hc hfree errAlreadyLogin

/-- **Otherwise it is not**: the client is a NODE afterwards. -/
theorem secondLogin_admitted (hs : SessionsOk s) (hc : s.client? id = some c)
    (hfree : (c.isvaliduser || c.isvalidnode) = false) (hname : s.dir.getNameByUserid userid = some username)
    (hon : s.dir.IsOn username nodename) (htest : ¬ s.dir.IsOn [] []) :
    s.nodeLogin c userid nodename ≠ s.addReplyString id errAlreadyLogin := by
  intro heq
  obtain ⟨hu, hn⟩ := hs.free hc hfree
  have hentry : s.dir.getNodeInfo username nodename ≠ none := by
    rw [show s.dir.getNodeInfo username nodename = some .on from hon]
    exact Option.some_ne_none _
  have hret : (s.dir.insertNodeToUserInfo username nodename).1 ≠ -1 := by
    rw [insertNode_of_entry hentry]
    decide
  have hgrant : s.admitsNode c userid nodename = some username :=
    admitsNode_iff.mpr ⟨hfree, hname, by rw [hu, hn]; exact htest, hret⟩
  obtain ⟨_, hsessions⟩ := admitNode_effect (s.withDir (s.dir.insertNodeToUserInfo username nodename).2) c username
    userid nodename
  have hid := client?_id hc
  subst hid
  rw [← nodeLogin_admitted hgrant, heq, (replies_addReplyString s c.id errAlreadyLogin).sessions] at hsessions
  change s.sessions = modifyFirst _ _ s.sessions at hsessions
  have hfind := find?_modifyFirst (l := s.sessions) (p := fun x => x.1 == c.id)
    (f := fun x => (x.1, x.2.asNode username userid nodename)) fun _ => rfl
  rw [← hsessions, sessions_find hc] at hfind
  have hflag := congrArg Session.isvaliduser (congrArg Prod.snd (Option.some.inj hfind))
  rw [show c.isvaliduser = false from (Bool.or_eq_false_iff.mp hfree).1] at hflag
  exact Bool.false_ne_true hflag

end Second

/-- **In every run of logins that meet `LoginOk` the directory is right**: an entry is on line exactly
    if one client is logged in as this node, and there is never more than one. And a login for an entry
    that is on line is refused, with nothing but the reply, exactly if it meets `LoginOk`. -/
theorem nodes_present (rows : List UserRow) (s : Server) (h : Reaches chatNext LoginOk (serverStart rows) s) :
    (∀ u ∈ s.dir.userInfo, ∀ n ∈ u.nodes, (s.nodeClients u.name n.name).length ≤ 1 ∧
        (n.line = .on ↔ (s.nodeClients u.name n.name).length = 1)) ∧
    ∀ id c userid nodename username env, s.client? id = some c → c.closing = false →
      s.dir.getNameByUserid userid = some username → s.dir.IsOn username nodename →
        (chatNext s (.command id (.node (bytes "login") userid nodename) env) =
            some (s.addReplyString id errAlreadyLogin) ↔
          LoginOk s (.command id (.node (bytes "login") userid nodename) env)) := by
  obtain ⟨hs, hpresent⟩ := present_run h
  refine ⟨fun u hu n hn => ?_, fun id c userid nodename username env hc hopen hname hon => ?_⟩
  · have hcount := hpresent.count u.name (List.mem_map_of_mem hu) n.name
    have hline : s.dir.IsOn u.name n.name ↔ n.line = .on := by
      unfold Directory.IsOn
      rw [getNodeInfo_of_mem hu hn]
      exact ⟨fun h => Option.some.inj h, fun h => congrArg some h⟩
    rw [nodeClients_length, hcount]
    by_cases hon : n.line = .on
    · rw [if_pos (hline.mpr hon)]
      exact ⟨Nat.le_refl 1, fun _ => rfl, fun _ => hon⟩
    · rw [if_neg fun h => hon (hline.mp h)]
      exact ⟨Nat.zero_le 1, fun h => absurd h hon, fun h => absurd h (Nat.zero_ne_one)⟩
  · rw [chatNext_nodeLogin hc hopen, loginOk_iff hc hname hon, Option.some.injEq]
    constructor
    · intro heq hfree
      by_contra htest
      exact secondLogin_admitted hs hc hfree hname hon htest heq
    · exact secondLogin_refused hs hc hname

/-! ## 5. Two clients, one node -/

def noEnv : Env := ⟨fun _ _ => false, fun _ => false, fun _ => false, fun _ => false, [], id, id⟩

def tvLogin (id : Nat) : Event := .command id (.node (bytes "login") (bytes "17") (bytes "tv")) noEnv

/-- The first one logs in. -/
def tvOnce : Server := twoClients.nodeLogin ⟨Session.new 0, 0, false, []⟩ (bytes "17") (bytes "tv")

theorem tvOnce_run : Reaches chatNext LoginOk (serverStart aliceRows) tvOnce := by
  have hconnect : ∀ (s : Server) (type : UInt8), LoginOk s (.connect type) :=
    fun _ _ _ _ _ _ he => Event.noConfusion he
  have htwo : Reaches chatNext LoginOk (serverStart aliceRows) twoClients :=
    .step (.connect 0) (.step (.connect 0) .start (hconnect _ _) rfl) (hconnect _ _) rfl
  refine .step (tvLogin 0) htwo ?_ (chatNext_nodeLogin rfl rfl)
  -- nothing is on line yet
  have hname : twoClients.dir.getNameByUserid (bytes "17") = some (bytes "alice") := by decide +kernel
  have hoff : ¬ twoClients.dir.IsOn (bytes "alice") (bytes "tv") := by decide +kernel
  intro id userid nodename env he c username _ _ hn hon
  cases he
  rw [hname] at hn
  cases hn
  exact absurd hon hoff

theorem nodes_present_once :
    tvOnce.dir.IsOn (bytes "alice") (bytes "tv") ∧ (∀ u ∈ tvOnce.dir.userInfo, ∀ n ∈ u.nodes,
        (tvOnce.nodeClients u.name n.name).length ≤ 1 ∧
          (n.line = .on ↔ (tvOnce.nodeClients u.name n.name).length = 1)) ∧
      (chatNext tvOnce (tvLogin 0) = some (tvOnce.addReplyString 0 errAlreadyLogin) ↔ LoginOk tvOnce (tvLogin 0)) := by
  have hon : tvOnce.dir.IsOn (bytes "alice") (bytes "tv") := by decide +kernel
  have hname : tvOnce.dir.getNameByUserid (bytes "17") = some (bytes "alice") := by decide +kernel
  have hclient : (tvOnce.client? 0).map Client.closing = some false := by decide +kernel
  obtain ⟨c, hc, hopen⟩ := Option.map_eq_some_iff.mp hclient
  obtain ⟨hlines, hsecond⟩ := nodes_present aliceRows tvOnce tvOnce_run
  exact ⟨hon, hlines, hsecond 0 c _ _ _ _ hc hopen hname hon⟩

/-- **A second client logs in as a node that is on line.** Then two clients are this node; when the
    first leaves, the entry is off line though the second is still there. -/
theorem doubleLogin : ∃ s s' : Server, Reaches chatNext (fun _ _ => True) (serverStart aliceRows) tvOnce ∧
      tvOnce.dir.getNodeInfo (bytes "alice") (bytes "tv") = some .on ∧
      chatNext tvOnce (tvLogin 1) = some s ∧ chatNext s (.free 0) = some s' ∧
      s.dir.getNodeInfo (bytes "alice") (bytes "tv") = some .on ∧
      (s.nodeClients (bytes "alice") (bytes "tv")).length = 2 ∧
      s'.dir.getNodeInfo (bytes "alice") (bytes "tv") = some .off ∧
      (s'.nodeClients (bytes "alice") (bytes "tv")).length = 1 := by
  have hsecond : ((chatNext tvOnce (tvLogin 1)).bind fun s => (chatNext s (.free 0)).map fun s' =>
      (s.dir.getNodeInfo (bytes "alice") (bytes "tv"), (s.nodeClients (bytes "alice") (bytes "tv")).length,
        s'.dir.getNodeInfo (bytes "alice") (bytes "tv"), (s'.nodeClients (bytes "alice") (bytes "tv")).length)) =
      some (some .on, 2, some .off, 1) := by decide +kernel
  obtain ⟨s, hs, hrest⟩ := Option.bind_eq_some_iff.mp hsecond
  obtain ⟨s', hs', hview⟩ := Option.map_eq_some_iff.mp hrest
  simp only [Prod.mk.injEq] at hview
  obtain ⟨h1, h2, h3, h4⟩ := hview
  exact ⟨s, s', tvOnce_run.mono fun _ _ _ => trivial, by decide +kernel, hs, hs', h1, h2, h3, h4⟩

end SmartHome.Chat
