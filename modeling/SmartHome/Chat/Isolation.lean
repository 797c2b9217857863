/-
  Subject:   WHOM A USER REACHES WITH `node say`.

  A user speaks to the nodes of the house: `node say T M` should reach nodes of the user's own account
  and nobody else. `_chatSend` looks at the type of a client and at its node name, and at nothing else:
  not at the account, and not at whether the client is logged in. So a line for `tv` goes to every
  `tv` of every account, and a line for `all` to every node there is. A client that has not logged in
  has whatever type the memory held; if that is NODE, it hears `all`, and what is said to the empty name.

  * `OwnNode`, `SayOk` -- a node of the user's account; no one else answers to the name;
  * `nodeSay_receives` -- who gets the line;
  * **`nodeSay_isolated`** -- in every state any run reaches, the line stays within the account exactly
    if `SayOk`; `sameName_reached` -- two accounts, each with a `tv`.
-/
import SmartHome.Chat.Overheard

namespace SmartHome.Chat

open SmartHome.Lib

/-! ## 1. Who gets the line -/

/-- The client is logged in as a NODE of the account of `c`; accounts are told apart as the directory
    tells them apart, without regard to case. -/
def OwnNode (c d : Client) : Prop :=
  d.isvaliduser = true ∧ d.isvalidnode = true ∧ d.mynodeType = typeNode ∧ lower d.username = lower c.username

/-- **No one else answers to the name**: no NODE of another account has it, and none is addressed with
    all the others; no client that is not logged in happens to have the type NODE, unless the name is
    neither `all` nor empty. -/
def SayOk (s : Server) (c : Client) (dest : Bytes) : Prop :=
  ∀ i d, s.client? i = some d → d.closing = false → d.mynodeType = typeNode →
    (d.isvaliduser = true → lower d.username ≠ lower c.username → dest ≠ bytes "all" ∧ dest ≠ d.nodename) ∧
    (d.isvaliduser = false → dest ≠ bytes "all" ∧ dest ≠ [])

/-- `node say` of a USER. -/
theorem chatNext_nodeSay {s : Server} {id : Nat} {c : Client} (hc : s.client? id = some c)
    (hopen : c.closing = false) (hvalid : c.isvalidnode = true) (htype : c.mynodeType = typeUser)
    (dest message : Bytes) (env : Env) :
    chatNext s (.command id (.node (bytes "say") dest message) env) =
      some (s.chatSend (bytes "node") c.username dest message typeNode) := by
  rw [chatNext_command hc hopen, exec_nodeSay s c env hvalid]
  unfold Server.nodeSay
  rw [htype, if_pos (beq_self_eq_true typeUser)]

/-- **Who gets the line of a USER.** -/
theorem nodeSay_receives {s : Server} {c : Client} (dest message : Bytes) {i : Nat} {d d' : Client}
    (hd : s.client? i = some d)
    (hd' : (s.chatSend (bytes "node") c.username dest message typeNode).client? i = some d') :
    d'.out ≠ d.out ↔ d.closing = false ∧ d.mynodeType = typeNode ∧ (dest = bytes "all" ∨ d.nodename = dest) := by
  rw [client?_chatSend, hd, Option.map_some] at hd'
  cases hd'
  rw [sendTo_out, receives_node]
  exact and_comm

/-! ## 2. In every run -/

/-- **A line stays within the account exactly if no one else answers to the name.** In every state that
    any run reaches, for every USER and whatever the user says. -/
theorem nodeSay_isolated (rows : List UserRow) (s : Server)
    (h : Reaches chatNext (fun _ _ => True) (serverStart rows) s) (id : Nat) (c : Client)
    (hc : s.client? id = some c) (hopen : c.closing = false) (hvalid : c.isvaliduser = true)
    (htype : c.mynodeType = typeUser) (dest message : Bytes) (env : Env) :
    ∃ s', chatNext s (.command id (.node (bytes "say") dest message) env) = some s' ∧
      ((∀ i d d', s.client? i = some d → s'.client? i = some d' → d'.out ≠ d.out → OwnNode c d) ↔
        SayOk s c dest) := by
  have hs := sessions_ok h
  have hvalid' : c.isvalidnode = true := (hs.client hc).flags ▸ hvalid
  refine ⟨_, chatNext_nodeSay hc hopen hvalid' htype dest message env, ?_, ?_⟩
  · intro hown i d hd hdopen hdtype
    -- whoever answers to the name gets the line, so it is a node of the account
    have hanswers : dest = bytes "all" ∨ d.nodename = dest → OwnNode c d := by
      intro hname
      have hd' := client?_chatSend s (bytes "node") c.username dest message typeNode i
      rw [hd, Option.map_some] at hd'
      exact hown i d _ hd hd' ((nodeSay_receives dest message hd hd').mpr ⟨hdopen, hdtype, hname⟩)
    refine ⟨fun _ hother => ⟨fun hall => ?_, fun hname => ?_⟩, fun hout => ⟨fun hall => ?_, fun hempty => ?_⟩⟩
    · exact hother (hanswers (Or.inl hall)).2.2.2
    · exact hother (hanswers (Or.inr hname.symm)).2.2.2
    · exact absurd ((hanswers (Or.inl hall)).1.symm.trans hout) Bool.noConfusion
    · have hname : d.nodename = dest := ((hs.client hd).names hout).2.trans hempty.symm
      exact absurd ((hanswers (Or.inr hname)).1.symm.trans hout) Bool.noConfusion
  · intro hok i d d' hd hd' hout
    obtain ⟨hdopen, hdtype, hname⟩ := (nodeSay_receives dest message hd hd').mp hout
    obtain ⟨hforeign, hanon⟩ := hok i d hd hdopen hdtype
    cases hdvalid : d.isvaliduser with
    | false =>
      obtain ⟨hall, hempty⟩ := hanon hdvalid
      have hnone := ((hs.client hd).names hdvalid).2
      rcases hname with hname | hname
      · exact absurd hname hall
      · exact absurd (hname.symm.trans hnone) hempty
    | true =>
      refine ⟨hdvalid, (hs.client hd).flags ▸ hdvalid, hdtype, ?_⟩
      by_contra hother
      obtain ⟨hall, hne⟩ := hforeign hdvalid hother
      rcases hname with hname | hname
      · exact hall hname
      · exact hne hname.symm

/-! ## 3. Two accounts -/

def twoAccounts : List UserRow := [⟨bytes "17", bytes "alice", []⟩, ⟨bytes "18", bytes "bob", []⟩]

/-- Alice logs in as a user, Bob's `tv` as a node. -/
def twoLogins : List Event :=
  [.connect 0, .connect 0, .command 0 (.chat (bytes "login") (bytes "alice") (bytes "x")) openEnv,
    .command 1 (.node (bytes "login") (bytes "18") (bytes "tv")) openEnv]

def sayTv : Event := .command 0 (.node (bytes "say") (bytes "tv") (bytes "off")) openEnv

theorem nodeSay_isolated_two : ∃ s c s',
    Reaches chatNext (fun _ _ => True) (serverStart twoAccounts) s ∧ s.client? 0 = some c ∧
      chatNext s sayTv = some s' ∧
      ((∀ i d d', s.client? i = some d → s'.client? i = some d' → d'.out ≠ d.out → OwnNode c d) ↔
        SayOk s c (bytes "tv")) := by
  have hview : ((runEvents chatNext (serverStart twoAccounts) twoLogins).bind fun s => (s.client? 0).map fun c =>
      (c.closing, c.isvaliduser, c.mynodeType)) = some (false, true, typeUser) := by decide +kernel
  obtain ⟨s, hs, hrest⟩ := Option.bind_eq_some_iff.mp hview
  obtain ⟨c, hc, hc'⟩ := Option.map_eq_some_iff.mp hrest
  simp only [Prod.mk.injEq] at hc'
  obtain ⟨hopen, hvalid, htype⟩ := hc'
  have hrun := Reaches.start.runEvents (fun _ _ _ => trivial) hs
  obtain ⟨s', hs', hiff⟩ :=
    nodeSay_isolated twoAccounts s hrun 0 c hc hopen hvalid htype (bytes "tv") (bytes "off") openEnv
  exact ⟨s, c, s', hrun, hc, hs', hiff⟩

/-- **A user switches off the neighbour's television**: Alice says `off` to `tv`, and the node of that
    name of Bob's account gets the line. -/
theorem sameName_reached : ∃ s c s' d d', Reaches chatNext (fun _ _ => True) (serverStart twoAccounts) s ∧
      s.client? 0 = some c ∧ c.isvaliduser = true ∧ c.mynodeType = typeUser ∧ c.username = bytes "alice" ∧
      chatNext s sayTv = some s' ∧ s.client? 1 = some d ∧ s'.client? 1 = some d' ∧ d.username = bytes "bob" ∧
      d'.out = d.out ++ [reply (bytes "node ok alice off\r\n")] := by
  have hview : ((runEvents chatNext (serverStart twoAccounts) twoLogins).bind fun s =>
      (chatNext s sayTv).bind fun s' => (s.client? 0).bind fun c => (s.client? 1).bind fun d =>
        (s'.client? 1).map fun d' =>
          ((c.isvaliduser, c.mynodeType, c.username), d.username,
            decide (d'.out = d.out ++ [reply (bytes "node ok alice off\r\n")]))) =
      some ((true, typeUser, bytes "alice"), bytes "bob", true) := by decide +kernel
  obtain ⟨s, hs, hrest⟩ := Option.bind_eq_some_iff.mp hview
  obtain ⟨s', hs', hrest⟩ := Option.bind_eq_some_iff.mp hrest
  obtain ⟨c, hc, hrest⟩ := Option.bind_eq_some_iff.mp hrest
  obtain ⟨d, hd, hrest⟩ := Option.bind_eq_some_iff.mp hrest
  obtain ⟨d', hd', hfacts⟩ := Option.map_eq_some_iff.mp hrest
  simp only [Prod.mk.injEq, decide_eq_true_eq] at hfacts
  obtain ⟨⟨hvalid, htype, hname⟩, hbob, hout⟩ := hfacts
  exact ⟨s, c, s', d, d', Reaches.start.runEvents (fun _ _ _ => trivial) hs, hc, hvalid, htype, hname, hs', hd, hd',
    hbob, hout⟩

end SmartHome.Chat
