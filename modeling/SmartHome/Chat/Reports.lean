/-
  Subject:   WHOM A NODE REACHES WITH `node say`.

  A node reports to the owner of the house: its line goes to the users whose name is the name of its
  account. Here `_chatSend` does look at the account, as a string. But the directory finds an account
  under any spelling of its name, and the session of a user keeps the spelling of the login. So a user
  who came in as `Alice` does not hear the nodes of `alice`. And an account may be called `all`: then
  every user hears its nodes.

  * `OwnUser` -- a user of the node's account, as the directory finds it;
  * `ReportOk` -- the owners came in under the registered name, and nobody else answers to it;
  * **`nodeReport_exact`** -- in every state any run reaches, the line goes to the owners and to nobody
    else exactly if `ReportOk`; `otherSpelling_missed` -- an owner who does not hear it.
-/
import SmartHome.Chat.Overheard

namespace SmartHome.Chat

open SmartHome.Lib

/-! ## 1. Owners -/

/-- The client is logged in as a USER, and the directory finds the account of `c` under its name. -/
def OwnUser (s : Server) (c d : Client) : Prop :=
  d.isvaliduser = true ∧ d.mynodeType = typeUser ∧
    ∃ u, s.dir.dictFetchValue d.username = some u ∧ s.dir.dictFetchValue c.username = some u

/-- **The name of the account reaches its users and nobody else**: each of them is there to stay and came
    in under this very name (or the account is called `all`); no one else hears it, that is, the account
    is not called `all`, and no client that is not logged in happens to have the type USER, unless the
    account has a name. -/
def ReportOk (s : Server) (c : Client) : Prop :=
  ∀ i d, s.client? i = some d → d.mynodeType = typeUser →
    (OwnUser s c d → d.closing = false ∧ (c.username = bytes "all" ∨ d.username = c.username)) ∧
    (¬ OwnUser s c d → d.closing = false →
      c.username ≠ bytes "all" ∧ (d.isvaliduser = false → c.username ≠ []))

/-- `node say` of a NODE. -/
theorem chatNext_nodeReport {s : Server} {id : Nat} {c : Client} (hc : s.client? id = some c)
    (hopen : c.closing = false) (hvalid : c.isvalidnode = true) (htype : c.mynodeType = typeNode)
    (dest message : Bytes) (env : Env) :
    chatNext s (.command id (.node (bytes "say") dest message) env) =
      some (s.chatSend (bytes "node") c.nodename c.username message typeUser) := by
  rw [chatNext_command hc hopen, exec_nodeSay s c env hvalid]
  unfold Server.nodeSay
  rw [htype, if_neg (by decide), if_pos (beq_self_eq_true typeNode)]

/-- **Who gets the line of a NODE.** -/
theorem nodeReport_receives {s : Server} {c : Client} (message : Bytes) {i : Nat} {d d' : Client}
    (hd : s.client? i = some d)
    (hd' : (s.chatSend (bytes "node") c.nodename c.username message typeUser).client? i = some d') :
    d'.out ≠ d.out ↔
      d.closing = false ∧ d.mynodeType = typeUser ∧ (c.username = bytes "all" ∨ d.username = c.username) := by
  rw [client?_chatSend, hd, Option.map_some] at hd'
  cases hd'
  rw [sendTo_out, receives_user]
  exact and_comm

/-! ## 2. In every run -/

/-- **A line of a node goes to the users of its account, and to nobody else, exactly if `ReportOk`.** In
    every state that any run reaches, for every NODE and whatever it says. -/
theorem nodeReport_exact (rows : List UserRow) (s : Server)
    (h : Reaches chatNext (fun _ _ => True) (serverStart rows) s) (id : Nat) (c : Client)
    (hc : s.client? id = some c) (hopen : c.closing = false) (hvalid : c.isvaliduser = true)
    (htype : c.mynodeType = typeNode) (dest message : Bytes) (env : Env) :
    ∃ s', chatNext s (.command id (.node (bytes "say") dest message) env) = some s' ∧
      ((∀ i d d', s.client? i = some d → s'.client? i = some d' → (d'.out ≠ d.out ↔ OwnUser s c d)) ↔
        ReportOk s c) := by
  have hs := sessions_ok h
  have hvalid' : c.isvalidnode = true := (hs.client hc).flags ▸ hvalid
  have hkey : c.nodeKey = some (c.username, c.nodename) := by
    unfold Session.nodeKey
    rw [hvalid, hvalid', htype]
    rfl
  have hname : c.username ∈ s.dir.names :=
    nodes_known h _ (List.mem_of_find?_eq_some (sessions_find hc)) _ hkey
  obtain ⟨u, hu, _⟩ := dictFetchValue_of_name hname
  refine ⟨_, chatNext_nodeReport hc hopen hvalid' htype dest message env, ?_, ?_⟩
  · intro hexact i d hd hdtype
    have hd' := client?_chatSend s (bytes "node") c.nodename c.username message typeUser i
    rw [hd, Option.map_some] at hd'
    have hline := nodeReport_receives message hd hd'
    have hown := hexact i d _ hd hd'
    refine ⟨fun ho => ?_, fun ho hdopen => ⟨fun hall => ?_, fun hout hempty => ?_⟩⟩
    · obtain ⟨hdopen, -, hanswers⟩ := hline.mp (hown.mpr ho)
      exact ⟨hdopen, hanswers⟩
    · exact ho (hown.mp (hline.mpr ⟨hdopen, hdtype, Or.inl hall⟩))
    · have hsame : d.username = c.username := ((hs.client hd).names hout).1.trans hempty.symm
      exact ho (hown.mp (hline.mpr ⟨hdopen, hdtype, Or.inr hsame⟩))
  · intro hok i d d' hd hd'
    rw [nodeReport_receives message hd hd']
    constructor
    · rintro ⟨hdopen, hdtype, hanswers⟩
      by_contra ho
      obtain ⟨hall, hempty⟩ := (hok i d hd hdtype).2 ho hdopen
      rcases hanswers with hanswers | hsame
      · exact hall hanswers
      · cases hdvalid : d.isvaliduser with
        | false => exact hempty hdvalid (hsame.symm.trans ((hs.client hd).names hdvalid).1)
        | true => exact ho ⟨hdvalid, hdtype, u, by rw [hsame]; exact hu, hu⟩
    · intro ho
      obtain ⟨hdopen, hanswers⟩ := (hok i d hd ho.2.1).1 ho
      exact ⟨hdopen, ho.2.1, hanswers⟩

/-! ## 3. Another spelling -/

/-- Alice logs in as `Alice`, and her `tv` as a node. -/
def otherSpelling : List Event :=
  [.connect 0, .connect 0, .command 0 (.chat (bytes "login") (bytes "Alice") (bytes "x")) aliceEnv,
    .command 1 (.node (bytes "login") (bytes "17") (bytes "tv")) aliceEnv]

def reportTv : Event := .command 1 (.node (bytes "say") (bytes "alice") (bytes "hot")) aliceEnv

theorem nodeReport_exact_spelling : ∃ s c s',
    Reaches chatNext (fun _ _ => True) (serverStart aliceRows) s ∧ s.client? 1 = some c ∧
      chatNext s reportTv = some s' ∧
      ((∀ i d d', s.client? i = some d → s'.client? i = some d' → (d'.out ≠ d.out ↔ OwnUser s c d)) ↔
        ReportOk s c) := by
  have hview : ((runEvents chatNext (serverStart aliceRows) otherSpelling).bind fun s => (s.client? 1).map fun c =>
      (c.closing, c.isvaliduser, c.mynodeType)) = some (false, true, typeNode) := by decide +kernel
  obtain ⟨s, hs, hrest⟩ := Option.bind_eq_some_iff.mp hview
  obtain ⟨c, hc, hc'⟩ := Option.map_eq_some_iff.mp hrest
  simp only [Prod.mk.injEq] at hc'
  obtain ⟨hopen, hvalid, htype⟩ := hc'
  have hrun := Reaches.start.runEvents (fun _ _ _ => trivial) hs
  obtain ⟨s', hs', hiff⟩ :=
    nodeReport_exact aliceRows s hrun 1 c hc hopen hvalid htype (bytes "alice") (bytes "hot") aliceEnv
  exact ⟨s, c, s', hrun, hc, hs', hiff⟩

/-- **An owner who does not hear the node.** The directory finds the one account under the name of the
    login and under the name of the node's account, but the names are spelled differently. -/
theorem otherSpelling_missed : ∃ s c d s' d' u, Reaches chatNext (fun _ _ => True) (serverStart aliceRows) s ∧
      s.client? 1 = some c ∧ c.isvaliduser = true ∧ c.mynodeType = typeNode ∧
      s.client? 0 = some d ∧ d.isvaliduser = true ∧ d.mynodeType = typeUser ∧ d.closing = false ∧
      s.dir.dictFetchValue d.username = some u ∧ s.dir.dictFetchValue c.username = some u ∧
      chatNext s reportTv = some s' ∧ s'.client? 0 = some d' ∧ d'.out = d.out := by
  have hview : ((runEvents chatNext (serverStart aliceRows) otherSpelling).bind fun s =>
      (chatNext s reportTv).bind fun s' => (s.client? 1).bind fun c => (s.client? 0).bind fun d =>
        (s'.client? 0).bind fun d' => (s.dir.dictFetchValue c.username).map fun _ =>
          ((c.isvaliduser, c.mynodeType), (d.isvaliduser, d.mynodeType, d.closing),
            lower d.username, lower c.username, decide (d'.out = d.out))) =
      some ((true, typeNode), (true, typeUser, false), bytes "alice", bytes "alice", true) := by decide +kernel
  obtain ⟨s, hs, hrest⟩ := Option.bind_eq_some_iff.mp hview
  obtain ⟨s', hs', hrest⟩ := Option.bind_eq_some_iff.mp hrest
  obtain ⟨c, hc, hrest⟩ := Option.bind_eq_some_iff.mp hrest
  obtain ⟨d, hd, hrest⟩ := Option.bind_eq_some_iff.mp hrest
  obtain ⟨d', hd', hrest⟩ := Option.bind_eq_some_iff.mp hrest
  obtain ⟨u, hu, hfacts⟩ := Option.map_eq_some_iff.mp hrest
  simp only [Prod.mk.injEq, decide_eq_true_eq] at hfacts
  obtain ⟨⟨hcvalid, hctype⟩, ⟨hdvalid, hdtype, hdopen⟩, hdname, hcname, hout⟩ := hfacts
  have hsame : s.dir.dictFetchValue d.username = s.dir.dictFetchValue c.username := by
    unfold Directory.dictFetchValue
    rw [hdname, hcname]
  exact ⟨s, c, d, s', d', u, Reaches.start.runEvents (fun _ _ _ => trivial) hs, hc, hcvalid, hctype, hd, hdvalid,
    hdtype, hdopen, hsame.trans hu, hu, hs', hd', hout⟩

end SmartHome.Chat
