/-
  Subject:   WHAT A CONNECTION HEARS THAT IS NOT LOGGED IN.

  Nothing, one would say. But `_chatSend` does not ask whether a client is logged in. It compares the
  type, which `createClient` leaves as the memory holds it, and the name, which is empty; and it skips
  the name if the line is for `all`. So a connection whose type happens to be USER hears who comes and
  goes and what is said to everybody, before it has given any password.

  * `Overhears` -- the line of a step, its type and its name fit such a connection;
  * **`anonymous_hears`** -- in every state any run reaches, that is exactly what it hears of the others;
    `anonymous_overhears` -- a connection that hears a login.
-/
import SmartHome.Chat.Sessions

namespace SmartHome.Chat

open SmartHome.Lib

/-! ## 1. Who gets a line -/

/-- A client's queue grows exactly if the line is for it and it is not about to be closed. -/
theorem sendTo_out (d : Client) (dest : Bytes) (toType : UInt8) (r : Reply) :
    (d.sendTo dest toType r).out ≠ d.out ↔ d.receives dest toType = true ∧ d.closing = false := by
  unfold Client.sendTo Client.addReplyString
  split
  · rename_i hreceives
    split
    · rename_i hclosing
      exact ⟨fun h => absurd rfl h, fun h => absurd (hclosing.symm.trans h.2) Bool.noConfusion⟩
    · rename_i hopen
      refine ⟨fun _ => ⟨hreceives, Bool.not_eq_true _ ▸ hopen⟩, fun _ heq => ?_⟩
      exact absurd (List.append_right_eq_self.mp heq) (List.cons_ne_nil r [])
  · rename_i hno
    exact ⟨fun h => absurd rfl h, fun h => absurd h.1 hno⟩

/-- A line for nodes: the type and the node name decide. -/
theorem receives_node (d : Client) (dest : Bytes) :
    d.receives dest typeNode = true ↔ d.mynodeType = typeNode ∧ (dest = bytes "all" ∨ d.nodename = dest) := by
  unfold Client.receives
  simp [beq_iff_eq]

/-- A line for users: the type and the user name decide. -/
theorem receives_user (d : Client) (dest : Bytes) :
    d.receives dest typeUser = true ↔ d.mynodeType = typeUser ∧ (dest = bytes "all" ∨ d.username = dest) := by
  have hne : (typeUser == typeNode) = false := by decide
  unfold Client.receives
  simp [beq_iff_eq, hne]

/-- The line of `node say`. -/
theorem saySend_toType {y : Session} {dest message : Bytes} {x : Send} (h : y.saySend dest message = some x) :
    x.toType = typeUser ∨ x.toType = typeNode := by
  unfold Session.saySend at h
  split at h
  · cases h
    exact Or.inr rfl
  · obtain ⟨_, h⟩ := Option.ite_none_right_eq_some.mp h
    cases h
    exact Or.inl rfl

/-- The line of a client that leaves. -/
theorem leaveSend_toType {y : Session} {x : Send} (h : y.leaveSend = some x) : x.toType = typeUser := by
  obtain ⟨_, h⟩ := Option.ite_none_left_eq_some.mp h
  split at h
  · cases h
    rfl
  · obtain ⟨_, h⟩ := Option.ite_none_right_eq_some.mp h
    cases h
    rfl

/-- The line of a command. -/
theorem commandSend_toType {s : Server} {c : Client} {env : Env} {cmd : Command} {x : Send}
    (h : s.commandSend c env cmd = some x) : x.toType = typeUser ∨ x.toType = typeNode := by
  cases cmd with
  | chat argv1 argv2 argv3 =>
    simp only [Server.commandSend] at h
    split at h
    · obtain ⟨_, h⟩ := Option.ite_none_right_eq_some.mp h
      cases h
      exact Or.inl rfl
    · obtain ⟨_, h⟩ := Option.ite_none_left_eq_some.mp h
      obtain ⟨_, h⟩ := Option.ite_none_right_eq_some.mp h
      obtain ⟨_, h⟩ := Option.ite_none_left_eq_some.mp h
      obtain ⟨_, h⟩ := Option.ite_none_left_eq_some.mp h
      cases h
      exact Or.inl rfl
  | node argv1 argv2 argv3 =>
    simp only [Server.commandSend] at h
    split at h
    · obtain ⟨username, -, rfl⟩ := Option.map_eq_some_iff.mp h
      exact Or.inl rfl
    · obtain ⟨_, h⟩ := Option.ite_none_left_eq_some.mp h
      obtain ⟨_, h⟩ := Option.ite_none_right_eq_some.mp h
      exact saySend_toType h
  | register argv1 argv2 argv3 argv4 argv5 => exact absurd h (Option.some_ne_none _).symm

/-- Lines are for users or for nodes. -/
theorem sends_toType {s : Server} {e : Event} {x : Send} (h : s.sends e = some x) :
    x.toType = typeUser ∨ x.toType = typeNode := by
  cases e with
  | connect type => exact absurd h (Option.some_ne_none _).symm
  | command id cmd env =>
    obtain ⟨c, _, hx⟩ := Option.bind_eq_some_iff.mp h
    exact commandSend_toType (Option.ite_none_left_eq_some.mp hx).2
  | quit id last => exact absurd h (Option.some_ne_none _).symm
  | free id =>
    obtain ⟨c, _, hx⟩ := Option.bind_eq_some_iff.mp h
    exact Or.inl (leaveSend_toType hx)

/-! ## 2. In every run -/

/-- **The line of the step fits a client without names**: the type is the one the memory held, and the
    line is for `all` or for the empty name. -/
def Overhears (s : Server) (e : Event) (d : Client) : Prop :=
  ∃ x, s.sends e = some x ∧ d.mynodeType = x.toType ∧ (x.dest = bytes "all" ∨ x.dest = [])

/-- A client without names gets a line exactly if it fits. -/
theorem hear_out {d : Client} (hu : d.username = []) (hn : d.nodename = []) {x : Send}
    (htype : x.toType = typeUser ∨ x.toType = typeNode) :
    (d.hear x).out ≠ d.out ↔ d.closing = false ∧ d.mynodeType = x.toType ∧ (x.dest = bytes "all" ∨ x.dest = []) := by
  unfold Client.hear
  rw [sendTo_out]
  have hreceives : d.receives x.dest x.toType = true ↔
      d.mynodeType = x.toType ∧ (x.dest = bytes "all" ∨ x.dest = []) := by
    rcases htype with htype | htype
    · rw [htype, receives_user, hu, eq_comm (a := [])]
    · rw [htype, receives_node, hn, eq_comm (a := [])]
  rw [hreceives]
  exact and_comm

/-- **A client that is not logged in hears nothing of a step of another, exactly if the line does not
    fit it.** In every state that any run reaches, for every step. -/
theorem anonymous_hears (rows : List UserRow) (s : Server)
    (h : Reaches chatNext (fun _ _ => True) (serverStart rows) s) (e : Event) (s' : Server)
    (hs : chatNext s e = some s') (i : Nat) (d : Client) (hd : s.client? i = some d)
    (hother : e.client ≠ some i) (hout : d.isvaliduser = false) :
    ∃ d', s'.client? i = some d' ∧ (d'.out = d.out ↔ d.closing = true ∨ ¬ Overhears s e d) := by
  obtain ⟨hu, hn⟩ := ((sessions_ok h).client hd).names hout
  refine ⟨_, others_hear hs hd hother, ?_⟩
  cases hx : s.sends e with
  | none =>
    refine ⟨fun _ => Or.inr ?_, fun _ => rfl⟩
    rintro ⟨x, hsends, -⟩
    exact absurd (hsends.symm.trans hx) (Option.some_ne_none _)
  | some x =>
    have hfits : Overhears s e d ↔ d.mynodeType = x.toType ∧ (x.dest = bytes "all" ∨ x.dest = []) := by
      constructor
      · rintro ⟨y, hy, hrest⟩
        cases hx.symm.trans hy
        exact hrest
      · exact fun hrest => ⟨x, hx, hrest⟩
    have hgrows := hear_out hu hn (x := x) (sends_toType hx)
    rw [← hfits] at hgrows
    constructor
    · intro hsame
      by_contra hno
      rw [not_or, not_not, Bool.not_eq_true] at hno
      exact hgrows.mpr hno hsame
    · intro hno
      by_contra hne
      obtain ⟨hopen, hover⟩ := hgrows.mp hne
      rcases hno with hclosing | hno
      · exact absurd (hclosing.symm.trans hopen) Bool.noConfusion
      · exact hno hover

/-! ## 3. A connection that says nothing -/

/-- The database knows every name and password. -/
def openEnv : Env := ⟨fun _ _ => true, fun _ => false, fun _ => true, fun _ => true, [], id, id⟩

/-- The database knows no password. -/
def closedEnv : Env := { openEnv with isValidUser := fun _ _ => false }

/-- The database knows Alice, under any spelling. -/
def aliceEnv : Env := { openEnv with isValidUser := fun name _ => lower name == bytes "alice" }

/-- One account. -/
def aliceRows : List UserRow := [⟨bytes "17", bytes "alice", []⟩]

/-- Two connections; the memory of both held a zero. -/
def twoClients : Server := ((serverStart aliceRows).createClient 0).createClient 0

theorem twoClients_run : Reaches chatNext (fun _ _ => True) (serverStart aliceRows) twoClients :=
  .step (.connect 0) (.step (.connect 0) .start trivial rfl) trivial rfl

/-- The first one logs in. -/
def aliceLogin : Event := .command 0 (.chat (bytes "login") (bytes "alice") (bytes "x")) openEnv

/-- A connection. -/
def newClient (id : Nat) : Client := ⟨Session.new 0, id, false, []⟩

theorem anonymous_hears_alice : ∃ s', chatNext twoClients aliceLogin = some s' ∧ ∃ d', s'.client? 1 = some d' ∧
        (d'.out = [] ↔ (newClient 1).closing = true ∨ ¬ Overhears twoClients aliceLogin (newClient 1)) :=
  ⟨_, rfl, anonymous_hears aliceRows twoClients twoClients_run aliceLogin _ rfl 1 (newClient 1) rfl
    (by simp [aliceLogin, Event.client]) rfl⟩

/-- **A connection that has said nothing hears who logs in.** -/
theorem anonymous_overhears : ∃ s' d', Reaches chatNext (fun _ _ => True) (serverStart aliceRows) twoClients ∧
      twoClients.client? 1 = some (newClient 1) ∧ (newClient 1).isvaliduser = false ∧
      chatNext twoClients aliceLogin = some s' ∧ s'.client? 1 = some d' ∧
      d'.out = (newClient 1).out ++ [reply (bytes "userinfo ok alice on\r\n")] := by
  have hview : ((chatNext twoClients aliceLogin).bind fun s' => (s'.client? 1).map fun d' =>
      decide (d'.out = [reply (bytes "userinfo ok alice on\r\n")])) = some true := by decide +kernel
  obtain ⟨s', hs', hrest⟩ := Option.bind_eq_some_iff.mp hview
  obtain ⟨d', hd', hout⟩ := Option.map_eq_some_iff.mp hrest
  exact ⟨s', d', twoClients_run, rfl, rfl, hs', hd', decide_eq_true_iff.mp hout⟩

end SmartHome.Chat
