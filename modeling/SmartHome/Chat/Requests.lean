/-
  Subject:   WHAT BECOMES OF A REQUEST: from the bytes of one connection among many to commands and sessions.

  The connections of Wire.lean share the server and nothing else. So of each the bytes are served as if it were
  alone (Pipelines.lean), whatever the others send in between; and a session can come only from a request of its
  own connection.

  * **`requests_executed`** -- the requests of a client are executed once each, in their order;
  * **`user_authenticated`** -- a client that is logged in as a USER has sent the login, and the database has
    accepted it then.
-/
import SmartHome.Chat.Wire

namespace SmartHome.Chat

open SmartHome.Lib SmartHome.Redis

/-! ## 1. The requests of a client are executed -/

/-- What a read can give. -/
def WireEvent.CanRead (w : Wire) : WireEvent → Prop
  | .read id data _ => Redis.CanRead (w.readers id) data
  | _ => True

/-- What has become of the requests of a client of which `rest` has not come yet. -/
def RequestsServed (w : Wire) (id : Nat) (rs : List Request) (rest : Sds) : Prop :=
  ∃ taken rs', rs = taken ++ rs' ∧ (w.readers id).served = toExecute taken ∧
    Awaits 32768 (w.readers id).query rest rs' ∧ (rest = [] → rs' = [])

theorem served_start (rows : List UserRow) (id : Nat) (rs : List Request) :
    RequestsServed (wireStart rows) id rs (stream rs) :=
  ⟨[], rs, rfl, rfl, awaits_stream rs, stream_eq_nil⟩

section Requests

variable {seed : UInt32} {w w' : Wire} {id : Nat} {rs : List Request}

/-- A read of the client. -/
theorem served_read {data rest : Sds} {env : Nat → Env} (hrs : ∀ r ∈ rs, r.Proper)
    (hquit : ∀ r ∈ rs.dropLast, isQuit r.argv = false) (h : RequestsServed w id rs (data ++ rest))
    (hdata : Redis.CanRead (w.readers id) data) (hs : wireNext seed w (.read id data env) = some w') :
    RequestsServed w' id rs rest := by
  obtain ⟨taken, rs₁, rfl, htaken, hq, -⟩ := h
  have hquit₁ : ∀ r ∈ rs₁.dropLast, isQuit r.argv = false := fun r hr => hquit r (mem_dropLast_append taken hr)
  obtain ⟨q', taken', rs', hnext, rfl, hq', hend⟩ :=
    read_executed (fun r hr => hrs r (List.mem_append_right _ hr)) hquit₁ hq hdata.2
  obtain ⟨c, hc, hs⟩ := Option.bind_eq_some_iff.1 hs
  unfold readerNext at hnext
  split at hnext
  · rename_i q actions hr
    obtain ⟨rfl, hactions⟩ := Reader.mk.inj (Option.some.inj hnext)
    rw [hr] at hs
    cases hs
    refine ⟨taken ++ taken', rs', (List.append_assoc _ _ _).symm, ?_, ?_, hend⟩
    · simp only [Function.update_self]
      rw [hactions, htaken, toExecute_append]
    · simpa only [Function.update_self] using hq'
  · cases hnext

/-- **One event**, of any client. -/
theorem served_step {e : WireEvent} (hrs : ∀ r ∈ rs, r.Proper) (hquit : ∀ r ∈ rs.dropLast, isQuit r.argv = false)
    (hw : Connected w) (h : ∀ rest, w.received id ++ rest = stream rs → RequestsServed w id rs rest) (he : e.CanRead w)
    (hs : wireNext seed w e = some w') {rest : Sds} (hrest : w'.received id ++ rest = stream rs) :
    RequestsServed w' id rs rest := by
  cases e with
  | connect type =>
    cases hs
    have hreaders : Function.update w.readers w.server.nextId readerStart = w.readers := by
      rw [← hw.fresh _ (le_refl _), Function.update_eq_self]
    rw [hreaders]
    exact h rest hrest
  | free i =>
    obtain ⟨c, hc, rfl⟩ := Option.map_eq_some_iff.1 hs
    exact h rest hrest
  | read i data env =>
    have hread := hs
    obtain ⟨c, hc, hs⟩ := Option.bind_eq_some_iff.1 hs
    split at hs
    · cases hs
      by_cases hi : id = i
      · subst hi
        simp only [Function.update_self, List.append_assoc] at hrest
        exact served_read hrs hquit (h _ hrest) he hread
      · simp only [Function.update_of_ne hi] at hrest
        obtain ⟨taken, rs', hsplit, htaken, hq, hend⟩ := h rest hrest
        refine ⟨taken, rs', hsplit, ?_, ?_, hend⟩
        · simpa only [Function.update_of_ne hi] using htaken
        · simpa only [Function.update_of_ne hi] using hq
    · cases hs
      exact h rest hrest
    · cases hs

end Requests

/-- **Every request is executed once, in its order**: of a client whose bytes are requests within the limits, QUIT if
    at all as the last, what has been executed are the first ones, and all when all has come -- whatever the other
    clients send in between, and however the bytes are cut. -/
theorem requests_executed (seed : UInt32) (rows : List UserRow) {w : Wire}
    (h : Reaches (wireNext seed) (fun w e => e.CanRead w) (wireStart rows) w) (id : Nat) (rs : List Request)
    (hrs : ∀ r ∈ rs, r.Proper) (hquit : ∀ r ∈ rs.dropLast, isQuit r.argv = false) (rest : Sds)
    (hrest : w.received id ++ rest = stream rs) :
    (∃ taken, taken <+: rs ∧ (w.readers id).served = toExecute taken) ∧
      (rest = [] → (w.readers id).served = toExecute rs) := by
  have hserved : ∀ rest, w.received id ++ rest = stream rs → RequestsServed w id rs rest := by
    clear hrest rest
    induction h with
    | start =>
      intro rest hrest
      rw [show rest = stream rs from hrest]
      exact served_start rows id rs
    | step e hreach hok hs ih =>
      exact fun rest hrest => served_step hrs hquit (connected_of_reaches hreach).1 ih hok hs hrest
  obtain ⟨taken, rs', rfl, htaken, -, hend⟩ := hserved rest hrest
  refine ⟨⟨taken, List.prefix_append _ _, htaken⟩, fun hnil => ?_⟩
  rw [hend hnil, List.append_nil]
  exact htaken

instance (w : Wire) (e : WireEvent) : Decidable (e.CanRead w) := by
  cases e with
  | connect type => exact instDecidableTrue
  | read id data env => exact instDecidableAnd
  | free id => exact instDecidableTrue

theorem requests_executed_login : ∃ w, Reaches (wireNext 5381) (fun w e => e.CanRead w) (wireStart []) w ∧
    w.received 1 = chars "quit\r\nnode\r\n" ∧
    (w.readers 0).served = [.execute [chars "CHAT", chars "login", chars "alice", chars "x"]] := by
  have hrun : (runEvents (fun w e => if e.CanRead w then wireNext 5381 w e else none) (wireStart []) loginInPieces).map
        (fun w => (w.received 0, w.received 1)) =
      some (chars "CHAT login alice x\r\n", chars "quit\r\nnode\r\n") := by decide +kernel
  obtain ⟨w, hw, hreceived⟩ := Option.map_eq_some_iff.1 hrun
  obtain ⟨h0, h1⟩ := Prod.mk.inj hreceived
  have hreach : Reaches (wireNext 5381) (fun w e => e.CanRead w) (wireStart []) w := Reaches.start.guarded hw
  refine ⟨w, hreach, h1, ?_⟩
  have hall := (requests_executed 5381 [] hreach 0 [.inline (chars "CHAT login alice x")]
    (fun r hr => by
      rw [List.mem_singleton.1 hr]
      exact ⟨by decide, by decide, by decide, by decide, by decide⟩)
    (fun r hr => absurd hr List.not_mem_nil) []
    (by
      rw [h0]
      decide)).2 rfl
  rw [hall]
  decide

/-! ## 2. Whoever is logged in has asked for it -/

/-- The session of a USER comes from a login of this client that the database has accepted. -/
def Asked (P : Nat → Command → Env → Prop) (x : Nat × Session) : Prop :=
  ∀ u, x.2.userName? = some u →
    ∃ env, env.isValidUser u x.2.password = true ∧ P x.1 (.chat (bytes "login") u x.2.password) env

section Asked

variable {P : Nat → Command → Env → Prop} {events : List Event} {s s' : Server}

theorem asked_none {x : Nat × Session} (h : x.2.userName? = none) : Asked P x :=
  fun u hu => absurd (h.symm.trans hu) (Option.some_ne_none u).symm

/-- One event. -/
theorem asked_step {e : Event} (hkeep : ∀ x ∈ s.sessions, Asked P x) (he : e.Asks P) (hs : chatNext s e = some s') :
    ∀ x ∈ s'.sessions, Asked P x := by
  refine chatNext_sessions hs hkeep (fun _ _ => asked_none rfl) ?_ (fun _ _ _ _ _ _ _ _ _ => asked_none rfl)
  intro id c name password env hcommand _ hgrant u hu
  subst hcommand
  cases hu
  exact ⟨env, (admitsUser_iff.1 hgrant).2.1, he⟩

/-- All events. -/
theorem asked_of_run {rows : List UserRow} (hrun : runEvents chatNext (serverStart rows) events = some s)
    (hasks : ∀ e ∈ events, e.Asks P) : ∀ x ∈ s.sessions, Asked P x := by
  have hreach : Reaches chatNext (fun _ e => e.Asks P) (serverStart rows) s :=
    Reaches.start.runEvents (fun _ e he => hasks e he) hrun
  exact hreach.invariant (fun s => ∀ x ∈ s.sessions, Asked P x) (fun x hx => absurd hx List.not_mem_nil)
    fun s e s' h he hs => asked_step h he hs

end Asked

/-- The request `chat login`. -/
def IsLogin (name password : Bytes) (a : Action) : Prop :=
  ∃ a₀ a₁ a₂ a₃, a = .execute [a₀, a₁, a₂, a₃] ∧ lower (cstr a₀) = bytes "chat" ∧ cstr a₁ = bytes "login" ∧
    cstr a₂ = name ∧ cstr a₃ = password

theorem isLogin_of_command {seed : UInt32} {a : Action} {name password : Bytes}
    (h : commandOf seed a = some (.chat (bytes "login") name password)) : IsLogin name password a := by
  cases a with
  | error message => cases h
  | execute argv =>
    obtain ⟨a₀, a₁, a₂, a₃, rfl, hname, h₁, h₂, h₃⟩ := toCommand_chat h
    exact ⟨a₀, a₁, a₂, a₃, rfl, hname, h₁, h₂, h₃⟩

/-- In a run, the database answers `answers` to a command of a client: where the read is that completes the
    request. -/
def AskedAt (seed : UInt32) (rows : List UserRow) (events : List WireEvent) (id : Nat) (a : Action) (answers : Env) :
    Prop :=
  ∃ before data env after w i, events = before ++ .read id data env :: after ∧
    runEvents (wireNext seed) (wireStart rows) before = some w ∧ w.Completes id data i a ∧ env i = answers

/-- **Whoever is logged in as a USER has sent the login**: among the requests of its own connection there is a
    `chat login` with the name and the password of the session; and one of them, when it was read, the database has
    accepted. -/
theorem user_authenticated (seed : UInt32) (rows : List UserRow) {events : List WireEvent} {w : Wire}
    (h : runEvents (wireNext seed) (wireStart rows) events = some w) {id : Nat} {c : Client}
    (hc : w.server.client? id = some c) {u : Bytes} (huser : c.userName? = some u) :
    (∃ a ∈ (w.readers id).served, IsLogin u c.password a) ∧
      ∃ a env, AskedAt seed rows events id a env ∧ IsLogin u c.password a ∧ env.isValidUser u c.password = true := by
  have hreach : Reaches (wireNext seed) (fun w e => e.Asks seed (fun id cmd env =>
      ∃ a, AskedAt seed rows events id a env ∧ commandOf seed a = some cmd) w) (wireStart rows) w := by
    refine (Reaches.places h).mono fun w e he => ?_
    obtain ⟨before, after, hevents, hbefore⟩ := he
    cases e with
    | connect | free => trivial
    | read id data env =>
      exact fun i a ha cmd hcmd => ⟨a, ⟨before, data, env, after, w, i, hevents, hbefore, ha, rfl⟩, hcmd⟩
  obtain ⟨-, commands, t, hfollows⟩ := follows_of_reaches hreach
  obtain ⟨c', hc', hhush⟩ := Alike.client (show Alike w.server t from hfollows.alike.symm) hc
  have hsession : c'.hush.toSession = c.hush.toSession := congrArg Client.toSession hhush
  have hmem : (id, c.toSession) ∈ t.sessions := by
    rw [show c.toSession = c'.toSession from hsession.symm]
    exact List.mem_of_find?_eq_some (sessions_find hc')
  obtain ⟨env, hvalid, ⟨a, hasked, ha⟩, hcommand⟩ := asked_of_run (P := fun id cmd env =>
    (∃ a, AskedAt seed rows events id a env ∧ commandOf seed a = some cmd) ∧ .command id cmd env ∈ commands)
    hfollows.run (fun e he => by
      cases e with
      | command id cmd env => exact ⟨hfollows.asks _ he, he⟩
      | _ => trivial) _ hmem u huser
  refine ⟨?_, a, env, hasked, isLogin_of_command ha, hvalid⟩
  have hserved : .chat (bytes "login") u c.password ∈ commands.filterMap (Event.commandBy id) :=
    List.mem_filterMap.2 ⟨_, hcommand, if_pos rfl⟩
  rw [hfollows.commands] at hserved
  obtain ⟨b, hb, hcmd⟩ := List.mem_filterMap.1 hserved
  exact ⟨b, hb, isLogin_of_command hcmd⟩

theorem user_authenticated_login : ∃ w c, runEvents (wireNext 5381) (wireStart []) loginInPieces = some w ∧
    w.server.client? 0 = some c ∧ c.userName? = some (bytes "alice") ∧ ∃ a env,
      AskedAt 5381 [] loginInPieces 0 a env ∧ IsLogin (bytes "alice") c.password a ∧
      env.isValidUser (bytes "alice") c.password = true := by
  have hrun : ((runEvents (wireNext 5381) (wireStart []) loginInPieces).bind fun w => w.server.client? 0).map
      (fun c => c.userName?) = some (some (bytes "alice")) := by decide +kernel
  obtain ⟨c, hc, huser⟩ := Option.map_eq_some_iff.1 hrun
  obtain ⟨w, hw, hc⟩ := Option.bind_eq_some_iff.1 hc
  exact ⟨w, c, hw, hc, huser, (user_authenticated 5381 [] hw hc huser).2⟩

end SmartHome.Chat
