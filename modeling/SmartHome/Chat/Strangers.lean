/-
  Subject:   CONNECTIONS THAT NEVER LOG IN leave everything but themselves as it is.

  A connection without a login may send any command, and may fail to log in as often as it likes; both
  logins look accounts up before they refuse, and `node login` may even get as far as making a node.
  Still nothing of it is seen by others: a login that is refused has changed nothing, every other command
  is answered to the connection alone, and when the connection ends nobody is told. That is, while the
  query of the login stays within its array: it is formatted before anybody is refused.

  * `Visited`, `visitNext` -- the server, and the connections on which a login has succeeded;
  * `StrangersOut` -- who is not among them has neither flag, in every run;
  * **`stranger_frame`** -- a step of such a connection keeps the directory and all the others;
  * **`stranger_harmless`** -- and it writes beyond no array exactly if the name and the password of a
    `chat login` have at most 200 bytes; `strangerLogin_overruns` -- one that has 201.
-/
import SmartHome.Chat.Buffers

namespace SmartHome.Chat

open SmartHome.Lib

/-! ## 1. Logins that succeed -/

/-- The connection whose login an event is, if it is accepted. -/
def Server.loginOk (s : Server) : Event → Option Nat
  | .command id (.chat argv1 argv2 argv3) env =>
    (s.client? id).bind fun c =>
      if argv1 = bytes "login" ∧ s.admitsUser c argv2 argv3 env = true then some id else none
  | .command id (.node argv1 argv2 argv3) _ =>
    (s.client? id).bind fun c =>
      if argv1 = bytes "login" ∧ (s.admitsNode c argv2 argv3).isSome = true then some id else none
  | _ => none

/-- The server, and the connections on which a login has succeeded. -/
structure Visited where
  server : Server
  loggedIn : List Nat

/-- One event. -/
def visitNext (v : Visited) (e : Event) : Option Visited :=
  (chatNext v.server e).map fun s' => ⟨s', (v.server.loginOk e).toList ++ v.loggedIn⟩

/-- Before any connection. -/
def visitStart (rows : List UserRow) : Visited := ⟨serverStart rows, []⟩

/-- A chat or node command of connection `i`, or its end. -/
def Event.ChatOf (i : Nat) : Event → Prop
  | .command id (.chat _ _ _) _ => id = i
  | .command id (.node _ _ _) _ => id = i
  | .free id => id = i
  | _ => False

section Logins

variable {s : Server} {id : Nat} {c : Client} (hc : s.client? id = some c)

include hc

theorem loginOk_user {name password : Bytes} {env : Env} (hgrant : s.admitsUser c name password env = true) :
    s.loginOk (.command id (.chat (bytes "login") name password) env) = some id := by
  simp only [Server.loginOk]
  rw [hc, Option.bind_some, if_pos ⟨trivial, hgrant⟩]

theorem loginOk_node {userid nodename username : Bytes} (env : Env)
    (hgrant : s.admitsNode c userid nodename = some username) :
    s.loginOk (.command id (.node (bytes "login") userid nodename) env) = some id := by
  simp only [Server.loginOk]
  rw [hc, Option.bind_some, if_pos ⟨trivial, by rw [hgrant]; rfl⟩]

/-- A command without a login that succeeds, of a connection with neither flag, sends nothing. -/
theorem commandSend_stranger (hu : c.isvaliduser = false) (hn : c.isvalidnode = false) {env : Env} {cmd : Command}
    (hno : s.loginOk (.command id cmd env) = none) : s.commandSend c env cmd = none := by
  have hdoes := exec_does s c env cmd
  generalize hx : s.commandSend c env cmd = x at hdoes
  generalize s.exec c env cmd = s' at hdoes
  cases hdoes with
  | chatLogin name password =>
    cases hgrant : s.admitsUser c name password env with
    | true => exact absurd (hno.symm.trans (loginOk_user hc hgrant)) (Option.some_ne_none _).symm
    | false =>
      unfold Server.userSend
      rw [hgrant]
      rfl
  | chatSay _ _ hin => exact absurd (hu.symm.trans hin) Bool.false_ne_true
  | nodeLogin userid nodename =>
    cases hgrant : s.admitsNode c userid nodename with
    | some username => exact absurd (hno.symm.trans (loginOk_node hc env hgrant)) (Option.some_ne_none _).symm
    | none =>
      unfold Server.nodeSend
      rw [hgrant]
      rfl
  | nodeSay _ _ hin => exact absurd (hn.symm.trans hin) Bool.false_ne_true
  | _ => rfl

end Logins

/-! ## 2. In every run -/

/-- **Who has not logged in has neither flag.** -/
def StrangersOut (v : Visited) : Prop :=
  ∀ x ∈ v.server.sessions, x.1 ∉ v.loggedIn → x.2.isvaliduser = false ∧ x.2.isvalidnode = false

theorem StrangersOut.client {v : Visited} (h : StrangersOut v) {i : Nat} {c : Client}
    (hc : v.server.client? i = some c) (hi : i ∉ v.loggedIn) : c.isvaliduser = false ∧ c.isvalidnode = false :=
  h _ (List.mem_of_find?_eq_some (sessions_find hc)) hi

theorem strangersOut_step {v v' : Visited} {e : Event} (h : StrangersOut v) (hs : visitNext v e = some v') :
    StrangersOut v' := by
  obtain ⟨s', hs', rfl⟩ := Option.map_eq_some_iff.mp hs
  -- a login that succeeds is noted
  have hnoted : ∀ {id : Nat} (x : Session), v.server.loginOk e = some id →
      id ∉ (v.server.loginOk e).toList ++ v.loggedIn → x.isvaliduser = false ∧ x.isvalidnode = false := by
    intro id x hlogin hnot
    rw [hlogin] at hnot
    exact absurd List.mem_cons_self hnot
  refine chatNext_sessions hs' (fun x hx hnot => h x hx fun hmem => hnot (List.mem_append_right _ hmem))
    (fun _ _ _ => ⟨rfl, rfl⟩) ?_ ?_
  · intro id c name password env he hc hgrant
    exact hnoted _ (he ▸ loginOk_user hc hgrant)
  · intro id c userid nodename username env he hc hgrant
    exact hnoted _ (he ▸ loginOk_node hc env hgrant)

theorem strangers_out {rows : List UserRow} {v : Visited}
    (h : Reaches visitNext (fun _ _ => True) (visitStart rows) v) : StrangersOut v :=
  Reaches.invariant StrangersOut (fun _ hx => absurd hx List.not_mem_nil)
    (fun _ _ _ hI _ hs => strangersOut_step hI hs) h

/-! ## 3. A step of a stranger -/

section Step

variable {v v' : Visited} {i : Nat} {e : Event} (hown : e.ChatOf i) (hs : visitNext v e = some v')
  (hno : i ∉ v'.loggedIn)

include hown hs hno

theorem stranger_before : v.server.loginOk e = none ∧ i ∉ v.loggedIn := by
  obtain ⟨s', _, rfl⟩ := Option.map_eq_some_iff.mp hs
  refine ⟨?_, fun hmem => hno (List.mem_append_right _ hmem)⟩
  by_contra hsome
  obtain ⟨j, hj⟩ := Option.ne_none_iff_exists'.mp hsome
  refine hno (List.mem_append_left _ ?_)
  rw [hj]
  -- the login is of the connection itself
  suffices hji : j = i by
    rw [hji]
    exact List.mem_singleton_self i
  unfold Server.loginOk at hj
  split at hj
  · obtain ⟨c, _, hif⟩ := Option.bind_eq_some_iff.mp hj
    exact (Option.some.inj (Option.ite_none_right_eq_some.mp hif).2).symm.trans hown
  · obtain ⟨c, _, hif⟩ := Option.bind_eq_some_iff.mp hj
    exact (Option.some.inj (Option.ite_none_right_eq_some.mp hif).2).symm.trans hown
  · exact absurd hj (Option.some_ne_none _).symm

variable (h : StrangersOut v)

include h

/-- It sends nothing to the others. -/
theorem stranger_silent : v.server.sends e = none := by
  obtain ⟨hlogin, hi⟩ := stranger_before hown hs hno
  cases e with
  | connect | quit => rfl
  | command id cmd env =>
    cases hx : v.server.sends (.command id cmd env) with
    | none => rfl
    | some x =>
      obtain ⟨c, hc, hif⟩ := Option.bind_eq_some_iff.mp hx
      have hsend := (Option.ite_none_left_eq_some.mp hif).2
      have hid : id = i := by
        cases cmd with
        | chat | node => exact hown
        | register _ _ _ _ _ => exact hown.elim
      subst hid
      obtain ⟨hu, hn⟩ := h.client hc hi
      rw [commandSend_stranger hc hu hn hlogin] at hsend
      exact absurd hsend (Option.some_ne_none _).symm
  | free id =>
    obtain rfl : id = i := hown
    cases hc : v.server.client? id with
    | none => simp [Server.sends, hc]
    | some c =>
      rw [sends_free hc]
      unfold Session.leaveSend
      rw [(h.client hc hi).1]
      rfl

/-- It leaves the directory as it is. -/
theorem stranger_dir : v'.server.dir = v.server.dir := by
  obtain ⟨hlogin, hi⟩ := stranger_before hown hs hno
  obtain ⟨s', hs', rfl⟩ := Option.map_eq_some_iff.mp hs
  have heffect := chatNext_effect hs'
  clear hs hs' hno
  cases heffect with
  | same hr _ => exact hr.dir
  | connect hdir _ => exact hdir
  | rootAdduser hc _ hin _ _ _ _ =>
    obtain rfl : _ = i := hown
    exact absurd ((h.client hc hi).1.symm.trans hin) Bool.false_ne_true
  | adduser _ _ _ _ _ _ _ => exact hown.elim
  | userLogin hc _ hgrant _ _ _ =>
    exact absurd (hlogin.symm.trans (loginOk_user hc hgrant)) (Option.some_ne_none _).symm
  | nodeLogin hc _ hgrant _ _ _ =>
    exact absurd (hlogin.symm.trans (loginOk_node hc _ hgrant)) (Option.some_ne_none _).symm
  | leave _ _ _ hdir _ _ => exact hdir
  | userLeave hc huser _ _ _ _ =>
    obtain rfl : _ = i := hown
    obtain ⟨hu, hn⟩ := h.client hc hi
    rw [userName?_free (by rw [hu, hn]; rfl)] at huser
    exact absurd huser (Option.some_ne_none _).symm
  | nodeLeave hc _ hkey _ _ _ =>
    obtain rfl : _ = i := hown
    obtain ⟨hu, hn⟩ := h.client hc hi
    rw [nodeKey_free (by rw [hu, hn]; rfl)] at hkey
    exact absurd hkey (Option.some_ne_none _).symm

end Step

/-- The event is of that connection. -/
theorem Event.ChatOf.client {i : Nat} {e : Event} (h : e.ChatOf i) : e.client = some i := by
  cases e with
  | connect | quit => exact h.elim
  | free id => exact congrArg some h
  | command id cmd env =>
    cases cmd with
    | chat | node => exact congrArg some h
    | register _ _ _ _ _ => exact h.elim

/-- **A connection on which no login has succeeded has no effect on others.** In every run, whatever chat
    or node command it sends, and when it ends: the directory stays as it is, and so does every other
    connection, its session and what was queued for it. -/
theorem stranger_frame (rows : List UserRow) (v : Visited)
    (h : Reaches visitNext (fun _ _ => True) (visitStart rows) v) (i : Nat) (e : Event) (hown : e.ChatOf i)
    (v' : Visited) (hs : visitNext v e = some v') (hno : i ∉ v'.loggedIn) :
    v'.server.dir = v.server.dir ∧ ∀ j d, j ≠ i → v.server.client? j = some d → v'.server.client? j = some d := by
  have hout := strangers_out h
  refine ⟨stranger_dir hown hs hno hout, fun j d hj hd => ?_⟩
  have hsilent := stranger_silent hown hs hno hout
  obtain ⟨s', hs', rfl⟩ := Option.map_eq_some_iff.mp hs
  have hother : e.client ≠ some j := by
    rw [hown.client]
    exact fun heq => hj (Option.some.inj heq).symm
  have hheard := others_hear hs' hd hother
  rw [hsilent] at hheard
  exact hheard

/-! ## 4. And the arrays -/

/-- What an event writes into arrays of a fixed size. -/
def Event.writes (st : Stored) : Event → List Write
  | .command id cmd env => ((st.server.client? id).map fun c => st.writes c env cmd).getD []
  | _ => []

/-- **A step has no effect on others**: nothing is written beyond an array, and neither the directory nor
    another connection is changed. -/
structure NoEffect (db : Tables) (v : Visited) (i : Nat) (e : Event) (v' : Visited) : Prop where
  within : ∀ w ∈ e.writes ⟨v.server, db⟩, w.Fits
  dir : v'.server.dir = v.server.dir
  others : ∀ j d, j ≠ i → v.server.client? j = some d → v'.server.client? j = some d

/-- The arguments of a `chat login` leave room for the zero byte of its query. -/
def Event.QueryFits : Event → Prop
  | .command _ (.chat argv1 argv2 argv3) _ => argv1 = bytes "login" → argv2.length + argv3.length ≤ 200
  | _ => True

/-- What a connection with neither flag writes, if it does not log in: the query of its login. -/
theorem stranger_writes (st : Stored) {id : Nat} {c : Client} (hc : st.server.client? id = some c)
    (hu : c.isvaliduser = false) (hn : c.isvalidnode = false) {cmd : Command} {env : Env}
    (hown : Event.ChatOf id (.command id cmd env)) (hno : st.server.loginOk (.command id cmd env) = none) :
    (∀ w ∈ st.writes c env cmd, w.Fits) ↔ Event.QueryFits (.command id cmd env) := by
  cases cmd with
  | chat argv1 argv2 argv3 =>
    simp only [Stored.writes, Event.QueryFits]
    by_cases hlogin : argv1 = bytes "login"
    · subst hlogin
      have hrefused : ¬ st.server.admitsUser c argv2 argv3 env = true := fun hgrant =>
        absurd (hno.symm.trans (loginOk_user hc hgrant)) (Option.some_ne_none _).symm
      rw [if_pos rfl, chatLoginWrites_fit]
      unfold Server.RoomForLogin
      simp [hu, hn, hrefused]
    · simp [hlogin, hu]
  | node argv1 argv2 argv3 =>
    simp only [Stored.writes, Event.QueryFits]
    by_cases hlogin : argv1 = bytes "login"
    · subst hlogin
      rw [if_pos rfl, nodeLoginWrites_fit]
      refine iff_of_true (fun username hgrant => ?_) trivial
      exact absurd (hno.symm.trans (loginOk_node hc env hgrant)) (Option.some_ne_none _).symm
    · simp [hlogin]
  | register argv1 argv2 argv3 argv4 argv5 => exact hown.elim

/-- **A connection on which no login has succeeded has no effect on others** exactly if the query of its
    login stays within its array. In every run, whatever chat or node command it sends, and when it ends. -/
theorem stranger_harmless (rows : List UserRow) (db : Tables) (v : Visited)
    (h : Reaches visitNext (fun _ _ => True) (visitStart rows) v) (i : Nat) (e : Event) (hown : e.ChatOf i)
    (v' : Visited) (hs : visitNext v e = some v') (hno : i ∉ v'.loggedIn) :
    NoEffect db v i e v' ↔ e.QueryFits := by
  obtain ⟨hdir, hothers⟩ := stranger_frame rows v h i e hown v' hs hno
  have hwrites : (∀ w ∈ e.writes ⟨v.server, db⟩, w.Fits) ↔ e.QueryFits := by
    obtain ⟨hlogin, hi⟩ := stranger_before hown hs hno
    cases e with
    | connect | quit => exact hown.elim
    | free id => exact iff_of_true (fun _ hw => absurd hw List.not_mem_nil) trivial
    | command id cmd env =>
      obtain ⟨s', hs', _⟩ := Option.map_eq_some_iff.mp hs
      obtain ⟨c, hc, _⟩ := Option.bind_eq_some_iff.mp hs'
      obtain rfl : id = i := Option.some.inj hown.client
      obtain ⟨hu, hn⟩ := (strangers_out h).client hc hi
      have hfit := stranger_writes ⟨v.server, db⟩ hc hu hn hown hlogin
      simp only [Event.writes, hc, Option.map_some, Option.getD_some]
      exact hfit
  exact ⟨fun hnone => hwrites.mp hnone.within, fun hfits => ⟨hwrites.mpr hfits, hdir, hothers⟩⟩

/-- Alice is logged in, and there is one more connection. -/
def aliceAndStranger : Visited := ⟨(chatNext twoClients aliceLogin).getD twoClients, [0]⟩

theorem aliceAndStranger_run :
    Reaches visitNext (fun _ _ => True) (visitStart aliceRows) aliceAndStranger :=
  .step aliceLogin (.step (.connect 0) (.step (.connect 0) .start trivial rfl) trivial rfl) trivial rfl

/-- The other one tries a password. -/
def strangerLogin (password : Bytes) : Event :=
  .command 1 (.chat (bytes "login") (bytes "alice") password) closedEnv

theorem stranger_harmless_refused : ∃ v', visitNext aliceAndStranger (strangerLogin (bytes "y")) = some v' ∧
      NoEffect .empty aliceAndStranger 1 (strangerLogin (bytes "y")) v' :=
  ⟨_, rfl, (stranger_harmless aliceRows .empty aliceAndStranger aliceAndStranger_run 1 (strangerLogin (bytes "y"))
    rfl _ rfl (by decide)).mpr fun _ => by decide⟩

/-- **A password of 196 bytes**, that is refused like any other: the query has 256 bytes, and the zero byte
    behind it is written beyond the array. -/
theorem strangerLogin_overruns : ∃ v',
    visitNext aliceAndStranger (strangerLogin (List.replicate 196 0x61)) = some v' ∧ 1 ∉ v'.loggedIn ∧
      ∃ w ∈ (strangerLogin (List.replicate 196 0x61)).writes ⟨aliceAndStranger.server, .empty⟩,
        w.size = 256 ∧ w.text.length = 256 := by
  refine ⟨_, rfl, by decide, query256 (.validUser (bytes "alice") (List.replicate 196 0x61)), ?_, rfl, ?_⟩
  · exact List.mem_cons_self
  · have hlength := length_render (parseFormat (Statement.validUser (bytes "alice") (List.replicate 196 0x61)).format)
      (holes_format (.validUser (bytes "alice") (List.replicate 196 0x61)))
    exact hlength.trans (by decide +kernel)

end SmartHome.Chat
