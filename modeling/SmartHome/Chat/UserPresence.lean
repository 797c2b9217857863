/-
  Subject:   WHICH USERS ARE ON LINE: the records of the accounts and the connections.

  The record of an account says whether its user is on line. `chat login` asks for the line of the name
  it is given, and refuses a name that is on line; it sets the line, and the end of the connection clears
  it, always through the directory, which finds the record under any spelling. A session logs in once,
  and a node never touches the line of a user. So the records are right, as long as the database accepts
  only names the directory knows.

  * `Directory.lineAt`, `SameLines` -- the lines, and the changes that leave them alone;
  * `Resolves` -- the database accepts a name only when the directory knows it;
  * **`users_present`** -- in every such run a record is on line exactly if one client is logged in as its
    user, there is never more than one, and a line changes by a login or the end of a session only.
-/
import SmartHome.Lib.Roster
import SmartHome.Chat.Overheard

namespace SmartHome.Chat

open SmartHome.Lib

/-! ## 1. The lines of the accounts -/

/-- The line of the account of a name, in lower case. -/
def Directory.lineAt (d : Directory) (key : Bytes) : Option Line :=
  (d.userInfo.find? fun u => lower u.name == key).map NodeUserInfo.line

theorem lineAt_lower (d : Directory) (name : Bytes) : d.lineAt (lower name) = d.getUserInfo name := rfl

theorem lineAt_of_mem {d : Directory} {u : NodeUserInfo} (h : u ∈ d.userInfo) :
    d.lineAt (lower u.name) = some u.line := by
  rw [lineAt_lower]
  unfold Directory.getUserInfo
  rw [dictFetchValue_of_mem h]
  rfl

section Modify

variable {d : Directory} {name : Bytes} {f : NodeUserInfo → NodeUserInfo} (hf : ∀ u, (f u).name = u.name)

/-- The record that is changed. -/
theorem lineAt_modify :
    (d.modify name f hf).lineAt (lower name) = (d.dictFetchValue name).map fun u => (f u).line := by
  rw [lineAt_lower]
  unfold Directory.getUserInfo
  rw [dictFetchValue_modify hf rfl, Option.map_map]
  rfl

/-- The others. -/
theorem lineAt_modify_ne {key : Bytes} (h : key ≠ lower name) :
    (d.modify name f hf).lineAt key = d.lineAt key := by
  unfold Directory.lineAt Directory.modify
  rw [find?_modifyFirst_of_ne]
  intro u hu
  have hname : lower u.name = lower name :=
    beq_iff_eq.mp (List.find?_some (p := fun v : NodeUserInfo => lower v.name == lower name) hu)
  have hne : (lower u.name == key) = false := by
    rw [hname]
    exact beq_eq_false_iff_ne.mpr (Ne.symm h)
  exact ⟨hne, by rw [hf]; exact hne⟩

/-- A change to something else. -/
theorem lineAt_modify_same (hline : ∀ u, (f u).line = u.line) (key : Bytes) :
    (d.modify name f hf).lineAt key = d.lineAt key := by
  by_cases hkey : key = lower name
  · subst hkey
    rw [lineAt_modify hf, lineAt_lower]
    exact congrArg (fun g => (d.dictFetchValue name).map g) (funext hline)
  · exact lineAt_modify_ne hf hkey

end Modify

/-- **The lines of the accounts stay as they are**; accounts may be added, off line. -/
structure SameLines (d d' : Directory) : Prop where
  kept : ∀ key line, d.lineAt key = some line → d'.lineAt key = some line
  on : ∀ key, d'.lineAt key = some .on → d.lineAt key = some .on

theorem sameLines_of_eq {d d' : Directory} (h : ∀ key, d'.lineAt key = d.lineAt key) : SameLines d d' :=
  ⟨fun key _ hline => (h key).trans hline, fun key hon => (h key).symm.trans hon⟩

theorem sameLines_insertUserInfo (d : Directory) (userid username : Bytes) :
    SameLines d (d.insertUserInfo userid username) := by
  unfold Directory.insertUserInfo
  split
  · rename_i hnone
    have hnew : ∀ key, key = lower username → d.lineAt key = none := by
      rintro key rfl
      rw [lineAt_lower]
      unfold Directory.getUserInfo
      rw [hnone]
      rfl
    have hpush : ∀ key, key ≠ lower username →
        (d.push (newMyNodeUserInfo userid username) hnone).lineAt key = d.lineAt key := by
      intro key hkey
      have hne : ¬ (lower username == key) = true := fun heq => hkey (beq_iff_eq.mp heq).symm
      exact congrArg (Option.map NodeUserInfo.line)
        (List.find?_cons_of_neg (p := fun u : NodeUserInfo => lower u.name == key) hne)
    refine ⟨fun key line hline => ?_, fun key hon => ?_⟩
    · by_cases hkey : key = lower username
      · exact absurd (hline.symm.trans (hnew key hkey)) (Option.some_ne_none _)
      · rw [hpush key hkey]
        exact hline
    · by_cases hkey : key = lower username
      · subst hkey
        have hself : (d.push (newMyNodeUserInfo userid username) hnone).lineAt (lower username) = some .off :=
          congrArg (Option.map NodeUserInfo.line) (List.find?_cons_of_pos
            (p := fun u : NodeUserInfo => lower u.name == lower username) (beq_self_eq_true _))
        exact Line.noConfusion (Option.some.inj (hself.symm.trans hon))
      · rw [hpush key hkey] at hon
        exact hon
  · exact sameLines_of_eq fun _ => rfl

theorem insertNode_line (u : NodeUserInfo) (nodename : Bytes) : (u.insertNode nodename).2.line = u.line := by
  unfold NodeUserInfo.insertNode
  split
  · rfl
  · split
    · rfl
    · rfl

theorem lineAt_insertNode (d : Directory) (username nodename key : Bytes) :
    (d.insertNodeToUserInfo username nodename).2.lineAt key = d.lineAt key := by
  unfold Directory.insertNodeToUserInfo
  split
  · rfl
  · exact lineAt_modify_same (fun v => v.insertNode_name nodename) (fun v => insertNode_line v nodename) key

theorem lineAt_setNodeInfo (d : Directory) (username nodename : Bytes) (line : Line) (key : Bytes) :
    (d.setNodeInfo username nodename line).lineAt key = d.lineAt key :=
  lineAt_modify_same (fun u => u.setNode_name nodename line) (fun _ => rfl) key

/-- The account whose line is set. -/
theorem lineAt_setUserInfo (d : Directory) (username : Bytes) (line : Line) :
    (d.setUserInfo username line).lineAt (lower username) = (d.lineAt (lower username)).map fun _ => line := by
  rw [lineAt_lower d]
  unfold Directory.getUserInfo Directory.setUserInfo
  rw [lineAt_modify, Option.map_map]
  rfl

theorem lineAt_setUserInfo_ne (d : Directory) {username key : Bytes} (line : Line) (h : key ≠ lower username) :
    (d.setUserInfo username line).lineAt key = d.lineAt key := lineAt_modify_ne _ h

theorem lineAt_setUserInfo_known (d : Directory) (username : Bytes) (line : Line) (key : Bytes) :
    (d.setUserInfo username line).lineAt key ≠ none ↔ d.lineAt key ≠ none := by
  by_cases hkey : key = lower username
  · subst hkey
    rw [lineAt_setUserInfo, ne_eq, Option.map_eq_none_iff]
  · rw [lineAt_setUserInfo_ne d line hkey]

@[simp] theorem names_setUserInfo (d : Directory) (username : Bytes) (line : Line) :
    (d.setUserInfo username line).names = d.names :=
  names_modify (f := fun u => { u with line := line }) fun _ => rfl

/-! ## 2. Users that are logged in -/

/-- The clients that are logged in as a USER with a name that resolves to the account. -/
def Server.userClients (s : Server) (u : NodeUserInfo) : List Client :=
  s.clients.filter fun c =>
    c.isvaliduser && c.isvalidnode && c.mynodeType == typeUser &&
      (s.dir.dictFetchValue c.username).map NodeUserInfo.name == some u.name

/-- The names of the users that are logged in, in lower case, once for every client. -/
def Server.users (s : Server) : List Bytes := s.sessions.filterMap fun x => x.2.userName?.map lower

/-- A name resolves to an account if it is the same but for case. -/
theorem resolves_iff {d : Directory} {u : NodeUserInfo} (hu : u ∈ d.userInfo) (name : Bytes) :
    (d.dictFetchValue name).map NodeUserInfo.name = some u.name ↔ lower name = lower u.name := by
  constructor
  · intro h
    obtain ⟨v, hv, hname⟩ := Option.map_eq_some_iff.mp h
    have hfound := beq_iff_eq.mp (List.find?_some (p := fun v : NodeUserInfo => lower v.name == lower name) hv)
    rw [← hfound, hname]
  · intro h
    have hself := dictFetchValue_of_mem hu
    unfold Directory.dictFetchValue at hself ⊢
    rw [h, hself]
    rfl

/-- The clients of an account, counted. -/
theorem userClients_length {s : Server} {u : NodeUserInfo} (hu : u ∈ s.dir.userInfo) :
    (s.userClients u).length = s.users.count (lower u.name) := by
  unfold Server.users Server.sessions Server.userClients
  rw [List.count_filterMap, List.countP_map, ← List.countP_eq_length_filter]
  refine List.countP_congr fun c _ => ?_
  simp only [Function.comp_apply, Session.userName?]
  cases c.isvaliduser && c.isvalidnode && c.mynodeType == typeUser with
  | false => simp
  | true => simp [resolves_iff hu]

/-- **The accounts on line are those whose user is logged in**, each by one client. -/
def UsersPresent (s : Server) : Prop :=
  Counted s.users (fun key => s.dir.lineAt key ≠ none) fun key => s.dir.lineAt key = some .on

section Events

variable {s s' : Server}

/-- Nobody logs in as a user or leaves. -/
theorem UsersPresent.same (h : UsersPresent s) (hdir : SameLines s.dir s'.dir) (husers : s.users.Perm s'.users) :
    UsersPresent s' := by
  refine h.frame (fun key hknown => ?_) (fun key hknown => ⟨hdir.on key, hdir.kept key .on⟩)
    (fun key _ hnew hon => ?_) husers
  · obtain ⟨line, hline⟩ := Option.ne_none_iff_exists'.mp hknown
    rw [hdir.kept key line hline]
    exact Option.some_ne_none line
  · rw [hdir.on key hon] at hnew
    exact hnew (Option.some_ne_none _)

/-- **A user logs in** who is not on line, under a name the directory knows. -/
theorem UsersPresent.login (h : UsersPresent s) {name : Bytes} {u : NodeUserInfo}
    (hname : s.dir.dictFetchValue name = some u) (hoff : s.dir.getUserInfo name ≠ some .on)
    (hdir : s'.dir = s.dir.setUserInfo name .on) (husers : s'.users.Perm (lower name :: s.users)) :
    UsersPresent s' := by
  have hknown : s.dir.lineAt (lower name) = some u.line := by
    rw [lineAt_lower]
    unfold Directory.getUserInfo
    rw [hname]
    rfl
  unfold UsersPresent
  rw [hdir]
  refine h.join (lineAt_setUserInfo_known s.dir name .on) ?_ hoff ?_ (fun key hne _ => ?_) husers
  · rw [hknown]
    exact Option.some_ne_none _
  · rw [lineAt_setUserInfo, hknown]
    rfl
  · rw [lineAt_setUserInfo_ne s.dir .on hne]

/-- **A user leaves.** -/
theorem UsersPresent.logout (h : UsersPresent s) {name : Bytes} (hdir : s'.dir = s.dir.setUserInfo name .off)
    (husers : s.users.Perm (lower name :: s'.users)) : UsersPresent s' := by
  unfold UsersPresent
  rw [hdir]
  refine h.leave (lineAt_setUserInfo_known s.dir name .off) ?_ (fun key hne _ => ?_) husers
  · rw [lineAt_setUserInfo]
    cases s.dir.lineAt (lower name) with
    | none => exact (Option.some_ne_none _).symm
    | some line => exact fun heq => Line.noConfusion (Option.some.inj heq)
  · rw [lineAt_setUserInfo_ne s.dir .off hne]

end Events

/-! ## 3. Runs -/

/-- **The database accepts a name only when the directory knows it.** -/
def Resolves (s : Server) (e : Event) : Prop :=
  ∀ id name password env, e = .command id (.chat (bytes "login") name password) env →
    env.isValidUser name password = true → ∃ u, s.dir.dictFetchValue name = some u

/-- The users after one client has left. -/
theorem users_erase {s s' : Server} {id : Nat} {c : Client} (hc : s.client? id = some c)
    (hs : s'.sessions = s.sessions.eraseP fun x => x.1 == id) :
    s.users.Perm ((c.userName?.map lower).toList ++ s'.users) := by
  unfold Server.users
  rw [hs]
  exact filterMap_eraseP (g := fun x : Nat × Session => x.2.userName?.map lower) (sessions_find hc)

/-- The same users as before. -/
theorem users_of_sessions {s s' : Server} (h : s'.sessions = s.sessions) : s.users.Perm s'.users := by
  unfold Server.users
  rw [h]

/-- **An event keeps the records right**, if the database accepts known names only. -/
theorem usersPresent_step {s s' : Server} {e : Event} (h : UsersPresent s) (hok : Resolves s e)
    (hs : chatNext s e = some s') : UsersPresent s' := by
  have heffect := chatNext_effect hs
  clear hs
  cases heffect with
  | same hr _ => exact h.same (sameLines_of_eq fun _ => by rw [hr.dir]) (users_of_sessions hr.sessions)
  | connect hdir hs =>
    refine h.same (sameLines_of_eq fun _ => by rw [hdir]) ?_
    unfold Server.users
    rw [hs, List.filterMap_append]
    exact List.Perm.of_eq (List.append_nil _).symm
  | rootAdduser _ _ _ _ hdir hs _ | adduser _ _ _ _ hdir hs _ =>
    exact h.same (hdir ▸ sameLines_insertUserInfo s.dir _ _) (users_of_sessions hs)
  | userLogin hc _ hgrant hdir hs _ =>
    obtain ⟨hfree, hvalid, hoff⟩ := admitsUser_iff.mp hgrant
    obtain ⟨u, hu⟩ := hok _ _ _ _ rfl hvalid
    refine h.login hu hoff hdir ?_
    unfold Server.users
    rw [hs]
    exact filterMap_modifyFirst_new (g := fun x : Nat × Session => x.2.userName?.map lower) (sessions_find hc)
      (by rw [userName?_free hfree]; rfl) rfl
  | nodeLogin hc _ hgrant hdir hs _ =>
    refine h.same (sameLines_of_eq fun _ => by rw [hdir, lineAt_setNodeInfo, lineAt_insertNode]) ?_
    unfold Server.users
    rw [hs]
    refine List.Perm.of_eq (filterMap_modifyFirst fun x hx => ?_).symm
    rw [sessions_find hc] at hx
    cases hx
    rw [userName?_free (admitsNode_iff.mp hgrant).1]
    rfl
  | leave hc huser _ hdir hs _ =>
    have hperm := users_erase hc hs
    rw [huser] at hperm
    exact h.same (sameLines_of_eq fun _ => by rw [hdir]) hperm
  | userLeave hc huser _ hdir hs _ =>
    have hperm := users_erase hc hs
    rw [huser] at hperm
    exact h.logout hdir hperm
  | nodeLeave hc huser _ hdir hs _ =>
    have hperm := users_erase hc hs
    rw [huser] at hperm
    exact h.same (sameLines_of_eq fun _ => by rw [hdir, lineAt_setNodeInfo]) hperm

/-- After the start every user is off line. -/
theorem doMysqlDumpRedis_lines (rows : List UserRow) (key : Bytes) :
    (doMysqlDumpRedis rows).lineAt key ≠ some .on :=
  doMysqlDumpRedis_rule (P := fun d => d.lineAt key ≠ some .on) (Option.some_ne_none _).symm
    (fun d userid username h hon => h ((sameLines_insertUserInfo d userid username).on key hon))
    (fun d username nodename h => by rw [lineAt_insertNode]; exact h) rows

theorem usersPresent_start (rows : List UserRow) : UsersPresent (serverStart rows) :=
  counted_nil fun key _ => doMysqlDumpRedis_lines rows key

theorem usersPresent_run {rows : List UserRow} {s : Server} (h : Reaches chatNext Resolves (serverStart rows) s) :
    UsersPresent s :=
  Reaches.invariant UsersPresent (usersPresent_start rows)
    (fun _ _ _ hI hok hs => usersPresent_step hI hok hs) h

/-! ## 4. What changes a line -/

/-- A login under a name that resolves to the account, or the end of the session of such a user. -/
def LineStep (s : Server) (e : Event) (u : NodeUserInfo) : Prop :=
  (∃ id c name password env, e = .command id (.chat (bytes "login") name password) env ∧
    s.client? id = some c ∧ s.admitsUser c name password env = true ∧ s.dir.dictFetchValue name = some u) ∨
  ∃ id c, e = .free id ∧ s.client? id = some c ∧ c.userName? = some c.username ∧
    s.dir.dictFetchValue c.username = some u

/-- **A line that changes** is set by a login or cleared by the end of a session. -/
theorem lineAt_step {s s' : Server} {e : Event} (hs : chatNext s e = some s') {u : NodeUserInfo}
    (hu : u ∈ s.dir.userInfo) : s'.dir.lineAt (lower u.name) = some u.line ∨ LineStep s e u := by
  have hold := lineAt_of_mem hu
  have hset : ∀ name line, (s.dir.setUserInfo name line).lineAt (lower u.name) = some u.line ∨
      s.dir.dictFetchValue name = some u := by
    intro name line
    by_cases hkey : lower u.name = lower name
    · right
      have hself := dictFetchValue_of_mem hu
      unfold Directory.dictFetchValue at hself ⊢
      rw [← hkey, hself]
    · left
      rw [lineAt_setUserInfo_ne s.dir line hkey, hold]
  have heffect := chatNext_effect hs
  clear hs
  cases heffect with
  | same hr _ =>
    rw [hr.dir]
    exact Or.inl hold
  | connect hdir _ =>
    rw [hdir]
    exact Or.inl hold
  | rootAdduser _ _ _ _ hdir _ _ | adduser _ _ _ _ hdir _ _ =>
    rw [hdir]
    exact Or.inl ((sameLines_insertUserInfo s.dir _ _).kept _ _ hold)
  | userLogin hc _ hgrant hdir _ _ =>
    rw [hdir]
    exact (hset _ .on).imp_right fun hname => Or.inl ⟨_, _, _, _, _, rfl, hc, hgrant, hname⟩
  | nodeLogin _ _ _ hdir _ _ =>
    rw [hdir, lineAt_setNodeInfo, lineAt_insertNode]
    exact Or.inl hold
  | leave _ _ _ hdir _ _ =>
    rw [hdir]
    exact Or.inl hold
  | userLeave hc huser _ hdir _ _ =>
    rw [hdir]
    exact (hset _ .off).imp_right fun hname => Or.inr ⟨_, _, rfl, hc, huser, hname⟩
  | nodeLeave _ _ _ hdir _ _ =>
    rw [hdir, lineAt_setNodeInfo]
    exact Or.inl hold

/-- **In every run in which the database accepts known names only, the records are right**: an account is
    on line exactly if one client is logged in as its user, and there is never more than one. Of all
    that can happen next, only a login under a name of the account and the end of the session of its user
    change its line. -/
theorem users_present (rows : List UserRow) (s : Server) (h : Reaches chatNext Resolves (serverStart rows) s) :
    (∀ u ∈ s.dir.userInfo, (s.userClients u).length ≤ 1 ∧ (u.line = .on ↔ (s.userClients u).length = 1)) ∧
    ∀ e s', chatNext s e = some s' → ∀ u ∈ s.dir.userInfo,
      ∃ u' ∈ s'.dir.userInfo, u'.name = u.name ∧ (u'.line ≠ u.line → LineStep s e u) := by
  have hpresent := usersPresent_run h
  refine ⟨fun u hu => ?_, fun e s' hs u hu => ?_⟩
  · have hline := lineAt_of_mem hu
    have hknown : s.dir.lineAt (lower u.name) ≠ none := by
      rw [hline]
      exact Option.some_ne_none _
    rw [userClients_length hu]
    by_cases hon : u.line = .on
    · have hone := hpresent.once (lower u.name) hknown (by rw [hline, hon])
      rw [hone]
      exact ⟨Nat.le_refl 1, fun _ => rfl, fun _ => hon⟩
    · have hzero := hpresent.none (lower u.name) hknown fun heq => hon (Option.some.inj (hline.symm.trans heq))
      rw [hzero]
      exact ⟨Nat.zero_le 1, fun h => absurd h hon, fun h => absurd h Nat.zero_ne_one⟩
  · obtain ⟨u', hu', hname⟩ := List.mem_map.mp (names_grow hs (List.mem_map_of_mem (f := NodeUserInfo.name) hu))
    refine ⟨u', hu', hname, fun hchanged => ?_⟩
    rcases lineAt_step hs hu with hsame | hstep
    · rw [← hname, lineAt_of_mem hu'] at hsame
      exact absurd (Option.some.inj hsame) hchanged
    · exact hstep

/-- Alice logs in, spelled otherwise. -/
def aliceLoud : Event := .command 0 (.chat (bytes "login") (bytes "ALICE") (bytes "x")) aliceEnv

theorem aliceLoud_resolves (s : Server) (h : (s.dir.dictFetchValue (bytes "ALICE")).isSome = true) :
    Resolves s aliceLoud := by
  intro id name password env he _
  cases he
  exact Option.isSome_iff_exists.mp h

theorem users_present_alice : ∃ s,
    Reaches chatNext Resolves (serverStart aliceRows) s ∧ s.dir.getUserInfo (bytes "alice") = some .on ∧
      (∀ u ∈ s.dir.userInfo, (s.userClients u).length ≤ 1 ∧ (u.line = .on ↔ (s.userClients u).length = 1)) ∧
      ∀ e s', chatNext s e = some s' → ∀ u ∈ s.dir.userInfo,
        ∃ u' ∈ s'.dir.userInfo, u'.name = u.name ∧ (u'.line ≠ u.line → LineStep s e u) := by
  have hview : ((chatNext twoClients aliceLoud).map fun s => s.dir.getUserInfo (bytes "alice")) =
      some (some .on) := by decide +kernel
  obtain ⟨s, hs, hon⟩ := Option.map_eq_some_iff.mp hview
  have hconnect : ∀ (s : Server) (type : UInt8), Resolves s (.connect type) :=
    fun _ _ _ _ _ _ he => Event.noConfusion he
  have htwo : Reaches chatNext Resolves (serverStart aliceRows) twoClients :=
    .step (.connect 0) (.step (.connect 0) .start (hconnect _ _) rfl) (hconnect _ _) rfl
  have hrun : Reaches chatNext Resolves (serverStart aliceRows) s :=
    .step aliceLoud htwo (aliceLoud_resolves twoClients (by decide +kernel)) hs
  exact ⟨s, hrun, hon, users_present aliceRows s hrun⟩

end SmartHome.Chat
