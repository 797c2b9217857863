/-
  Subject:   THE LENGTH THAT GOES OUT WITH A LINE.

  `_chatSend` formats its line into 1024 bytes with `snprintf` and hands `addReplyString` the length that
  `snprintf` returns. That is the length the line would have, not the length it got. `chat say` keeps its
  text under 71 bytes; `node say` does not look at it. A node that says more than a thousand bytes makes
  the server send what lies behind the buffer.

  * `Send.text`, `Send.line` -- the line, and the call of `addReplyString` it comes to;
  * `Formatted` -- no byte goes out that was not formatted, and the line is ended;
  * `Server.lineCalls`, `lineQueued` -- whom the line is for, and what the step adds to a client's queue;
  * **`line_formatted`** -- nothing unformatted goes out exactly if the parts of the line have at most 1016
    bytes or the line is for nobody; `longSay_overruns` -- one that has more.
-/
import SmartHome.Chat.Pushes

namespace SmartHome.Chat

open SmartHome.Lib

/-! ## 1. One line -/

/-- `<tag> ok <from> <message>` CRLF. -/
def Send.text (x : Send) : Bytes :=
  x.tag ++ bytes " ok " ++ x.source ++ bytes " " ++ x.message ++ bytes "\r\n"

/-- What `addReplyString` is given for it. -/
def Send.line (x : Send) : Reply := chatLine x.tag x.source x.message

/-- **No byte goes out that was not formatted**: the length is within what the buffer holds, and the bytes
    it covers are the beginning of the line and end in CRLF. -/
structure Formatted (text : Bytes) (r : Reply) : Prop where
  stored : r.len ≤ r.text.length
  start : r.text.take r.len <+: text
  ends : bytes "\r\n" <:+ r.text.take r.len

/-- The parts of the line leave room for the rest of it. -/
def Send.Fits (x : Send) : Prop := x.tag.length + x.source.length + x.message.length ≤ 1016

theorem formatted_iff (x : Send) : Formatted x.text x.line ↔ x.Fits := by
  constructor
  · intro h
    exact chatLine_stored.mp h.stored
  · intro h
    have hwhole : x.line = reply x.text := chatLine_whole (chatLine_stored.mpr h)
    rw [hwhole]
    refine ⟨Nat.le_refl _, ?_, ?_⟩
    · exact List.take_prefix _ _
    · show bytes "\r\n" <:+ x.text.take x.text.length
      rw [List.take_length]
      exact List.suffix_append _ _

/-! ## 2. Who gets it -/

/-- The type of a client while `_chatSend` walks the list: a login has set its own by then. -/
def Event.typeOf : Event → Client → UInt8
  | .command id (.chat argv1 _ _) _, d => if d.id = id ∧ argv1 = bytes "login" then typeUser else d.mynodeType
  | .command id (.node argv1 _ _) _, d => if d.id = id ∧ argv1 = bytes "login" then typeNode else d.mynodeType
  | _, d => d.mynodeType

/-- Whom the line is for. -/
def Event.addresses (e : Event) (x : Send) (d : Client) : Bool :=
  Client.receives { d with mynodeType := e.typeOf d } x.dest x.toType

/-- **The calls of `addReplyString` that `_chatSend` makes**: none, if the line is for nobody. A client that
    leaves is still on the list, and so is one that is closed after its reply. -/
def Server.lineCalls (s : Server) (e : Event) (x : Send) : List (Nat × Reply) :=
  (s.clients.filter (e.addresses x)).map fun d => (d.id, x.line)

/-- What the step adds to the queue of a client: the line, if it is for it and it still takes replies, and in
    a step of its own texts with their `strlen`. -/
def LineQueued (e : Event) (x : Send) (d d' : Client) : Prop :=
  ∃ rs, d'.out = d.out ++ rs ∧
    (∀ r ∈ rs, e.addresses x d = true ∧ r = x.line ∨ e.client = some d.id ∧ r = reply r.text) ∧
    (e.addresses x d = true → d.closing = false → x.line ∈ rs)

/-- A client whose session the step leaves alone hears the line. -/
theorem lineQueued_hear {e : Event} {x : Send} {d : Client} (htype : e.typeOf d = d.mynodeType) :
    LineQueued e x d (d.hear x) := by
  have haddr : e.addresses x d = d.receives x.dest x.toType := by
    unfold Event.addresses
    rw [htype]
  unfold LineQueued Client.hear Client.sendTo Client.addReplyString
  rw [haddr]
  cases d.receives x.dest x.toType with
  | false => exact ⟨[], (List.append_nil _).symm, by simp, by simp⟩
  | true =>
    cases hclosing : d.closing with
    | true => exact ⟨[], (List.append_nil _).symm, by simp, by simp⟩
    | false => exact ⟨[x.line], rfl, by simp, by simp⟩

theorem typeOf_other {e : Event} {d : Client} (h : e.client ≠ some d.id) : e.typeOf d = d.mynodeType := by
  cases e with
  | command id cmd env =>
    have hid : d.id ≠ id := fun heq => h (congrArg some heq.symm)
    cases cmd with
    | chat | node => exact if_neg fun hand => hid hand.1
    | register argv1 argv2 argv3 argv4 argv5 => rfl
  | connect | quit | free => rfl

section Own

variable {s : Server} {d : Client} (hd : s.client? d.id = some d) (hopen : d.closing = false)
include hd hopen

/-- A `chat login` hears its own line, before it is told anything else. -/
theorem admitUser_line (name password : Bytes) : ∃ d' rs, (s.admitUser d name password).client? d.id = some d' ∧
    d'.out = d.out ++ chatLine (bytes "userinfo") name (bytes "on") :: rs ∧ ∀ r ∈ rs, r = reply r.text := by
  unfold Server.admitUser
  extract_lets s₁ s₂ s₃ s₄ userid s₅ s₆
  have hset : s₂.client? d.id = some { d with toSession := Session.grant typeUser d.toSession } :=
    client?_setSession hd _
  have hline := client?_chatSend s₂ (bytes "userinfo") name (bytes "all") (bytes "on") typeUser d.id
  rw [hset, Option.map_some] at hline
  have hsent : Client.sendTo { d with toSession := Session.grant typeUser d.toSession } (bytes "all") typeUser
      (chatLine (bytes "userinfo") name (bytes "on")) =
        { d with toSession := Session.grant typeUser d.toSession,
                 out := d.out ++ [chatLine (bytes "userinfo") name (bytes "on")] } := by
    unfold Client.sendTo Client.addReplyString
    rw [if_pos (by rfl), if_neg (by simp [hopen])]
  rw [hsent] at hline
  have hrest : Own d.id (fun r => r = reply r.text) s₃ (s₆.chatUserInfo d.id) := by
    have h₄ : Own d.id (fun r => r = reply r.text) s₃ s₄ := own_setSession s₃ d.id _
    have h₅ : Own d.id (fun r => r = reply r.text) s₄ s₅ := own_addReplyString s₄ d.id rfl
    have h₆ : Own d.id (fun r => r = reply r.text) s₅ s₆ := own_getAllNodeInfo s₅ d.id name fun _ => rfl
    exact h₄.trans (h₅.trans (h₆.trans (own_chatUserInfo s₆ d.id fun _ _ => rfl)))
  obtain ⟨d', rs, hd', _, hout, hrs⟩ := hrest _ hline hopen
  exact ⟨d', rs, hd', hout.trans (List.append_assoc _ [_] rs), hrs⟩

/-- A `node login` does not: the line is for users. -/
theorem admitNode_line (username userid nodename : Bytes) : ∃ d' rs,
    (s.admitNode d username userid nodename).client? d.id = some d' ∧ d'.out = d.out ++ rs ∧
      ∀ r ∈ rs, r = reply r.text := by
  unfold Server.admitNode
  extract_lets s₁ s₂ s₃ s₄
  obtain ⟨c, hc, htype, hout⟩ : ∃ c, s₃.client? d.id = some c ∧ c.mynodeType = typeNode ∧
      c.out = d.out ++ [reply (bytes "login ok " ++ username ++ bytes "\r\n")] :=
    ⟨_, client?_setSession (client?_setSession (client?_addReplyString hd hopen _) _) _, rfl, rfl⟩
  have hline := client?_chatSend s₃ (bytes "nodeinfo") nodename username (bytes "on") typeUser d.id
  have hdeaf : c.receives username typeUser = false := by
    unfold Client.receives
    rw [htype]
    rfl
  unfold Client.sendTo at hline
  rw [hc, Option.map_some, if_neg (by simp [hdeaf])] at hline
  exact ⟨c, _, hline, hout, fun r hr => List.mem_singleton.mp hr ▸ rfl⟩

theorem lineQueued_userLogin (name password : Bytes) (env : Env) {d' : Client}
    (hd' : (s.admitUser d name password).client? d.id = some d') :
    LineQueued (.command d.id (.chat (bytes "login") name password) env)
      ⟨bytes "userinfo", name, bytes "all", bytes "on", typeUser⟩ d d' := by
  obtain ⟨c', rs, hc', hout, hrs⟩ := admitUser_line hd hopen name password
  cases hc'.symm.trans hd'
  have haddr : Event.addresses (.command d.id (.chat (bytes "login") name password) env)
      ⟨bytes "userinfo", name, bytes "all", bytes "on", typeUser⟩ d = true := by
    have htype : Event.typeOf (.command d.id (.chat (bytes "login") name password) env) d = typeUser :=
      if_pos ⟨rfl, rfl⟩
    unfold Event.addresses
    rw [htype]
    rfl
  refine ⟨_ :: rs, hout, fun r hr => ?_, fun _ _ => List.mem_cons_self⟩
  rcases List.mem_cons.mp hr with rfl | hr
  · exact .inl ⟨haddr, rfl⟩
  · exact .inr ⟨rfl, hrs r hr⟩

theorem lineQueued_nodeLogin (username userid nodename : Bytes) (env : Env) {d' : Client}
    (hd' : (s.admitNode d username userid nodename).client? d.id = some d') :
    LineQueued (.command d.id (.node (bytes "login") userid nodename) env)
      ⟨bytes "nodeinfo", nodename, username, bytes "on", typeUser⟩ d d' := by
  obtain ⟨c', rs, hc', hout, hrs⟩ := admitNode_line hd hopen username userid nodename
  cases hc'.symm.trans hd'
  have haddr : Event.addresses (.command d.id (.node (bytes "login") userid nodename) env)
      ⟨bytes "nodeinfo", nodename, username, bytes "on", typeUser⟩ d = false := by
    have htype : Event.typeOf (.command d.id (.node (bytes "login") userid nodename) env) d = typeNode :=
      if_pos ⟨rfl, rfl⟩
    unfold Event.addresses
    rw [htype]
    rfl
  refine ⟨rs, hout, fun r hr => .inr ⟨rfl, hrs r hr⟩, fun hall => ?_⟩
  rw [haddr] at hall
  exact absurd hall Bool.false_ne_true

/-- **What a step queues for the client that took it.** -/
theorem lineQueued_own {cmd : Command} {env : Env} {x : Send} {s' : Server} (hdoes : Does s d env cmd (some x) s')
    {d' : Client} (hd' : s'.client? d.id = some d') : LineQueued (.command d.id cmd env) x d d' := by
  have hheard : ∀ y : Send, s' = s.send y → d' = d.hear y := by
    intro y hs'
    have hline := client?_chatSend s y.tag y.source y.dest y.message y.toType d.id
    rw [hd, Option.map_some] at hline
    rw [hs'] at hd'
    exact Option.some.inj (hd'.symm.trans hline)
  have hsay : bytes "say" ≠ bytes "login" := by decide
  generalize hx : some x = x? at hdoes
  cases hdoes with
  | chatLogin name password =>
    unfold Server.userSend at hx
    split at hx
    · rename_i hgrant
      cases hx
      rw [chatLogin_admitted hgrant] at hd'
      exact lineQueued_userLogin hd hopen name password env hd'
    · exact absurd hx (Option.some_ne_none x)
  | chatSay dest message hin =>
    unfold Session.chatSend at hx
    unfold Server.chatSay at hheard
    rw [if_neg (by simp [hin])] at hx hheard
    split at hx
    · exact absurd hx (Option.some_ne_none x)
    · rename_i hshort
      cases hx
      rw [if_neg hshort] at hheard
      rw [hheard ⟨bytes "chat", d.username, dest, message, typeUser⟩ rfl]
      exact lineQueued_hear (if_neg fun hand => hsay hand.2)
  | nodeLogin userid nodename =>
    obtain ⟨username, hgrant, rfl⟩ := Option.map_eq_some_iff.mp hx.symm
    rw [nodeLogin_admitted hgrant] at hd'
    exact lineQueued_nodeLogin (s := s.withDir _) hd hopen username userid nodename env hd'
  | nodeSay dest message _ =>
    unfold Session.saySend at hx
    unfold Server.nodeSay at hheard
    split at hx
    · rename_i huser
      cases hx
      rw [if_pos huser] at hheard
      rw [hheard ⟨bytes "node", d.username, dest, message, typeNode⟩ rfl]
      exact lineQueued_hear (if_neg fun hand => hsay hand.2)
    · rename_i huser
      rw [if_neg huser] at hheard
      split at hx
      · rename_i hnode
        cases hx
        rw [if_pos hnode] at hheard
        rw [hheard ⟨bytes "node", d.nodename, d.username, message, typeUser⟩ rfl]
        exact lineQueued_hear (if_neg fun hand => hsay hand.2)
      · exact absurd hx (Option.some_ne_none x)
  | _ => exact absurd hx (Option.some_ne_none x)

end Own

/-- **What a step that sends a line queues for anybody.** -/
theorem lineQueued {s s' : Server} {e : Event} (hs : chatNext s e = some s') {x : Send} (hx : s.sends e = some x)
    {i : Nat} {d d' : Client} (hd : s.client? i = some d) (hd' : s'.client? i = some d') : LineQueued e x d d' := by
  obtain rfl : d.id = i := client?_id hd
  by_cases hown : e.client = some d.id
  · cases e with
    | connect type => exact absurd hown (Option.some_ne_none _).symm
    | quit id last => exact absurd hx (Option.some_ne_none x).symm
    | free id =>
      cases hown
      obtain ⟨c, hc, rfl⟩ := Option.map_eq_some_iff.mp hs
      cases hc.symm.trans hd
      exact absurd ((removeClient_gone _ _).symm.trans hd') (Option.some_ne_none d').symm
    | command id cmd env =>
      cases hown
      obtain ⟨c, hc, hif⟩ := Option.bind_eq_some_iff.mp hs
      cases hc.symm.trans hd
      obtain ⟨hopen, hexec⟩ := Option.ite_none_left_eq_some.mp hif
      have hopen : d.closing = false := by simpa using hopen
      cases hexec
      have hsend := (sends_command hd hopen cmd env).symm.trans hx
      exact lineQueued_own hd hopen (hsend ▸ exec_does s d env cmd) hd'
  · have hheard := others_hear hs hd hown
    rw [hx] at hheard
    cases hheard.symm.trans hd'
    exact lineQueued_hear (typeOf_other hown)

/-! ## 3. When no other byte goes out -/

/-- **No byte goes out that was not formatted**: not in a call that `_chatSend` makes, and not in what the step
    leaves in anybody's queue. -/
structure LineSound (s : Server) (e : Event) (s' : Server) (x : Send) : Prop where
  calls : ∀ c ∈ s.lineCalls e x, Formatted x.text c.2
  queued : ∀ i d d', s.client? i = some d → s'.client? i = some d' →
    Queued (fun r => Formatted x.text r ∨ e.client = some i ∧ r = reply r.text) d d'

/-- **When a line goes out as it was formatted.** Whatever step sends a line, in whatever state: a client is
    queued the line exactly if a call was made for it, besides its own replies with their `strlen`; and no
    unformatted byte goes out exactly if the parts of the line fit or the line is for nobody. -/
theorem line_formatted (s : Server) (e : Event) (s' : Server) (hs : chatNext s e = some s') (x : Send)
    (hx : s.sends e = some x) :
    (∀ i d d', s.client? i = some d → s'.client? i = some d' → LineQueued e x d d') ∧ (LineSound s e s' x ↔
      x.tag.length + x.source.length + x.message.length ≤ 1016 ∨ ∀ d ∈ s.clients, e.addresses x d = false) := by
  refine ⟨fun i d d' hd hd' => lineQueued hs hx hd hd', fun h => or_iff_not_imp_right.mpr fun hsome => ?_,
    fun h => ?_⟩
  · obtain ⟨d, hd, haddr⟩ := not_forall₂.mp hsome
    refine (formatted_iff x).mp (h.calls (d.id, x.line) ?_)
    exact List.mem_map_of_mem (List.mem_filter.mpr ⟨hd, Bool.of_not_eq_false haddr⟩)
  · have hline : ∀ d ∈ s.clients, e.addresses x d = true → Formatted x.text x.line := fun d hd haddr =>
      h.elim (formatted_iff x).mpr fun hnone => absurd (haddr.symm.trans (hnone d hd)) Bool.false_ne_true.symm
    refine ⟨fun c hc => ?_, fun i d d' hd hd' => ?_⟩
    · obtain ⟨d, hd, rfl⟩ := List.mem_map.mp hc
      exact hline d (List.mem_of_mem_filter hd) (List.mem_filter.mp hd).2
    · obtain ⟨rs, hout, hrs, _⟩ := lineQueued hs hx hd hd'
      obtain rfl : d.id = i := client?_id hd
      refine ⟨rs, hout, fun r hr => (hrs r hr).imp_left ?_⟩
      intro ⟨haddr, hr⟩
      exact hr ▸ hline d (List.mem_of_find?_eq_some hd) haddr

/-! ## 4. A long word -/

/-- A user, and a node of the same account. -/
def userAndNode : List Event :=
  [.connect 0, .connect 0, aliceLogin, .command 1 (.node (bytes "login") (bytes "17") (bytes "tv")) openEnv]

/-- The node says a text of that many bytes. -/
def longSay (n : Nat) : Event := .command 1 (.node (bytes "say") (bytes "alice") (List.replicate n 0x61)) openEnv

/-- What it sends. -/
def longLine (n : Nat) : Send := ⟨bytes "node", bytes "tv", bytes "alice", List.replicate n 0x61, typeUser⟩

/-- The two of them. -/
def userAndNodeServer : Server :=
  (runEvents chatNext (serverStart aliceRows) userAndNode).getD (serverStart aliceRows)

/-- The node by itself. -/
def loneNodeServer : Server :=
  (runEvents chatNext (serverStart aliceRows)
    [.connect 0, .connect 0, .command 1 (.node (bytes "login") (bytes "17") (bytes "tv")) openEnv]).getD
      (serverStart aliceRows)

/-- The longest text that goes out whole to the user; and one that is longer, with nobody to hear it. -/
theorem line_formatted_longest :
    (∃ s', chatNext userAndNodeServer (longSay 1010) = some s' ∧
      LineSound userAndNodeServer (longSay 1010) s' (longLine 1010) ∧
      (userAndNodeServer.lineCalls (longSay 1010) (longLine 1010)).map Prod.fst = [0]) ∧
    ∃ s', chatNext loneNodeServer (longSay 1012) = some s' ∧
      LineSound loneNodeServer (longSay 1012) s' (longLine 1012) := by
  refine ⟨⟨_, rfl, ?_, rfl⟩, _, rfl, ?_⟩
  · refine (line_formatted userAndNodeServer (longSay 1010) _ rfl (longLine 1010) rfl).2.mpr (.inl ?_)
    have htag : (longLine 1010).tag.length = 4 := by decide
    have hsource : (longLine 1010).source.length = 2 := by decide
    have hmessage : (longLine 1010).message.length = 1010 := List.length_replicate
    omega
  · refine (line_formatted loneNodeServer (longSay 1012) _ rfl (longLine 1012) rfl).2.mpr (.inr fun d hd => ?_)
    have hdeaf : loneNodeServer.clients.all (fun d => !(longSay 1012).addresses (longLine 1012) d) = true := rfl
    simpa using List.all_eq_true.mp hdeaf d hd

/-- **The node says 1012 bytes**: the user is sent 1025 bytes from a buffer that holds 1023 of the line,
    the last of them no line end. -/
theorem longSay_overruns : ∃ s' d' r,
    runEvents chatNext (serverStart aliceRows) userAndNode = some userAndNodeServer ∧
      chatNext userAndNodeServer (longSay 1012) = some s' ∧
      s'.client? 0 = some d' ∧ r ∈ d'.out ∧ r.text.length = 1023 ∧ r.len = 1025 ∧ r.text.getLast? = some 0x61 := by
  refine ⟨_, _, (longLine 1012).line, rfl, rfl, rfl, ?_, ?_, ?_, ?_⟩
  · exact List.mem_append_right _ (List.mem_singleton_self _)
  · decide +kernel
  · decide +kernel
  · decide +kernel

end SmartHome.Chat
