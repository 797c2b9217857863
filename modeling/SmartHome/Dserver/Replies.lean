/-
  Subject:   WHICH COMMANDS ARE ANSWERED (`process_command` of servernet.c, `getLazyMsgServer` of loadbalance.c).

  A connection reads commands (Commands.lean) and sends replies (Transmit.lean); here it does both. Between
  two system calls `drive_machine` takes lines until one is answered; then it sends, and takes no line before
  the whole reply is sent. So replies are neither mixed nor doubled, though `ERROR` is put into `wbuf` before
  the lookup puts its own reply there. But `ERROR` is inside the branch for `loadbalance`, not in an `else`:
  any other line gets no reply at all.

  * `answers`, `lazyMsgServer`, `process` -- the source; `asks_iff` -- which command is answered, by its words;
  * `Server`, `serverNext` -- both halves of a connection; `replies` are cut at `TRANSMIT_COMPLETE`;
  * `drive_commands` -- the lines taken between two system calls: only the last may be answered;
  * `Answering`, `answering_step` -- what has been sent, at every moment of every run;
  * **`replied_iff`** -- there is one reply for each line that is not empty, in order, exactly if each of these
    lines asks for `loadbalance` and something, and none of them is in the buffer when the end of the file is
    met; `replied_iff_lookup` -- a lookup;
  * `hello_unanswered` -- the first reply is that to the second line; `fullBuffer_unanswered` -- a buffer full
    of lines, and no reply.
-/
import SmartHome.Lib.Splitting
import SmartHome.Dserver.Transmit

namespace SmartHome.Dserver

open SmartHome.Lib

/-! ## 1. The source -/

/-- The bytes of a text of the source. -/
def bytesOf (text : String) : Bytes := text.toList.map fun c => UInt8.ofNat c.toNat

/-- `getLazyMsgServer`: what it calls `out_string` with, by the elements of the reply of Redis. -/
def lazyMsgServer : List Bytes → Bytes
  | [server] => server
  | _ => bytesOf "NOT_FOUND_MSGSERVER"

/-- What `process_command` calls `out_string` with, in order. -/
def answers (elements : List Bytes) (command : Bytes) : List Bytes :=
  if (processCommand command).2 then
    if (tokenizeLoop 0 [] command).1[1]? = some (bytesOf "msgservers") then [bytesOf "ERROR", lazyMsgServer elements]
    else [bytesOf "ERROR"]
  else []

/-- `process_command`, of the half that sends. -/
def process (elements : List Bytes) (o : Outgoing) (command : Bytes) : Outgoing :=
  outStrings (prepare o) (answers elements command)

/-- `process_command` for commands, the first of them the `k`th of the connection. -/
def processAll (redis : Nat → List Bytes) : Nat → Outgoing → List Bytes → Outgoing
  | _, o, [] => o
  | k, o, command :: commands => processAll redis (k + 1) (process (redis k) o command) commands

/-- Both halves of a connection: `accepted` is what `sendmsg()` has taken of the reply under way, `replies`
    are those before it. -/
structure Server where
  world : World
  out : Outgoing
  accepted : Bytes
  replies : List Bytes

/-- A system call returns. -/
inductive Call where
  | read (r : ReadResult)
  | sendmsg (r : SendResult)

/-- What the commands that were taken do to the half that sends. -/
def processed (redis : Nat → List Bytes) (s : Server) (w : World) : Outgoing :=
  processAll redis s.world.commands.length s.out (w.commands.drop s.world.commands.length)

/-- Commands were taken, and the code goes on to the next system call. -/
def answering (redis : Nat → List Bytes) (s : Server) (w : World) : Server :=
  { s with world := w, out := if w.conn.state = .write then toSendmsg (processed redis s w) else processed redis s w }

/-- **A system call of a connection returns**; `redis k` is what the lookup for the `k`th command returns. -/
def serverNext (redis : Nat → List Bytes) (s : Server) : Call → Option Server
  | .read r => (connNext s.world (.read r)).map (answering redis s)
  | .sendmsg r =>
    (sendNext ⟨s.out, s.accepted⟩ r).bind fun t =>
      match r with
      | .sent _ =>
        if t.out.state = .write then
          (connNext s.world (.transmit .incomplete)).map fun w =>
            { s with world := w, out := t.out, accepted := t.accepted }
        else
          (connNext s.world (.transmit .complete)).map fun w =>
            answering redis { s with out := t.out, accepted := [], replies := s.replies ++ [t.accepted] } w
      | .again =>
        (connNext s.world (.transmit .softError)).map fun w =>
          { s with world := w, out := t.out, accepted := t.accepted }
      | .error =>
        (connNext s.world (.transmit .hardError)).map fun w =>
          { s with world := w, out := t.out, accepted := t.accepted }

/-- No system call fails. -/
def Call.Calm : Call → Prop
  | .read .error => False
  | .sendmsg .error => False
  | _ => True

/-- A new connection. -/
def accept (cells : Bytes) (h : 0 < cells.length) (stream : Bytes) : Server :=
  ⟨start cells h stream, newOutgoing, [], []⟩

/-! ## 2. Which command is answered -/

/-- A command asks for `loadbalance` and something. -/
def Asks (command : Bytes) : Prop :=
  ∃ subcommand rest, words (· == 0x20) command = loadbalance :: subcommand :: rest

/-- **The tokens are the first words**, seven at most. -/
theorem tokenizeLoop_words {ntokens : Nat} {tok : Bytes} (command : Bytes) (hn : ntokens < 7)
    (htok : ∀ x ∈ tok, (x == 0x20) = false) :
    (tokenizeLoop ntokens tok command).1 = (words (· == 0x20) (tok ++ command)).take (7 - ntokens) := by
  induction command generalizing ntokens tok with
  | nil =>
    rw [tokenizeLoop, List.append_nil]
    by_cases hnil : tok = []
    · rw [if_pos hnil, hnil, words_nil, List.take_nil]
    · rw [if_neg hnil, words_single hnil htok, List.take_of_length_le]
      rw [List.length_singleton]
      omega
  | cons e rest ih =>
    rw [tokenizeLoop]
    by_cases hsep : e = 0x20
    · have hsep' : (e == 0x20) = true := by rw [hsep]; rfl
      rw [if_pos hsep]
      by_cases hnil : tok = []
      · rw [if_pos hnil, hnil, List.nil_append, words_sep (p := (· == 0x20)) hsep']
        exact ih hn fun x hx => absurd hx List.not_mem_nil
      · have hword : words (· == 0x20) (tok ++ e :: rest) = tok :: words (· == 0x20) rest := by
          rw [words_word hnil htok, words_sep (p := (· == 0x20)) hsep']
          intro c hc
          rw [← Option.some.inj hc]
          exact hsep'
        rw [if_neg hnil, hword, show 7 - ntokens = 6 - ntokens + 1 by omega, List.take_succ_cons]
        by_cases hmore : ntokens + 1 < 7
        · rw [if_pos hmore]
          show tok :: (tokenizeLoop (ntokens + 1) [] rest).1 = _
          rw [ih hmore fun x hx => absurd hx List.not_mem_nil, List.nil_append,
            show 7 - (ntokens + 1) = 6 - ntokens by omega]
        · rw [if_neg hmore, show 6 - ntokens = 0 by omega, List.take_zero]
    · rw [if_neg hsep]
      show (tokenizeLoop ntokens (tok ++ [e]) rest).1 = _
      rw [ih hn, List.append_assoc]
      · rfl
      · intro x hx
        rcases List.mem_append.1 hx with hx | hx
        · exact htok x hx
        · rw [List.mem_singleton.1 hx]
          exact beq_eq_false_iff_ne.2 hsep

/-- **A command is answered exactly if it asks.** -/
theorem asks_iff (command : Bytes) : (processCommand command).2 = true ↔ Asks command := by
  show (decide (3 ≤ (tokenizeLoop 0 [] command).1.length + 1) &&
    ((tokenizeLoop 0 [] command).1.head? == some loadbalance)) = true ↔ _
  rw [tokenizeLoop_words command (by decide) (fun x hx => absurd hx List.not_mem_nil), List.nil_append,
    Bool.and_eq_true,
    decide_eq_true_iff, beq_iff_eq, Asks]
  rcases words (· == 0x20) command with _ | ⟨first, _ | ⟨second, others⟩⟩ <;> simp

theorem answers_ne_nil {elements : List Bytes} {command : Bytes} :
    answers elements command ≠ [] ↔ (processCommand command).2 = true := by
  unfold answers
  split
  · rename_i h
    refine ⟨fun _ => h, fun _ => ?_⟩
    split <;> exact List.cons_ne_nil _ _
  · rename_i h
    exact ⟨fun hne => absurd rfl hne, fun hyes => absurd hyes h⟩

/-- **The reply to a command**: what `out_string` is called with last. -/
def replyTo (elements : List Bytes) (command : Bytes) : Option Bytes :=
  (answers elements command).getLast?.map replyText

theorem replyTo_isSome {elements : List Bytes} {command : Bytes} :
    (replyTo elements command).isSome = true ↔ Asks command := by
  rw [replyTo, Option.isSome_map, List.getLast?_isSome, answers_ne_nil, asks_iff]

/-! ## 3. The lines between two system calls -/

/-- The lines taken before a system call: none is answered and the connection reads, or the last is answered
    and the connection sends. -/
def Taken (new : List Bytes) (state : ConnState) : Prop :=
  (∀ c ∈ new, ¬Asks c) ∧ state = .read ∨
    ∃ front last, new = front ++ [last] ∧ (∀ c ∈ front, ¬Asks c) ∧ Asks last ∧ state = .write

/-- **Only the last of the lines taken may be answered.** -/
theorem drive_commands {w : World} (hread : w.conn.state = .read) :
    ∃ new, (drive w).commands = w.commands ++ new ∧ Taken new (drive w).conn.state := by
  refine drive_rule (fun w' => ∃ new, w'.commands = w.commands ++ new ∧ Taken new w'.conn.state)
    (fun w' => ∃ new, w'.commands = w.commands ++ new ∧ Taken new w'.conn.state) ?_ ?_ ⟨[], ?_, .inl ⟨?_, hread⟩⟩
  · rintro w₁ w₂ ⟨new, hnew, htaken⟩ hround
    obtain ⟨hstate, l, -, c, -, -, -, hstate', rfl⟩ := driveRound_more hround
    have hnone : ∀ c ∈ new, ¬Asks c := by
      rcases htaken with ⟨hnone, -⟩ | ⟨_, _, -, -, -, hwrite⟩
      · exact hnone
      · exact absurd (hstate.symm.trans hwrite) (by decide)
    refine ⟨new ++ [commandOf l], by rw [hnew, List.append_assoc], ?_⟩
    by_cases hasks : Asks (commandOf l)
    · rw [if_pos ((asks_iff _).2 hasks)] at hstate'
      exact .inr ⟨new, commandOf l, rfl, hnone, hasks, hstate'⟩
    · rw [if_neg fun hyes => hasks ((asks_iff _).1 hyes)] at hstate'
      refine .inl ⟨fun c hc => ?_, hstate'⟩
      rcases List.mem_append.1 hc with hc | hc
      · exact hnone c hc
      · rw [List.mem_singleton.1 hc]
        exact hasks
  · rintro w₁ w₂ ⟨new, hnew, htaken⟩ hround
    rcases driveRound_stop hround with ⟨-, rfl⟩ | ⟨-, -, rfl⟩
    · exact ⟨new, hnew, htaken⟩
    · refine ⟨new, hnew, ?_⟩
      show Taken new (makeRoom (moveToFront w₁.conn)).state
      rw [makeRoom_state]
      exact htaken
  · rw [List.append_nil]
  · exact fun c hc => absurd hc List.not_mem_nil

/-! ## 4. What the commands do to the half that sends -/

section Process

variable {redis : Nat → List Bytes}

theorem processAll_append (k : Nat) (o : Outgoing) (front rest : List Bytes) :
    processAll redis k o (front ++ rest) = processAll redis (k + front.length) (processAll redis k o front) rest := by
  induction front generalizing k o with
  | nil => rfl
  | cons c front ih =>
    rw [List.cons_append, processAll, ih, processAll, List.length_cons, Nat.add_right_comm, Nat.add_assoc]

/-- A command that does not ask leaves the state. -/
theorem process_state {elements : List Bytes} {o : Outgoing} {c : Bytes} (h : ¬Asks c) :
    (process elements o c).state = o.state := by
  have hnil : answers elements c = [] := by
    by_contra hne
    exact h ((asks_iff c).1 (answers_ne_nil.1 hne))
  rw [process, hnil]
  exact congrArg (fun f => f.2.2.1) (frame_addMsghdr _)

theorem processAll_state {k : Nat} {o : Outgoing} {cs : List Bytes} (h : ∀ c ∈ cs, ¬Asks c) :
    (processAll redis k o cs).state = o.state := by
  induction cs generalizing k o with
  | nil => rfl
  | cons c cs ih =>
    rw [processAll, ih fun c' hc' => h c' (List.mem_cons_of_mem _ hc')]
    exact process_state (h c List.mem_cons_self)

/-- **A command that asks is about to be answered**, by its reply. -/
theorem process_asks {elements : List Bytes} (o : Outgoing) {c : Bytes} (h : Asks c) :
    ∃ reply, replyTo elements c = some reply ∧ Sending (toSendmsg (process elements o c)) reply := by
  have hne : answers elements c ≠ [] := answers_ne_nil.2 ((asks_iff c).2 h)
  refine ⟨replyText ((answers elements c).getLast hne), ?_, ?_⟩
  · rw [replyTo, List.getLast?_eq_some_getLast hne, Option.map_some]
  · have hlast : process elements o c =
        outString (outStrings (prepare o) (answers elements c).dropLast) ((answers elements c).getLast hne) := by
      rw [process]
      conv_lhs => rw [← List.dropLast_append_getLast hne]
      exact List.foldl_append
    rw [hlast]
    exact toSendmsg_outString ((prepared_prepare o).outStrings _) _

/-- The replies to commands, the first of them the `k`th of the connection. -/
def repliesTo (redis : Nat → List Bytes) (k : Nat) (commands : List Bytes) : List Bytes :=
  (commands.zipIdx k).filterMap fun p => replyTo (redis p.2) p.1

theorem repliesTo_append (k : Nat) (front rest : List Bytes) :
    repliesTo redis k (front ++ rest) = repliesTo redis k front ++ repliesTo redis (k + front.length) rest := by
  rw [repliesTo, List.zipIdx_append, List.filterMap_append]
  rfl

theorem repliesTo_nil_of_not_asks {k : Nat} {cs : List Bytes} (h : ∀ c ∈ cs, ¬Asks c) :
    repliesTo redis k cs = [] := by
  rw [repliesTo, List.filterMap_eq_nil_iff]
  intro p hp
  rw [← Option.not_isSome_iff_eq_none, replyTo_isSome]
  exact h p.1 (List.fst_mem_of_mem_zipIdx hp)

theorem repliesTo_single {k : Nat} {c reply : Bytes} (h : replyTo (redis k) c = some reply) :
    repliesTo redis k [c] = [reply] := by
  rw [repliesTo, List.zipIdx_singleton]
  exact List.filterMap_cons_some h

end Process

/-! ## 5. Every run -/

section Run

variable {redis : Nat → List Bytes} {s s' : Server}

/-- **What has been sent, at every moment**: the replies to all commands; or to all but the last, and the
    connection sends the rest of that. Both halves have the same state while the connection is open. -/
def Answering (redis : Nat → List Bytes) (s : Server) : Prop :=
  (s.world.conn.state ≠ .write ∧ (s.world.conn.state = .read → s.out.state = .read) ∧ s.accepted = [] ∧
      s.replies = repliesTo redis 0 s.world.commands) ∨
    (s.world.conn.state = .write ∧ ∃ rest reply, repliesTo redis 0 s.world.commands = s.replies ++ [reply] ∧
      s.accepted ++ rest = reply ∧ Sending s.out rest)

/-- No command is taken. -/
theorem answering_none {w : World} (hcommands : w.commands = s.world.commands) (hwrite : w.conn.state ≠ .write)
    (hout : w.conn.state = .read → s.out.state = .read) (haccepted : s.accepted = [])
    (hreplies : s.replies = repliesTo redis 0 s.world.commands) : Answering redis (answering redis s w) := by
  have hsame : processed redis s w = s.out := by
    rw [processed, hcommands, List.drop_length]
    rfl
  rw [answering, if_neg hwrite, hsame]
  exact .inl ⟨hwrite, hout, haccepted, by rw [hreplies, ← hcommands]⟩

/-- **The lines taken before a system call are answered**, where all before them were. -/
theorem answering_drive {w : World} (hcommands : w.commands = s.world.commands) (hread : w.conn.state = .read)
    (hout : s.out.state = .read) (haccepted : s.accepted = [])
    (hreplies : s.replies = repliesTo redis 0 s.world.commands) :
    Answering redis (answering redis s (drive w)) := by
  obtain ⟨new, hnew, htaken⟩ := drive_commands hread
  rw [hcommands] at hnew
  have hall : repliesTo redis 0 (drive w).commands = s.replies ++ repliesTo redis s.world.commands.length new := by
    rw [hnew, repliesTo_append, hreplies, Nat.zero_add]
  have hprocessed : processed redis s (drive w) = processAll redis s.world.commands.length s.out new := by
    rw [processed, hnew, List.drop_left]
  rcases htaken with ⟨hnone, hstate⟩ | ⟨front, last, rfl, hnone, hasks, hstate⟩
  · have hwrite : (drive w).conn.state ≠ .write := by
      rw [hstate]
      decide
    rw [answering, if_neg hwrite, hprocessed]
    refine .inl ⟨hwrite, fun _ => (processAll_state hnone).trans hout, haccepted, ?_⟩
    show s.replies = repliesTo redis 0 (drive w).commands
    rw [hall, repliesTo_nil_of_not_asks hnone, List.append_nil]
  · obtain ⟨reply, hreply, hsending⟩ := @process_asks (redis (s.world.commands.length + front.length))
      (processAll redis s.world.commands.length s.out front) _ hasks
    rw [answering, if_pos hstate, hprocessed, processAll_append]
    refine .inr ⟨hstate, reply, reply, ?_, ?_, hsending⟩
    · show repliesTo redis 0 (drive w).commands = s.replies ++ [reply]
      rw [hall, repliesTo_append, repliesTo_nil_of_not_asks hnone, List.nil_append, repliesTo_single hreply]
    · show s.accepted ++ reply = reply
      rw [haccepted, List.nil_append]

/-- **One result of `read()`.** -/
theorem answering_read {r : ReadResult} (h : Answering redis s) (hcalm : (Call.read r).Calm)
    (hs : serverNext redis s (.read r) = some s') : Answering redis s' := by
  obtain ⟨w, hw, rfl⟩ := Option.map_eq_some_iff.1 hs
  have hread : s.world.conn.state = .read := (Option.ite_none_right_eq_some.mp hw).1
  obtain ⟨-, hout, haccepted, hreplies⟩ := h.resolve_right fun hc => absurd (hread.symm.trans hc.1) (by decide)
  have hout := hout hread
  cases connNext_step hw with
  | filled bs _ _ _ hfits _ =>
    refine answering_none rfl ?_ (fun _ => hout) haccepted hreplies
    show (makeRoom (received s.world.conn bs hfits)).state ≠ .write
    rw [makeRoom_state]
    exact fun hc => absurd (hread.symm.trans hc) (by decide)
  | part | again => exact answering_drive rfl hread hout haccepted hreplies
  | eof _ _ =>
    refine answering_none rfl ?_ (fun _ => hout) haccepted hreplies
    show (connSetState s.world.conn .closing).state ≠ .write
    rw [connSetState_state]
    decide
  | readError _ => exact hcalm.elim

/-- What `transmit` makes of a result of `sendmsg()`. -/
theorem serverNext_transmit {r : SendResult} (hs : serverNext redis s (.sendmsg r) = some s') :
    ∃ t, connNext s.world (.transmit t) = some s'.world ∧ ((Call.sendmsg r).Calm → Calm s.world (.transmit t)) := by
  obtain ⟨t, -, hs⟩ := Option.bind_eq_some_iff.1 hs
  cases r with
  | sent n =>
    simp only at hs
    by_cases hmore : t.out.state = .write
    · rw [if_pos hmore] at hs
      obtain ⟨w, hw, rfl⟩ := Option.map_eq_some_iff.1 hs
      exact ⟨.incomplete, hw, fun _ => trivial⟩
    · rw [if_neg hmore] at hs
      obtain ⟨w, hw, rfl⟩ := Option.map_eq_some_iff.1 hs
      exact ⟨.complete, hw, fun _ => trivial⟩
  | again =>
    obtain ⟨w, hw, rfl⟩ := Option.map_eq_some_iff.1 hs
    exact ⟨.softError, hw, fun _ => trivial⟩
  | error =>
    obtain ⟨w, hw, rfl⟩ := Option.map_eq_some_iff.1 hs
    exact ⟨.hardError, hw, False.elim⟩

/-- **One result of `sendmsg()`.** -/
theorem answering_sendmsg {r : SendResult} (h : Answering redis s) (hcalm : (Call.sendmsg r).Calm)
    (hs : serverNext redis s (.sendmsg r) = some s') : Answering redis s' := by
  have hwrite : s.world.conn.state = .write := by
    obtain ⟨_, ht, -⟩ := serverNext_transmit hs
    exact (Option.ite_none_right_eq_some.mp ht).1
  obtain ⟨-, rest, reply, hreplies, hreply, hsending⟩ := h.resolve_left fun hc => hc.1 hwrite
  obtain ⟨t, ht, hs⟩ := Option.bind_eq_some_iff.1 hs
  cases r with
  | sent n =>
    obtain ⟨rest', hreply', hrest'⟩ := sends_step ⟨rest, hreply, .inl hsending⟩ SendResult.noConfusion ht
    simp only at hs
    by_cases hmore : t.out.state = .write
    · rw [if_pos hmore] at hs
      obtain ⟨w, hw, rfl⟩ := Option.map_eq_some_iff.1 hs
      cases connNext_step hw with
      | incomplete _ =>
        have hsending' := hrest'.resolve_right fun hc => absurd (hmore.symm.trans hc.2) (by decide)
        exact .inr ⟨hwrite, rest', reply, hreplies, hreply', hsending'⟩
    · rw [if_neg hmore] at hs
      obtain ⟨w, hw, rfl⟩ := Option.map_eq_some_iff.1 hs
      obtain ⟨rfl, hread⟩ := hrest'.resolve_left fun hc => hmore hc.state
      rw [List.append_nil] at hreply'
      cases connNext_step hw with
      | complete _ =>
        refine answering_drive rfl (connSetState_state _ _) hread rfl ?_
        show s.replies ++ [t.accepted] = repliesTo redis 0 s.world.commands
        rw [hreplies, hreply']
  | again =>
    obtain ⟨w, hw, rfl⟩ := Option.map_eq_some_iff.1 hs
    cases connNext_step hw with
    | softError _ =>
      obtain ⟨-, ht⟩ := Option.ite_none_right_eq_some.mp ht
      cases ht
      refine .inr ⟨hwrite, rest, reply, hreplies, hreply, ?_⟩
      show Sending (toSendmsg s.out) rest
      rw [toSendmsg_pending hsending.toPending, finish_sending hsending]
      exact hsending
  | error => exact hcalm.elim

theorem answering_step {c : Call} (h : Answering redis s) (hcalm : c.Calm) (hs : serverNext redis s c = some s') :
    Answering redis s' := by
  cases c with
  | read r => exact answering_read h hcalm hs
  | sendmsg r => exact answering_sendmsg h hcalm hs

variable {cells : Bytes} {hc : 0 < cells.length} {stream : Bytes}

theorem answering_run (hr : Reaches (serverNext redis) (fun _ => Call.Calm) (accept cells hc stream) s) :
    Answering redis s :=
  hr.invariant (Answering redis) (.inl ⟨ConnState.noConfusion, fun _ => rfl, rfl, rfl⟩)
    fun _ _ _ hI hcalm hs => answering_step hI hcalm hs

/-- **The half that reads runs by itself.** -/
theorem world_run (hr : Reaches (serverNext redis) (fun _ => Call.Calm) (accept cells hc stream) s) :
    Reaches connNext Calm (start cells hc stream) s.world := by
  induction hr with
  | start => exact .start
  | step c _ hcalm hs ih =>
    cases c with
    | read r =>
      obtain ⟨w, hw, rfl⟩ := Option.map_eq_some_iff.1 hs
      refine .step (.read r) ih ?_ hw
      cases r with
      | error => exact hcalm.elim
      | bytes | again | eof => trivial
    | sendmsg r =>
      obtain ⟨t, ht, hok⟩ := serverNext_transmit hs
      exact .step (.transmit t) ih (hok hcalm) ht

end Run

/-! ## 6. Replies and lines -/

/-- All the client has sent is read, no line is left, and no reply is under way. -/
def Settled (s : Server) : Prop :=
  s.world.stream = [] ∧ s.world.conn.state = .read ∧ 0x0A ∉ s.world.conn.buf.held

/-- An empty line, with or without a CR. -/
def blank (line : Bytes) : Bool := line == [] || line == [0x0D]

theorem not_blank_of_asks {line : Bytes} (h : Asks (commandOf line)) : blank line = false := by
  rw [← asks_iff] at h
  by_contra hb
  rw [Bool.not_eq_false, blank, Bool.or_eq_true, beq_iff_eq, beq_iff_eq] at hb
  rcases hb with rfl | rfl
  · exact absurd h (by decide)
  · exact absurd h (by decide)

/-- What `f` gives for a list, beside what it should give for the members that count. -/
theorem filterMap_some_iff {α β : Type} {p : α → Bool} {f : α → Option β}
    (hp : ∀ x, (f x).isSome = true → p x = true) (l : List α) :
    (l.filterMap f).map some = (l.filter p).map f ↔ ∀ x ∈ l, p x = true → (f x).isSome = true := by
  constructor
  · intro h x hx hpx
    have hmem : f x ∈ (l.filter p).map f := List.mem_map_of_mem (List.mem_filter.2 ⟨hx, hpx⟩)
    rw [← h] at hmem
    obtain ⟨y, -, hy⟩ := List.mem_map.1 hmem
    rw [← hy]
    rfl
  · intro h
    induction l with
    | nil => rfl
    | cons x l ih =>
      have ih := ih fun y hy => h y (List.mem_cons_of_mem _ hy)
      cases hf : f x with
      | none =>
        have hpx : p x = false := by
          by_contra hpx
          have hsome := h x List.mem_cons_self (Bool.of_not_eq_false hpx)
          rw [hf] at hsome
          exact absurd hsome Bool.false_ne_true
        rw [List.filterMap_cons_none hf, List.filter_cons_of_neg (by rw [hpx]; decide), ih]
      | some y =>
        have hpx : p x = true := hp x (by rw [hf]; rfl)
        rw [List.filterMap_cons_some hf, List.filter_cons_of_pos hpx, List.map_cons, List.map_cons, hf, ih]

/-- The same, of the members of the first of two lists. -/
theorem filterMap_append_iff {α β : Type} {p : α → Bool} {f : α → Option β}
    (hp : ∀ x, (f x).isSome = true → p x = true) (l l' : List α) :
    (l.filterMap f).map some = ((l ++ l').filter p).map f ↔
      (∀ x ∈ l, p x = true → (f x).isSome = true) ∧ ∀ x ∈ l', p x = false := by
  have hnone : (∀ x ∈ l', p x = false) ↔ l'.filter p = [] := by
    simp [List.filter_eq_nil_iff]
  rw [hnone, ← filterMap_some_iff hp l, List.filter_append, List.map_append]
  constructor
  · intro h
    have hle : (l.filterMap f).length ≤ (l.filter p).length := by
      rw [List.length_filterMap_eq_countP, ← List.countP_eq_length_filter]
      exact List.countP_mono_left fun x _ => hp x
    have hlength := congrArg List.length h
    rw [List.length_append, List.length_map, List.length_map, List.length_map] at hlength
    have hnil : l'.filter p = [] := List.eq_nil_of_length_eq_zero (by omega)
    rw [hnil, List.map_nil, List.append_nil] at h
    exact ⟨h, hnil⟩
  · intro ⟨h, hnil⟩
    rw [h, hnil, List.map_nil, List.append_nil]

/-- **One reply for each line that is not empty**, in order, and each is the reply to its line. -/
def Replied (redis : Nat → List Bytes) (stream : Bytes) (s : Server) : Prop :=
  s.replies.map some = ((linesOf 0x0A stream).zipIdx.filter fun p => !blank p.1).map
    fun p => replyTo (redis p.2) (commandOf p.1)

/-- The lines that are not empty ask for `loadbalance` and something. -/
def AllAsk (stream : Bytes) : Prop :=
  ∀ line ∈ linesOf 0x0A stream, blank line = false → Asks (commandOf line)

/-- **Replies and lines**, whenever all is read and no reply is under way: the lines in the buffer have none. -/
theorem replied_unless_held {redis : Nat → List Bytes} {cells : Bytes} {hc : 0 < cells.length}
    {stream : Bytes} {s : Server}
    (hr : Reaches (serverNext redis) (fun _ => Call.Calm) (accept cells hc stream) s) (hstream : s.world.stream = [])
    (hwrite : s.world.conn.state ≠ .write) :
    Replied redis stream s ↔ AllAsk stream ∧ ∀ line ∈ linesOf 0x0A s.world.conn.buf.held, blank line = true := by
  obtain ⟨taken, hlines, hcommands⟩ := (inStream_run (world_run hr)).lines
  rw [hstream, List.append_nil] at hlines
  obtain ⟨-, -, -, hreplies⟩ := (answering_run hr).resolve_right fun h => hwrite h.1
  have hpairs : s.replies = taken.zipIdx.filterMap fun p => replyTo (redis p.2) (commandOf p.1) := by
    rw [hreplies, repliesTo, hcommands, List.zipIdx_map, List.filterMap_map]
    rfl
  unfold Replied AllAsk
  rw [hlines, hpairs, List.zipIdx_append,
    filterMap_append_iff fun p hp => by rw [not_blank_of_asks (replyTo_isSome.1 hp)]; rfl]
  constructor
  · intro ⟨htaken, hheld⟩
    have hblank : ∀ line ∈ linesOf 0x0A s.world.conn.buf.held, blank line = true := by
      intro line hline
      obtain ⟨k, hk⟩ := List.mem_iff_getElem?.1 hline
      have hmem := hheld (line, 0 + taken.length + k) (List.mk_add_mem_zipIdx_iff_getElem?.2 hk)
      simpa using hmem
    refine ⟨fun line hline hnot => ?_, hblank⟩
    rcases List.mem_append.1 hline with hline | hline
    · obtain ⟨k, hk⟩ := List.mem_iff_getElem?.1 hline
      exact replyTo_isSome.1 (htaken (line, k) (List.mk_mem_zipIdx_iff_getElem?.2 hk) (by rw [hnot]; rfl))
    · exact absurd (hnot.symm.trans (hblank line hline)) Bool.false_ne_true
  · intro ⟨hasks, hheld⟩
    refine ⟨fun p hp hblank => ?_, fun p hp => ?_⟩
    · refine replyTo_isSome.2 (hasks p.1 (List.mem_append_left _ (List.fst_mem_of_mem_zipIdx hp)) ?_)
      exact Bool.not_eq_true' _ ▸ hblank
    · rw [hheld p.1 (List.fst_mem_of_mem_zipIdx hp)]
      rfl

/-- **There is one reply for each line that is not empty, in order, exactly if each of these lines asks for
    `loadbalance` and something**, and, if the client closes its side, none of them is in the buffer when
    `read()` meets the end of the file: for every stream, every size of the buffer, every way bytes are read
    and replies are sent, and whatever the lookups return. -/
theorem replied_iff (redis : Nat → List Bytes) (cells : Bytes) (hc : 0 < cells.length) (stream : Bytes)
    (s : Server) (hr : Reaches (serverNext redis) (fun _ => Call.Calm) (accept cells hc stream) s) :
    (Settled s → (Replied redis stream s ↔ AllAsk stream)) ∧ ∀ s', serverNext redis s (.read .eof) = some s' →
        (Replied redis stream s' ↔
          AllAsk stream ∧ ∀ line ∈ linesOf 0x0A s.world.conn.buf.held, blank line = true) := by
  constructor
  · intro ⟨hstream, hread, hheld⟩
    have hwrite : s.world.conn.state ≠ .write := by
      rw [hread]
      decide
    rw [replied_unless_held hr hstream hwrite, linesOf_eq_nil.2 hheld]
    exact and_iff_left fun line hline => absurd hline List.not_mem_nil
  · intro s' hs
    have hr' := Reaches.step _ hr (show (Call.read .eof).Calm from trivial) hs
    obtain ⟨w, hw, rfl⟩ := Option.map_eq_some_iff.1 hs
    cases connNext_step hw with
    | eof hread hstream =>
      have hclosing := connSetState_state s.world.conn .closing
      rw [replied_unless_held hr' hstream fun hwrite => absurd (hclosing.symm.trans hwrite) (by decide)]
      show AllAsk stream ∧ (∀ line ∈ linesOf 0x0A (connSetState s.world.conn .closing).buf.held, _) ↔ _
      rw [connSetState_held]

instance (s : Server) : Decidable (Settled s) := inferInstanceAs (Decidable (_ ∧ _ ∧ _))

/-- Every lookup finds one server. -/
def oneServer : Nat → List Bytes := fun _ => [bytesOf "10.0.0.1"]

theorem cells64_pos : 0 < (List.replicate 64 (0 : UInt8)).length := by
  rw [List.length_replicate]
  decide

/-- A connection with a buffer of 64 bytes, whose client sends a text. -/
def client (text : String) : Server := accept (List.replicate 64 0) cells64_pos (bytesOf text)

/-- A client that asks twice. -/
def twoLookups : String := "loadbalance msgservers\r\n\r\nloadbalance msgservers\n"

/-- Each reply is taken in two parts. -/
def twoAnswers : List Call :=
  [.read (.bytes (bytesOf twoLookups)), .sendmsg (.sent 4), .sendmsg .again, .sendmsg (.sent 6),
    .sendmsg (.sent 4), .sendmsg (.sent 6)]

/-- Two lookups, each answered in two parts, and an empty line; then the client closes its side. -/
theorem replied_iff_lookup :
    ∃ s s', Reaches (serverNext oneServer) (fun _ => Call.Calm) (client twoLookups) s ∧ Settled s ∧
      serverNext oneServer s (.read .eof) = some s' ∧ Replied oneServer (bytesOf twoLookups) s ∧
      Replied oneServer (bytesOf twoLookups) s' := by
  have hview : (runEvents (serverNext oneServer) (client twoLookups) twoAnswers).map (fun s => decide (Settled s)) =
      some true := by decide +kernel
  obtain ⟨s, hs, hsettled⟩ := Option.map_eq_some_iff.1 hview
  have hsettled := of_decide_eq_true hsettled
  have hrun : Reaches (serverNext oneServer) (fun _ => Call.Calm) (client twoLookups) s :=
    Reaches.start.runEvents (by simp [twoAnswers, Call.Calm]) hs
  have hasks : AllAsk (bytesOf twoLookups) := by
    have hall : (linesOf 0x0A (bytesOf twoLookups)).all
        (fun line => blank line || (processCommand (commandOf line)).2) = true := by decide +kernel
    intro line hline hnot
    have hline := List.all_eq_true.1 hall line hline
    rw [hnot, Bool.false_or] at hline
    exact (asks_iff _).1 hline
  obtain ⟨hstream, hread, hheld⟩ := id hsettled
  have heof : serverNext oneServer s (.read .eof) = some (answering oneServer s _) :=
    congrArg (Option.map (answering oneServer s)) (connNext_eof hread hstream)
  obtain ⟨hopen, hclosed⟩ := replied_iff oneServer _ cells64_pos _ s hrun
  refine ⟨s, _, hrun, hsettled, heof, (hopen hsettled).2 hasks, (hclosed _ heof).2 ⟨hasks, ?_⟩⟩
  rw [linesOf_eq_nil.2 hheld]
  exact fun line hline => absurd hline List.not_mem_nil

/-- **A line that does not ask shifts the replies**: `hello` gets none, so the first is that to the second line. -/
theorem hello_unanswered :
    ∃ s, Reaches (serverNext oneServer) (fun _ => Call.Calm) (client "hello\nloadbalance msgservers\n") s ∧ Settled s ∧
      s.replies = [bytesOf "10.0.0.1\r\n"] ∧ ¬Replied oneServer (bytesOf "hello\nloadbalance msgservers\n") s := by
  have hview : (runEvents (serverNext oneServer) (client "hello\nloadbalance msgservers\n")
      [.read (.bytes (bytesOf "hello\nloadbalance msgservers\n")), .sendmsg (.sent 10)]).map
        (fun s => (decide (Settled s), s.replies)) = some (true, [bytesOf "10.0.0.1\r\n"]) := by decide +kernel
  obtain ⟨s, hs, hfacts⟩ := Option.map_eq_some_iff.1 hview
  obtain ⟨hsettled, hreplies⟩ := Prod.mk.inj hfacts
  have hrun : Reaches (serverNext oneServer) (fun _ => Call.Calm) (client "hello\nloadbalance msgservers\n") s :=
    Reaches.start.runEvents (by simp [Call.Calm]) hs
  refine ⟨s, hrun, of_decide_eq_true hsettled, hreplies, ?_⟩
  unfold Replied
  rw [hreplies]
  decide +kernel

/-- **Lines that fill the buffer and end are not answered**: the read that fills it is followed by another one
    in the same call, which meets the end of the file. -/
theorem filled_unanswered (redis : Nat → List Bytes) (cells : Bytes) (hc : 0 < cells.length)
    (stream : Bytes) (hlen : stream.length = cells.length) :
    ∃ s s', Reaches (serverNext redis) (fun _ => Call.Calm) (accept cells hc stream) s ∧
      serverNext redis s (.read .eof) = some s' ∧ s'.replies = [] := by
  obtain ⟨w, hfirst, hread, hstream, _⟩ := start_filled cells hc stream hlen
  have hfilled : serverNext redis (accept cells hc stream) (.read (.bytes stream)) =
      some (answering redis (accept cells hc stream) w) :=
    congrArg (Option.map (answering redis (accept cells hc stream))) hfirst
  exact ⟨_, _, .step (.read (.bytes stream)) .start trivial hfilled,
    congrArg (Option.map (answering redis _)) (connNext_eof hread hstream), rfl⟩

/-- Lookups that fill 2048 bytes. -/
def fullOfLookups : Bytes :=
  (List.replicate 88 (bytesOf "loadbalance msgservers\n")).flatten ++ bytesOf "loadbalance msgservers\r\n"

/-- 2048 bytes of lookups on a new connection: none is answered. -/
theorem fullBuffer_unanswered :
    ∃ s s', Reaches (serverNext oneServer) (fun _ => Call.Calm)
        (accept (List.replicate 2048 0) newBuffer_pos fullOfLookups) s ∧
      serverNext oneServer s (.read .eof) = some s' ∧ ¬Replied oneServer fullOfLookups s' := by
  have hlen : fullOfLookups.length = (List.replicate 2048 (0 : UInt8)).length := by
    rw [List.length_replicate]
    decide +kernel
  obtain ⟨s, s', hrun, heof, hnone⟩ := filled_unanswered oneServer _ newBuffer_pos _ hlen
  refine ⟨s, s', hrun, heof, ?_⟩
  unfold Replied
  rw [hnone]
  decide +kernel

end SmartHome.Dserver
