/-
  Subject:   READING REQUESTS FROM A CLIENT (networking.c).

  Bytes come in reads of any size into `querybuf`. A request is a line, or a count and that many strings
  with their lengths in front; what has come of it is kept between reads in the fields of the client. A long
  string is read so that the buffer holds nothing else and need not be copied. After a protocol error, and
  after QUIT, nothing more is executed.

  * `processInlineBuffer`, `multibulkCount`, `readBulklen`, `bulkStep`, `processMultibulkBuffer`, `inputStep`,
    `processInputBuffer`, `readQueryFromClient` -- the source; what the client executes and is told are `Action`s;
  * `Fresh`, `Rests` -- what the fields say between two reads;
  * **`reads_safe`** -- for every sequence of bytes and of read sizes: no assertion fails, every read asks for at
    least one byte, and what was executed ends with the first QUIT or protocol error.
-/
import SmartHome.Lib.CString
import SmartHome.Redis.Sds

namespace SmartHome.Redis

open SmartHome.Lib

/-! ## 1. The source -/

/-- `REDIS_INLINE_MAX_SIZE`. -/
def inlineMaxSize : Nat := 65536

/-- `REDIS_MBULK_BIG_ARG`. -/
def mbulkBigArg : Nat := 32768

/-- `REDIS_IOBUF_LEN`. -/
def iobufLen : Nat := 16384

/-- `server.client_max_querybuf_len`. -/
def maxQuerybufLen : Nat := 1073741824

/-- `reqtype`, when it is known. -/
inductive ReqType where
  | inline
  | multibulk
  deriving DecidableEq

/-- The fields of `redisClient` that reading uses; `bulklen` is -1 while it is unknown. -/
structure Query where
  querybuf : Sds
  reqtype : Option ReqType
  multibulklen : Nat
  bulklen : Option Nat
  argv : List Sds
  closeAfterReply : Bool
  deriving DecidableEq

namespace Query

/-- `createClient`. -/
def new : Query := ⟨[], none, 0, none, [], false⟩

/-- `sdsrange(c->querybuf, pos, -1)`. -/
def sdsrange (q : Query) (pos : Nat) : Query := { q with querybuf := q.querybuf.drop pos }

/-- `setProtocolError`. -/
def setProtocolError (q : Query) (pos : Nat) : Query :=
  { q with querybuf := q.querybuf.drop pos, closeAfterReply := true }

/-- `resetClient`. -/
def reset (q : Query) : Query := { q with reqtype := none, multibulklen := 0, bulklen := none, argv := [] }

end Query

/-- How the reading of a request ends: `REDIS_OK`; `REDIS_ERR`, with or without an error reply; not at all, when an
    assertion fails. -/
inductive Parsed where
  | ok (q : Query)
  | err (q : Query)
  | protocolError (q : Query) (message : Sds)
  | assertFailed

/-- `processInlineBuffer`. -/
def processInlineBuffer (q : Query) : Parsed :=
  match strchr q.querybuf 0x0A with
  | none =>
    if q.querybuf.length > inlineMaxSize then
      .protocolError (q.setProtocolError 0) (chars "Protocol error: too big inline request")
    else .err q
  | some newline =>
    let querylen := if newline ≠ 0 ∧ q.querybuf[newline - 1]? = some 0x0D then newline - 1 else newline
    match sdssplitargs (q.querybuf.take querylen) with
    | none => .protocolError (q.setProtocolError 0) (chars "Protocol error: unbalanced quotes in request")
    | some argv =>
      .ok { q with querybuf := q.querybuf.drop (querylen + 2), argv := argv.filter fun a => !a.isEmpty }

/-- `processMultibulkBuffer`, while the count is unknown; with the count goes the position behind it. -/
def multibulkCount (q : Query) : Parsed ⊕ (Query × Nat) :=
  if q.argv ≠ [] then .inl .assertFailed
  else
    match strchr q.querybuf 0x0D with
    | none =>
      if q.querybuf.length > inlineMaxSize then
        .inl (.protocolError (q.setProtocolError 0) (chars "Protocol error: too big mbulk count string"))
      else .inl (.err q)
    | some newline =>
      if q.querybuf.length < newline + 2 then .inl (.err q)
      else if q.querybuf.head? ≠ some 0x2A then .inl .assertFailed
      else
        match (string2ll ((q.querybuf.take newline).drop 1)).filter fun ll => ll ≤ 1048576 with
        | none => .inl (.protocolError (q.setProtocolError 0) (chars "Protocol error: invalid multibulk length"))
        | some ll =>
          if ll ≤ 0 then .inl (.ok (q.sdsrange (newline + 2)))
          else .inr ({ q with multibulklen := ll.toNat }, newline + 2)

/-- `addReplyErrorFormat` writes a blank for a line break. -/
def expectedDollar (got : UInt8) : Sds :=
  chars "Protocol error: expected '$', got '" ++ [if got = 0x0D ∨ got = 0x0A then 0x20 else got] ++ chars "'"

/-- The length of the next string, if it is unknown. Where the loop is left, the buffer is trimmed to `pos`. -/
def readBulklen (q : Query) (pos : Nat) : Parsed ⊕ (Query × Nat) :=
  if q.bulklen.isSome then .inr (q, pos)
  else
    match strchr (q.querybuf.drop pos) 0x0D with
    | none =>
      if q.querybuf.length > inlineMaxSize then
        .inl (.protocolError (q.setProtocolError pos) (chars "Protocol error: too big bulk count string"))
      else .inl (.err (q.sdsrange pos))
    | some n =>
      if q.querybuf.length < pos + n + 2 then .inl (.err (q.sdsrange pos))
      else if (q.querybuf.drop pos).head? ≠ some 0x24 then
        .inl (.protocolError (q.setProtocolError pos) (expectedDollar ((q.querybuf.drop pos).headD 0)))
      else
        match (string2ll (((q.querybuf.drop pos).take n).drop 1)).filter fun ll => 0 ≤ ll ∧ ll ≤ 536870912 with
        | none => .inl (.protocolError (q.setProtocolError pos) (chars "Protocol error: invalid bulk length"))
        | some ll =>
          -- a long string is to begin where the buffer does
          if ll.toNat ≥ mbulkBigArg then .inr ({ q.sdsrange (pos + n + 2) with bulklen := some ll.toNat }, 0)
          else .inr ({ q with bulklen := some ll.toNat }, pos + n + 2)

/-- An argument more. -/
def Query.takeBulk (q : Query) (arg : Sds) : Query :=
  { q with argv := q.argv ++ [arg], bulklen := none, multibulklen := q.multibulklen - 1 }

/-- A round of the loop over the strings. -/
def bulkStep : Query × Nat → Parsed ⊕ (Query × Nat)
  | (q, pos) =>
    if q.multibulklen = 0 then .inl (.ok (q.sdsrange pos))
    else
      match readBulklen q pos with
      | .inl r => .inl r
      | .inr (q, pos) =>
        let bulklen := q.bulklen.getD 0
        if q.querybuf.length - pos < bulklen + 2 then .inl (.err (q.sdsrange pos))
        else if pos = 0 ∧ bulklen ≥ mbulkBigArg ∧ q.querybuf.length = bulklen + 2 then
          -- the buffer becomes the argument, and is begun anew
          .inr ({ q.takeBulk (q.querybuf.take bulklen) with querybuf := [] }, 0)
        else .inr (q.takeBulk ((q.querybuf.drop pos).take bulklen), pos + bulklen + 2)

/-- `processMultibulkBuffer`. -/
def processMultibulkBuffer (q : Query) : Parsed :=
  match if q.multibulklen = 0 then multibulkCount q else .inr (q, 0) with
  | .inl r => r
  | .inr s =>
    if s.1.multibulklen = 0 then .assertFailed
    else loop bulkStep (fun _ => .assertFailed) (s.1.multibulklen + 1) s

/-- What is done for the client: `processCommand` is called, or an error is added to the reply. -/
inductive Action where
  | execute (argv : List Sds)
  | error (message : Sds)
  deriving DecidableEq

/-- How `strcasecmp(argv[0], "quit")` answers. -/
def isQuit (argv : List Sds) : Bool :=
  ((argv.headD []).takeWhile (· != 0)).map tolower == chars "quit"

/-- How the reading of what has come ends. -/
inductive Served where
  | done (q : Query) (actions : List Action)
  | freed
  | assertFailed

/-- The type of the request, by its first byte. -/
def Query.determineType (q : Query) : Query :=
  if q.reqtype.isSome then q
  else { q with reqtype := some (if q.querybuf.head? = some 0x2A then .multibulk else .inline) }

/-- The request. -/
def Query.processRequest (q : Query) : Parsed :=
  if q.reqtype = some .inline then processInlineBuffer q else processMultibulkBuffer q

/-- A round of `processInputBuffer`. -/
def inputStep : Query × List Action → Served ⊕ (Query × List Action)
  | (q, actions) =>
    if q.querybuf = [] ∨ q.closeAfterReply = true then .inl (.done q actions)
    else
      match q.determineType.processRequest with
      | .assertFailed => .inl .assertFailed
      | .err q => .inl (.done q actions)
      | .protocolError q message => .inl (.done q (actions ++ [.error message]))
      | .ok q =>
        if q.argv = [] then .inr (q.reset, actions)
        -- `processCommand` returns `REDIS_ERR` for QUIT: the client is not reset
        else if isQuit q.argv then .inr ({ q with closeAfterReply := true }, actions ++ [.execute q.argv])
        else .inr (q.reset, actions ++ [.execute q.argv])

/-- `processInputBuffer`. -/
def processInputBuffer (q : Query) : Served :=
  loop inputStep (fun _ => .assertFailed) (q.querybuf.length + 1) (q, [])

/-- How much `readQueryFromClient` asks for. -/
def Query.readlen (q : Query) : Int :=
  if q.reqtype = some .multibulk ∧ q.multibulklen ≠ 0 ∧ q.bulklen.isSome ∧ q.bulklen.getD 0 ≥ mbulkBigArg then
    min iobufLen ((q.bulklen.getD 0 : Int) + 2 - q.querybuf.length)
  else iobufLen

/-- `readQueryFromClient`, when `read` gives `data`. -/
def readQueryFromClient (q : Query) (data : Sds) : Served :=
  if (q.querybuf ++ data).length > maxQuerybufLen then .freed
  else processInputBuffer { q with querybuf := q.querybuf ++ data }

/-! ## 2. What each function can do -/

section Cases

variable {q q' : Query} {pos pos' : Nat}

theorem processInlineBuffer_cases (q : Query) :
    processInlineBuffer q = .err q ∨ (∃ m, processInlineBuffer q = .protocolError (q.setProtocolError 0) m) ∨
      ∃ k argv, processInlineBuffer q = .ok { q.sdsrange k with argv := argv } ∧ 0 < k ∧ 0 < q.querybuf.length := by
  unfold processInlineBuffer
  split
  · split
    · exact .inr (.inl ⟨_, rfl⟩)
    · exact .inl rfl
  · rename_i newline hnewline
    obtain ⟨a, b, hbuf, -, -, -⟩ := strchr_some hnewline
    have hpos : 0 < q.querybuf.length := by
      rw [hbuf, List.length_append, List.length_cons]
      omega
    simp only
    split
    · exact .inr (.inl ⟨_, rfl⟩)
    · exact .inr (.inr ⟨_, _, rfl, Nat.succ_pos _, hpos⟩)

theorem multibulkCount_cases (q : Query) :
    (multibulkCount q = .inl .assertFailed ∧ ¬ (q.argv = [] ∧ q.querybuf.head? = some 0x2A)) ∨
      multibulkCount q = .inl (.err q) ∨ (∃ m, multibulkCount q = .inl (.protocolError (q.setProtocolError 0) m)) ∨
      ∃ k, 2 ≤ k ∧ k ≤ q.querybuf.length ∧ (multibulkCount q = .inl (.ok (q.sdsrange k)) ∨
          ∃ n, 0 < n ∧ n ≤ 1048576 ∧ multibulkCount q = .inr ({ q with multibulklen := n }, k)) := by
  unfold multibulkCount
  split
  · rename_i hargv
    exact .inl ⟨rfl, fun h => hargv h.1⟩
  split
  · split
    · exact .inr (.inr (.inl ⟨_, rfl⟩))
    · exact .inr (.inl rfl)
  split
  · exact .inr (.inl rfl)
  rename_i newline _ hfull
  split
  · rename_i hhead
    exact .inl ⟨rfl, fun h => hhead h.2⟩
  split
  · exact .inr (.inr (.inl ⟨_, rfl⟩))
  rename_i ll hll
  have hle : ll ≤ 1048576 := of_decide_eq_true (Option.filter_eq_some_iff.1 hll).2
  refine .inr (.inr (.inr ⟨newline + 2, Nat.le_add_left 2 newline, Nat.not_lt.1 hfull, ?_⟩))
  split
  · exact .inl rfl
  · exact .inr ⟨ll.toNat, by omega, by omega, rfl⟩

/-- The length of a string is known, or the loop is left. -/
theorem readBulklen_cases (q : Query) (pos : Nat) :
    (q.bulklen = none ∧ (readBulklen q pos = .inl (.err (q.sdsrange pos)) ∨
        ∃ m, readBulklen q pos = .inl (.protocolError (q.setProtocolError pos) m))) ∨
      ∃ k b pos', readBulklen q pos = .inr ({ q.sdsrange k with bulklen := some b }, pos') ∧ pos ≤ k + pos' := by
  unfold readBulklen
  split
  · rename_i hsome
    obtain ⟨b, hb⟩ := Option.isSome_iff_exists.1 hsome
    refine .inr ⟨0, b, pos, ?_, Nat.le_add_left pos 0⟩
    rw [← hb]
    rfl
  rename_i hnone
  have hnone : q.bulklen = none := Option.not_isSome_iff_eq_none.1 hnone
  split
  · split
    · exact .inl ⟨hnone, .inr ⟨_, rfl⟩⟩
    · exact .inl ⟨hnone, .inl rfl⟩
  split
  · exact .inl ⟨hnone, .inl rfl⟩
  split
  · exact .inl ⟨hnone, .inr ⟨_, rfl⟩⟩
  split
  · exact .inl ⟨hnone, .inr ⟨_, rfl⟩⟩
  split
  · exact .inr ⟨_, _, 0, rfl, by omega⟩
  · exact .inr ⟨0, _, _, rfl, by omega⟩

/-- **A round of the loop**: a string more; or the end, for want of more, or with an error. -/
theorem bulkStep_cases (q : Query) (pos : Nat) :
    (q.multibulklen = 0 ∧ bulkStep (q, pos) = .inl (.ok (q.sdsrange pos))) ∨ q.multibulklen ≠ 0 ∧
        ((q.bulklen = none ∧ ∃ m, bulkStep (q, pos) = .inl (.protocolError (q.setProtocolError pos) m)) ∨
          (∃ k bulklen, bulkStep (q, pos) = .inl (.err { q.sdsrange k with bulklen := bulklen }) ∧
            ∀ b, bulklen = some b → q.querybuf.length - k < b + 2) ∨
          ∃ buf pos' arg, bulkStep (q, pos) = .inr ({ q.takeBulk arg with querybuf := buf }, pos') ∧
            buf.length - pos' + 2 ≤ q.querybuf.length - pos) := by
  rw [bulkStep]
  split
  · rename_i hdone
    exact .inl ⟨hdone, rfl⟩
  rename_i hmore
  refine .inr ⟨hmore, ?_⟩
  rcases readBulklen_cases q pos with ⟨hnone, hlen | ⟨m, hlen⟩⟩ | ⟨k, b, pos', hlen, hpos⟩
  · rw [hlen]
    exact .inr (.inl ⟨pos, q.bulklen, rfl, fun b hb => absurd (hnone.symm.trans hb) (Option.some_ne_none b).symm⟩)
  · rw [hlen]
    exact .inl ⟨hnone, m, rfl⟩
  · rw [hlen]
    simp only [Query.sdsrange, Option.getD_some, List.length_drop]
    split
    · rename_i hshort
      refine .inr (.inl ⟨k + pos', some b, ?_, fun b' hb' => ?_⟩)
      · rw [List.drop_drop]
      · cases hb'
        omega
    split
    · exact .inr (.inr ⟨[], 0, _, rfl, by rw [List.length_nil]; omega⟩)
    · refine .inr (.inr ⟨_, _, _, rfl, ?_⟩)
      rw [List.length_drop]
      omega

end Cases

/-! ## 3. What holds between two reads -/

/-- Nothing of a request has been taken off the buffer. -/
structure Query.Fresh (q : Query) : Prop where
  multibulklen : q.multibulklen = 0
  bulklen : q.bulklen = none
  argv : q.argv = []

/-- The strings of a request are being read, or nothing of it has been taken yet. -/
def Query.Sound (q : Query) : Prop :=
  (q.reqtype = some .multibulk ∧ q.multibulklen ≠ 0) ∨
    (q.Fresh ∧ (q.reqtype = some .multibulk → q.querybuf.head? = some 0x2A))

/-- What holds whenever the client is not being served. -/
structure Query.Rests (q : Query) : Prop where
  bulk : ∀ b, q.bulklen = some b → q.querybuf.length < b + 2
  sound : q.closeAfterReply = false → q.Sound
  closed : q.closeAfterReply = true → q.bulklen = none

/-- What a request leaves behind that was read from `n` bytes. -/
def Parsed.Fair (n : Nat) : Parsed → Prop
  | .ok q => q.multibulklen = 0 ∧ q.bulklen = none ∧ q.closeAfterReply = false ∧ q.querybuf.length < n
  | .err q => q.closeAfterReply = false ∧ q.Sound ∧ ∀ b, q.bulklen = some b → q.querybuf.length < b + 2
  | .protocolError q _ => q.closeAfterReply = true ∧ q.bulklen = none
  | .assertFailed => False

section Requests

variable {q : Query}

theorem Query.Fresh.sound (hq : q.Fresh) (h : q.reqtype = some .multibulk → q.querybuf.head? = some 0x2A) : q.Sound :=
  .inr ⟨hq, h⟩

theorem Query.Fresh.fair_err {n : Nat} (hq : q.Fresh) (hopen : q.closeAfterReply = false)
    (h : q.reqtype = some .multibulk → q.querybuf.head? = some 0x2A) : (Parsed.err q).Fair n :=
  ⟨hopen, hq.sound h, fun b hb => absurd (hq.bulklen.symm.trans hb) (Option.some_ne_none b).symm⟩

theorem processInlineBuffer_fair (hq : q.Fresh) (hopen : q.closeAfterReply = false)
    (htype : q.reqtype = some .inline) : (processInlineBuffer q).Fair q.querybuf.length := by
  rcases processInlineBuffer_cases q with h | ⟨m, h⟩ | ⟨k, argv, h, hk, hlen⟩
  · rw [h]
    exact hq.fair_err hopen fun hmb => by rw [htype] at hmb; cases hmb
  · rw [h]
    exact ⟨rfl, hq.bulklen⟩
  · rw [h]
    refine ⟨hq.multibulklen, hq.bulklen, hopen, ?_⟩
    simp only [Query.sdsrange, List.length_drop]
    omega

/-- The loop over the strings, from a buffer of which `n` bytes have not been read. -/
theorem bulks_fair {pos n : Nat} (hmore : q.multibulklen ≠ 0) (hopen : q.closeAfterReply = false)
    (htype : q.reqtype = some .multibulk) (hn : q.querybuf.length - pos ≤ n) :
    (loop bulkStep (fun _ => .assertFailed) (q.multibulklen + 1) (q, pos)).Fair n := by
  -- what is left to read has become less once a string has been read
  refine loop_rule (fun s => s.1.multibulklen)
    (fun s => s.1.closeAfterReply = false ∧ s.1.reqtype = some .multibulk ∧
      (s.1.multibulklen = 0 → s.1.bulklen = none ∧ s.1.querybuf.length - s.2 < n) ∧ s.1.querybuf.length - s.2 ≤ n)
    (Parsed.Fair n) ?_ ?_ ?_ _ (q, pos) (Nat.lt_succ_self _) ⟨hopen, htype, fun h0 => absurd h0 hmore, hn⟩
  · rintro ⟨q, pos⟩ s' hs
    rcases bulkStep_cases q pos with ⟨-, h⟩ | ⟨hmore, ⟨-, m, h⟩ | ⟨k, b, h, -⟩ | ⟨buf, pos', arg, h, -⟩⟩
    · rw [h] at hs
      cases hs
    · rw [h] at hs
      cases hs
    · rw [h] at hs
      cases hs
    · rw [h] at hs
      cases hs
      exact Nat.pred_lt hmore
  · rintro ⟨q, pos⟩ r ⟨hopen, htype, hdone, hn⟩ hs
    rcases bulkStep_cases q pos with ⟨h0, h⟩ | ⟨hmore, ⟨hnone, m, h⟩ | ⟨k, b, h, hshort⟩ | ⟨buf, pos', arg, h, -⟩⟩
    · rw [h] at hs
      cases hs
      refine ⟨h0, (hdone h0).1, hopen, ?_⟩
      simp only [Query.sdsrange, List.length_drop]
      exact (hdone h0).2
    · rw [h] at hs
      cases hs
      exact ⟨rfl, hnone⟩
    · rw [h] at hs
      cases hs
      refine ⟨hopen, .inl ⟨htype, hmore⟩, fun b' hb' => ?_⟩
      simp only [Query.sdsrange, List.length_drop]
      exact hshort b' hb'
    · rw [h] at hs
      cases hs
  · rintro ⟨q, pos⟩ s' ⟨hopen, htype, hdone, hn⟩ hs
    rcases bulkStep_cases q pos with ⟨-, h⟩ | ⟨hmore, ⟨-, m, h⟩ | ⟨k, b, h, -⟩ | ⟨buf, pos', arg, h, hless⟩⟩
    · rw [h] at hs
      cases hs
    · rw [h] at hs
      cases hs
    · rw [h] at hs
      cases hs
    · rw [h] at hs
      cases hs
      simp only at hn ⊢
      exact ⟨hopen, htype, fun _ => ⟨rfl, by omega⟩, by omega⟩

theorem processMultibulkBuffer_fair (hq : q.Sound) (hopen : q.closeAfterReply = false)
    (htype : q.reqtype = some .multibulk) : (processMultibulkBuffer q).Fair q.querybuf.length := by
  unfold processMultibulkBuffer
  by_cases h0 : q.multibulklen = 0
  · rw [if_pos h0]
    obtain ⟨hfresh, hhead⟩ : q.Fresh ∧ (q.reqtype = some .multibulk → q.querybuf.head? = some 0x2A) := by
      rcases hq with ⟨-, hmore⟩ | hq
      · exact absurd h0 hmore
      · exact hq
    rcases multibulkCount_cases q with ⟨-, hfail⟩ | h | ⟨m, h⟩ | ⟨k, hk, hlen, h | ⟨n, hn, -, h⟩⟩
    · exact absurd ⟨hfresh.argv, hhead htype⟩ hfail
    · rw [h]
      exact hfresh.fair_err hopen hhead
    · rw [h]
      exact ⟨rfl, hfresh.bulklen⟩
    · rw [h]
      refine ⟨h0, hfresh.bulklen, hopen, ?_⟩
      simp only [Query.sdsrange, List.length_drop]
      omega
    · rw [h]
      simp only
      rw [if_neg (Nat.pos_iff_ne_zero.1 hn)]
      exact bulks_fair (q := { q with multibulklen := n }) (Nat.pos_iff_ne_zero.1 hn) hopen htype (Nat.sub_le _ _)
  · rw [if_neg h0]
    simp only
    rw [if_neg h0]
    exact bulks_fair h0 hopen htype (Nat.sub_le _ _)

theorem Query.Sound.determineType (hq : q.Sound) : q.determineType.Sound := by
  unfold Query.determineType
  split
  · exact hq
  · rename_i hnone
    rcases hq with ⟨htype, -⟩ | ⟨hfresh, -⟩
    · rw [htype] at hnone
      exact absurd rfl hnone
    · refine .inr ⟨⟨hfresh.multibulklen, hfresh.bulklen, hfresh.argv⟩, fun htype => ?_⟩
      simp only at htype ⊢
      split at htype
      · rename_i hhead
        exact hhead
      · cases htype

theorem processRequest_fair (hq : q.Sound) (hopen : q.closeAfterReply = false) :
    (q.determineType.processRequest).Fair q.querybuf.length := by
  have hsound := hq.determineType
  have hbuf : q.determineType.querybuf = q.querybuf := by
    unfold Query.determineType
    split <;> rfl
  have hclose : q.determineType.closeAfterReply = false := by
    unfold Query.determineType
    split <;> exact hopen
  have hsome : q.determineType.reqtype = some .inline ∨ q.determineType.reqtype = some .multibulk := by
    unfold Query.determineType
    cases ht : q.reqtype with
    | none =>
      simp only [Option.isSome_none, Bool.false_eq_true, if_false]
      split
      · exact .inr rfl
      · exact .inl rfl
    | some t =>
      rw [Option.isSome_some, if_pos rfl, ht]
      cases t with
      | inline => exact .inl rfl
      | multibulk => exact .inr rfl
  rw [← hbuf, Query.processRequest]
  rcases hsome with ht | ht
  · rw [if_pos ht]
    rcases hsound with ⟨hmb, -⟩ | ⟨hfresh, -⟩
    · rw [ht] at hmb
      cases hmb
    · exact processInlineBuffer_fair hfresh hclose ht
  · rw [if_neg (by rw [ht]; exact fun h => by cases h)]
    exact processMultibulkBuffer_fair hsound hclose ht

end Requests

/-! ## 4. Every run -/

/-- What the client is served last. -/
def Action.isFinal : Action → Bool
  | .execute argv => isQuit argv
  | .error _ => true

/-- What a client was served: nothing final while it is open, and one last action once it is to be closed. -/
def ServedUpTo (closed : Bool) (actions : List Action) : Prop :=
  ∃ before last, actions = before ++ last ∧ (∀ a ∈ before, a.isFinal = false) ∧
    if closed then ∃ a, last = [a] ∧ a.isFinal = true else last = []

theorem ServedUpTo.more {actions : List Action} (h : ServedUpTo false actions) {a : Action} (ha : a.isFinal = false) :
    ServedUpTo false (actions ++ [a]) := by
  obtain ⟨before, last, rfl, hbefore, rfl⟩ := h
  refine ⟨before ++ [a], [], by simp, fun a' ha' => ?_, rfl⟩
  rcases List.mem_append.1 ha' with ha' | ha'
  · exact hbefore a' ha'
  · rw [List.mem_singleton.1 ha']
    exact ha

theorem ServedUpTo.last {actions : List Action} (h : ServedUpTo false actions) {a : Action} (ha : a.isFinal = true) :
    ServedUpTo true (actions ++ [a]) := by
  obtain ⟨before, last, rfl, hbefore, rfl⟩ := h
  exact ⟨before, [a], by simp, hbefore, a, rfl, ha⟩

/-- What holds while the client is served. -/
structure Query.Working (q : Query) : Prop where
  sound : q.closeAfterReply = false → q.Sound
  closed : q.closeAfterReply = true → q.bulklen = none

theorem Query.Working.rests {q : Query} (hq : q.Working) (hend : q.querybuf = [] ∨ q.closeAfterReply = true) :
    q.Rests := by
  refine ⟨fun b hb => ?_, hq.sound, hq.closed⟩
  rcases hend with h | h
  · rw [h, List.length_nil]
    omega
  · rw [hq.closed h] at hb
    cases hb

theorem Query.reset_working {q : Query} (hopen : q.closeAfterReply = false) : q.reset.Working :=
  ⟨fun _ => .inr ⟨⟨rfl, rfl, rfl⟩, fun h => by cases h⟩, fun h => absurd (hopen.symm.trans h) (by decide)⟩

/-- **A round of `processInputBuffer`**: it ends at rest, or goes on with less to read; what has been served is kept,
    with one action more at most. -/
theorem inputStep_cases {q : Query} {before actions : List Action} (hq : q.Working)
    (hserved : ServedUpTo q.closeAfterReply (before ++ actions)) :
    (∃ q' actions', inputStep (q, actions) = .inl (.done q' actions') ∧ q'.Rests ∧
        ServedUpTo q'.closeAfterReply (before ++ actions')) ∨
      ∃ q' actions', inputStep (q, actions) = .inr (q', actions') ∧ q'.Working ∧
        ServedUpTo q'.closeAfterReply (before ++ actions') ∧ q'.querybuf.length < q.querybuf.length := by
  rw [inputStep]
  split
  · rename_i hend
    exact .inl ⟨q, actions, rfl, hq.rests hend, hserved⟩
  rename_i hgo
  rw [not_or] at hgo
  have hopen : q.closeAfterReply = false := Bool.eq_false_iff.2 hgo.2
  have hfair := processRequest_fair (hq.sound hopen) hopen
  rw [hopen] at hserved
  cases hr : q.determineType.processRequest with
  | assertFailed =>
    rw [hr] at hfair
    exact hfair.elim
  | err q' =>
    rw [hr] at hfair
    obtain ⟨hopen', hsound, hbulk⟩ := hfair
    refine .inl ⟨q', actions, rfl, ⟨hbulk, fun _ => hsound, fun h => ?_⟩, ?_⟩
    · rw [hopen'] at h
      cases h
    · rw [hopen']
      exact hserved
  | protocolError q' m =>
    rw [hr] at hfair
    obtain ⟨hclose, hnone⟩ := hfair
    refine .inl ⟨q', _, rfl, ⟨fun b hb => ?_, fun h => ?_, fun _ => hnone⟩, ?_⟩
    · rw [hnone] at hb
      cases hb
    · rw [hclose] at h
      cases h
    · rw [hclose, ← List.append_assoc]
      exact hserved.last rfl
  | ok q' =>
    rw [hr] at hfair
    obtain ⟨-, hnone, hopen', hless⟩ := hfair
    simp only
    split
    · refine .inr ⟨_, _, rfl, Query.reset_working hopen', ?_, hless⟩
      rw [show q'.reset.closeAfterReply = false from hopen']
      exact hserved
    split
    · rename_i hquit
      refine .inr ⟨_, _, rfl, ⟨fun h => (by cases h), fun _ => hnone⟩, ?_, hless⟩
      rw [← List.append_assoc]
      exact hserved.last hquit
    · rename_i hquit
      refine .inr ⟨_, _, rfl, Query.reset_working hopen', ?_, hless⟩
      rw [show q'.reset.closeAfterReply = false from hopen', ← List.append_assoc]
      exact hserved.more (Bool.eq_false_iff.2 hquit)

/-- All rounds. -/
theorem input_served {n : Nat} {q : Query} {before actions : List Action} (hn : q.querybuf.length < n)
    (hq : q.Working) (hserved : ServedUpTo q.closeAfterReply (before ++ actions)) :
    ∃ q' actions', loop inputStep (fun _ => .assertFailed) n (q, actions) = .done q' actions' ∧ q'.Rests ∧
      ServedUpTo q'.closeAfterReply (before ++ actions') := by
  induction n generalizing q actions with
  | zero => exact absurd hn (Nat.not_lt_zero _)
  | succ n ih =>
    rcases inputStep_cases hq hserved with ⟨q', actions', hs, h⟩ | ⟨q', actions', hs, hq', hserved', hless⟩
    · rw [loop_stop n hs]
      exact ⟨q', actions', rfl, h⟩
    · rw [loop_more n hs]
      exact ih (by omega) hq' hserved'

theorem Query.Sound.append {q : Query} (hq : q.Sound) (data : Sds) :
    Query.Sound { q with querybuf := q.querybuf ++ data } := by
  rcases hq with h | ⟨hfresh, hhead⟩
  · exact .inl h
  · refine .inr ⟨⟨hfresh.multibulklen, hfresh.bulklen, hfresh.argv⟩, fun ht => ?_⟩
    simp only
    rw [List.head?_append_of_ne_nil, hhead ht]
    intro hnil
    have hstar := hhead ht
    rw [hnil] at hstar
    cases hstar

/-- **A read**: the client is freed, for the length of its buffer only, or served and at rest again. -/
theorem readQueryFromClient_cases {q : Query} {before : List Action} (hq : q.Rests)
    (hserved : ServedUpTo q.closeAfterReply before) (data : Sds) :
    readQueryFromClient q data = .freed ∨ ∃ q' actions, readQueryFromClient q data = .done q' actions ∧ q'.Rests ∧
        ServedUpTo q'.closeAfterReply (before ++ actions) := by
  unfold readQueryFromClient
  split
  · exact .inl rfl
  · refine .inr (input_served (Nat.lt_succ_self _) ⟨fun h => (hq.sound h).append data, hq.closed⟩ ?_)
    rw [List.append_nil]
    exact hserved

/-- A client, and what it was served since it connected. -/
structure Reader where
  query : Query
  served : List Action

/-- `read` gives some bytes; `none` when the client is freed, or the server has stopped. -/
def readerNext (s : Reader) (data : Sds) : Option Reader :=
  match readQueryFromClient s.query data with
  | .done q actions => some ⟨q, s.served ++ actions⟩
  | _ => none

/-- What `read` can give. -/
def CanRead (s : Reader) (data : Sds) : Prop := data ≠ [] ∧ (data.length : Int) ≤ s.query.readlen

def readerStart : Reader := ⟨.new, []⟩

theorem rests_of_reaches {s : Reader} (h : Reaches readerNext CanRead readerStart s) :
    s.query.Rests ∧ ServedUpTo s.query.closeAfterReply s.served := by
  refine h.invariant (fun s => s.query.Rests ∧ ServedUpTo s.query.closeAfterReply s.served) ?_ ?_
  · refine ⟨⟨fun b hb => (by cases hb), fun _ => .inr ⟨⟨rfl, rfl, rfl⟩, fun ht => (by cases ht)⟩, fun _ => rfl⟩, ?_⟩
    exact ⟨[], [], rfl, fun a ha => absurd ha List.not_mem_nil, rfl⟩
  · rintro s data s' ⟨hq, hserved⟩ - hs
    unfold readerNext at hs
    rcases readQueryFromClient_cases hq hserved data with hr | ⟨q', actions, hr, h⟩
    · rw [hr] at hs
      cases hs
    · rw [hr] at hs
      cases hs
      exact h

theorem readlen_le (q : Query) : q.readlen ≤ iobufLen := by
  unfold Query.readlen
  split
  · exact min_le_left _ _
  · exact le_refl _

theorem Query.Rests.readlen_pos {q : Query} (h : q.Rests) : 1 ≤ q.readlen := by
  unfold Query.readlen
  split
  · rename_i hbig
    obtain ⟨b, hb⟩ := Option.isSome_iff_exists.1 hbig.2.2.1
    have hless := h.bulk b hb
    rw [hb, Option.getD_some, iobufLen]
    omega
  · decide

/-- **Whatever a client sends, in whatever pieces**: no assertion fails, the next read asks for at least a byte and for
    no more than its buffer has, and what was executed ends with the first QUIT or protocol error. -/
theorem reads_safe {s : Reader} (h : Reaches readerNext CanRead readerStart s) :
    (∀ data, readQueryFromClient s.query data ≠ .assertFailed) ∧ 1 ≤ s.query.readlen ∧ s.query.readlen ≤ iobufLen ∧
      ServedUpTo s.query.closeAfterReply s.served := by
  obtain ⟨hq, hserved⟩ := rests_of_reaches h
  refine ⟨fun data hr => ?_, hq.readlen_pos, readlen_le s.query, hserved⟩
  rcases readQueryFromClient_cases hq hserved data with hf | ⟨q', actions, hd, -⟩
  · rw [hr] at hf
    cases hf
  · rw [hr] at hd
    cases hd

/-- What stands behind QUIT is not executed. -/
theorem reads_safe_quit : ∃ s, readerNext readerStart (chars "quit\r\nchat\r\n") = some s ∧
    s.served = [.execute [chars "quit"]] ∧ ServedUpTo s.query.closeAfterReply s.served := by
  have hs : readerNext readerStart (chars "quit\r\nchat\r\n") =
      some ⟨⟨chars "chat\r\n", some .inline, 0, none, [chars "quit"], true⟩, [.execute [chars "quit"]]⟩ := by
    rfl
  exact ⟨_, hs, rfl, (reads_safe (.step _ .start ⟨by decide, by decide⟩ hs)).2.2.2⟩

end SmartHome.Redis
