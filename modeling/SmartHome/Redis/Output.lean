/-
  Subject:   WRITING REPLIES TO A CLIENT (networking.c).

  A reply goes into a buffer of the client, or, when that is full or something waits behind it, into a list of
  strings that grow up to the size of the buffer. Whenever the socket takes bytes, some of them are written:
  `write` may take fewer than it is given, or none, or fail; one event writes little more than 64 KB. A client
  that is to be closed after the reply gets nothing more, and is freed when all is written.

  * `addReplyToBuffer`, `addReplyToList`, `addReplyString`, `sendReplyToClient` -- the source; `addReply` and
    `addReplySds` do the same to the bytes;
  * `Output.pending` -- what is still to be written; `addReplyString_spec`, `writeRound_fair`;
  * **`replies_delivered`** -- in every run what was written and what is pending is what was added, in its order and
    without gaps, and whatever is pending will be written; `drained` -- some of it with each event.
-/
import SmartHome.Redis.Sds

namespace SmartHome.Redis

open SmartHome.Lib

/-! ## 1. The source -/

/-- `REDIS_REPLY_CHUNK_BYTES`: the size of `buf`. -/
def replyChunkBytes : Nat := 16384

/-- `REDIS_MAX_WRITE_PER_EVENT`. -/
def maxWritePerEvent : Nat := 65536

/-- The fields of `redisClient` that writing uses: what of `buf` is used, the list, how much of the first of them was
    sent, and whether the event loop waits for the socket to take bytes. -/
structure Output where
  buf : Sds
  reply : List Sds
  sentlen : Nat
  closeAfterReply : Bool
  writable : Bool

namespace Output

/-- `createClient`. -/
def new : Output := ⟨[], [], 0, false, false⟩

/-- `prepareClientToWrite`, of a client with a socket. -/
def prepareClientToWrite (o : Output) : Output :=
  if o.buf = [] ∧ o.reply = [] then { o with writable := true } else o

/-- `_addReplyToBuffer`; `none` is `REDIS_ERR`. -/
def addReplyToBuffer (o : Output) (s : Sds) : Option Output :=
  if o.closeAfterReply then some o
  else if o.reply ≠ [] then none
  else if s.length > replyChunkBytes - o.buf.length then none
  else some { o with buf := o.buf ++ s }

/-- `_addReplyObjectToList`, `_addReplySdsToList` and `_addReplyStringToList`. -/
def addReplyToList (o : Output) (s : Sds) : Output :=
  if o.closeAfterReply then o
  else
    match o.reply.getLast? with
    | none => { o with reply := [s] }
    | some tail =>
      if tail.length + s.length ≤ replyChunkBytes then { o with reply := o.reply.dropLast ++ [tail ++ s] }
      else { o with reply := o.reply ++ [s] }

/-- `addReplyString`; `addReply` and `addReplySds` add the bytes of an object or of an sds. -/
def addReplyString (o : Output) (s : Sds) : Output :=
  match o.prepareClientToWrite.addReplyToBuffer s with
  | some o => o
  | none => o.prepareClientToWrite.addReplyToList s

/-- What is still to be written. -/
def pending (o : Output) : Sds := (o.buf ++ o.reply.flatten).drop o.sentlen

end Output

/-- What `write` does: it takes some bytes, no more than it is given; or there is no room; or the connection is
    broken. -/
inductive WriteResult where
  | accepted (n : Nat)
  | again
  | broken

/-- The loop of `sendReplyToClient`: the client, `totwritten`, and what the next calls of `write` will do. -/
structure Sending where
  out : Output
  totwritten : Nat
  sent : Sds
  results : List WriteResult

/-- How the loop ends. -/
structure Sent where
  out : Output
  sent : Sds
  failed : Bool

/-- A call of `write` with the rest of `s`, the first string; `done` takes it off when all of it is sent. -/
def writeCall (w : Sending) (s : Sds) (done : Output) : Sent ⊕ Sending :=
  match w.results with
  | .accepted n :: results =>
    let nwritten := min n (s.length - w.out.sentlen)
    if nwritten = 0 then .inl ⟨w.out, w.sent, false⟩
    else
      let out :=
        if w.out.sentlen + nwritten = s.length then done else { w.out with sentlen := w.out.sentlen + nwritten }
      let sent := w.sent ++ (s.drop w.out.sentlen).take nwritten
      if w.totwritten + nwritten > maxWritePerEvent then .inl ⟨out, sent, false⟩
      else .inr ⟨out, w.totwritten + nwritten, sent, results⟩
  | .broken :: _ => .inl ⟨w.out, w.sent, true⟩
  | _ => .inl ⟨w.out, w.sent, false⟩

/-- A round of the loop. -/
def writeRound (w : Sending) : Sent ⊕ Sending :=
  if w.out.buf ≠ [] then writeCall w w.out.buf { w.out with buf := [], sentlen := 0 }
  else
    match w.out.reply with
    | [] => .inl ⟨w.out, w.sent, false⟩
    | [] :: rest => .inr { w with out := { w.out with reply := rest } }
    | s :: rest => writeCall w s { w.out with reply := rest, sentlen := 0 }

/-- Behind the loop: the client, if it is not freed, what was written, and whether writing failed. -/
def Sent.finish (r : Sent) : Option Output × Sds × Bool :=
  if r.failed then (none, r.sent, true)
  else if r.out.buf = [] ∧ r.out.reply = [] then
    if r.out.closeAfterReply then (none, r.sent, false)
    else (some { r.out with sentlen := 0, writable := false }, r.sent, false)
  else (some r.out, r.sent, false)

/-- `sendReplyToClient`. -/
def sendReplyToClient (o : Output) (results : List WriteResult) : Option Output × Sds × Bool :=
  (loop writeRound (fun w => ⟨w.out, w.sent, false⟩) (results.length + o.reply.length + 1) ⟨o, 0, [], results⟩).finish

/-! ## 2. Adding -/

/-- The first string has not been sent as a whole. -/
def Output.Within (o : Output) : Prop :=
  if o.buf ≠ [] then o.sentlen < o.buf.length
  else
    match o.reply with
    | [] => o.sentlen = 0
    | s :: _ => o.sentlen = 0 ∨ o.sentlen < s.length

namespace Output

variable {o : Output}

theorem Within.le (h : o.Within) : o.sentlen ≤ (o.buf ++ o.reply.flatten).length := by
  rw [List.length_append]
  unfold Within at h
  split at h
  · omega
  · split at h
    · omega
    · rename_i s rest hreply
      rw [hreply, List.flatten_cons, List.length_append]
      omega

theorem pending_empty (h : o.buf = [] ∧ o.reply = []) : o.pending = [] := by
  simp [pending, h.1, h.2]

theorem within_head (hbuf : o.buf = []) {s : Sds} {rest : List Sds} (hreply : o.reply = s :: rest) :
    o.Within ↔ o.sentlen = 0 ∨ o.sentlen < s.length := by
  unfold Within
  rw [if_neg (not_not.2 hbuf), hreply]

theorem within_zero (hbuf : o.buf = []) (hzero : o.sentlen = 0) : o.Within := by
  unfold Within
  rw [if_neg (not_not.2 hbuf)]
  split
  · exact hzero
  · exact .inl hzero

theorem pending_append (h : o.Within) (s : Sds) : (o.buf ++ o.reply.flatten ++ s).drop o.sentlen = o.pending ++ s := by
  rw [List.drop_append_of_le_length h.le]
  rfl

theorem prepareClientToWrite_eq (o : Output) :
    ∃ w, o.prepareClientToWrite = { o with writable := w } ∧ (o.writable = true → w = true) ∧
      (o.buf = [] ∧ o.reply = [] → w = true) := by
  unfold prepareClientToWrite
  split
  · exact ⟨true, rfl, fun _ => rfl, fun _ => rfl⟩
  · rename_i hne
    exact ⟨o.writable, rfl, id, fun h => absurd h hne⟩

/-- A string more on the list, or more on the last one. -/
theorem addReplyToList_flatten (hopen : o.closeAfterReply = false) (s : Sds) :
    (o.addReplyToList s).reply.flatten = o.reply.flatten ++ s := by
  unfold addReplyToList
  rw [hopen, if_neg (by decide)]
  split
  · rename_i hnone
    rw [List.getLast?_eq_none_iff.1 hnone]
    simp
  · rename_i tail htail
    have hsplit := List.dropLast_append_getLast? tail htail
    split
    · nth_rewrite 2 [← hsplit]
      simp
    · simp

/-- Only the list is changed, and its first string is not shorter than before. -/
theorem addReplyToList_eq (o : Output) (s : Sds) :
    ∃ reply, o.addReplyToList s = { o with reply := reply } ∧
      ∀ h t, o.reply = h :: t → ∃ h' t', reply = h' :: t' ∧ h.length ≤ h'.length := by
  unfold addReplyToList
  split
  · exact ⟨o.reply, rfl, fun h t heq => ⟨h, t, heq, Nat.le_refl _⟩⟩
  split
  · rename_i hnone
    refine ⟨[s], rfl, fun h t heq => ?_⟩
    rw [heq] at hnone
    simp at hnone
  rename_i tail htail
  split
  · refine ⟨_, rfl, fun h t heq => ?_⟩
    rw [heq] at htail ⊢
    cases t with
    | nil =>
      obtain rfl : h = tail := by simpa using htail
      exact ⟨h ++ s, [], rfl, by rw [List.length_append]; omega⟩
    | cons h₂ t => exact ⟨h, _, rfl, Nat.le_refl _⟩
  · refine ⟨_, rfl, fun h t heq => ?_⟩
    rw [heq]
    exact ⟨h, t ++ [s], rfl, Nat.le_refl _⟩

theorem addReplyToList_spec (hin : o.Within) (hopen : o.closeAfterReply = false) (s : Sds) :
    (o.addReplyToList s).pending = o.pending ++ s ∧ (o.addReplyToList s).Within := by
  have hflat := addReplyToList_flatten hopen s
  obtain ⟨reply, hadd, hhead⟩ := addReplyToList_eq o s
  rw [hadd] at hflat ⊢
  constructor
  · rw [← pending_append hin, List.append_assoc, ← hflat]
    rfl
  · unfold Within at hin ⊢
    simp only
    split
    · rename_i hbuf
      rw [if_pos hbuf] at hin
      exact hin
    · rename_i hbuf
      rw [if_neg hbuf] at hin
      cases hreply : o.reply with
      | nil =>
        rw [hreply] at hin
        split
        · exact hin
        · exact .inl hin
      | cons h t =>
        rw [hreply] at hin
        obtain ⟨h', t', rfl, hle⟩ := hhead h t hreply
        simp only at hin ⊢
        omega

theorem append_buf_spec (hin : o.Within) (hreply : o.reply = []) (s : Sds) :
    Output.pending { o with buf := o.buf ++ s } = o.pending ++ s ∧ Output.Within { o with buf := o.buf ++ s } := by
  constructor
  · rw [← pending_append hin, hreply, List.flatten_nil, List.append_nil]
    simp [pending]
  · unfold Within at hin ⊢
    rw [hreply] at hin
    simp only [hreply, List.length_append] at hin ⊢
    split at hin
    · rename_i hbuf
      rw [if_pos (fun h => hbuf (List.append_eq_nil_iff.1 h).1)]
      omega
    · split
      · rename_i hne
        have := List.length_pos_iff.2 hne
        rw [List.length_append] at this
        omega
      · exact hin

theorem addReplyToBuffer_cases (o : Output) (s : Sds) :
    (o.closeAfterReply = true ∧ o.addReplyToBuffer s = some o) ∨ o.closeAfterReply = false ∧
        ((o.reply = [] ∧ o.addReplyToBuffer s = some { o with buf := o.buf ++ s }) ∨ o.addReplyToBuffer s = none) := by
  unfold addReplyToBuffer
  split
  · rename_i hclose
    exact .inl ⟨hclose, rfl⟩
  rename_i hclose
  refine .inr ⟨Bool.eq_false_iff.2 hclose, ?_⟩
  split
  · exact .inr rfl
  rename_i hreply
  split
  · exact .inr rfl
  · exact .inl ⟨not_not.1 hreply, rfl⟩

/-- Whatever is there, the event loop waits for the socket. -/
def Scheduled (o : Output) : Prop := o.buf ≠ [] ∨ o.reply ≠ [] → o.writable = true

/-- **A reply is added**: it is behind all that is pending, unless the client is to be closed. -/
theorem addReplyString_spec (hin : o.Within) (hsch : o.Scheduled) (s : Sds) :
    (o.addReplyString s).pending = o.pending ++ (if o.closeAfterReply then [] else s) ∧
      (o.addReplyString s).Within ∧ (o.addReplyString s).writable = true ∧
      (o.addReplyString s).closeAfterReply = o.closeAfterReply := by
  obtain ⟨w, hprep, hkeep, hempty⟩ := prepareClientToWrite_eq o
  have hw : w = true := by
    by_cases h : o.buf = [] ∧ o.reply = []
    · exact hempty h
    · exact hkeep (hsch (not_and_or.1 h))
  subst hw
  have hin' : Output.Within { o with writable := true } := hin
  unfold addReplyString
  rw [hprep]
  rcases addReplyToBuffer_cases { o with writable := true } s with ⟨hclose, h⟩ | ⟨hopen, ⟨hreply, h⟩ | h⟩
  · rw [h, if_pos hclose, List.append_nil]
    exact ⟨rfl, hin', rfl, rfl⟩
  · have hspec := append_buf_spec hin' hreply s
    rw [h, if_neg (by rw [hopen]; decide)]
    exact ⟨hspec.1, hspec.2, rfl, rfl⟩
  · have hspec := addReplyToList_spec hin' hopen s
    obtain ⟨reply, hadd, -⟩ := addReplyToList_eq { o with writable := true } s
    rw [h, if_neg (by rw [hopen]; decide)]
    refine ⟨hspec.1, hspec.2, ?_, ?_⟩
    · rw [hadd]
    · rw [hadd]

end Output

/-! ## 3. Writing -/

/-- What writing keeps: the bytes, and the rest of the client. -/
structure Sending.Keeps (w : Sending) (out : Output) (sent : Sds) : Prop where
  bytes : sent ++ out.pending = w.sent ++ w.out.pending
  within : out.Within
  more : w.sent <+: sent
  close : out.closeAfterReply = w.out.closeAfterReply
  writable : out.writable = w.out.writable

/-- The outcome of a round. -/
def Sending.Fair (w : Sending) : Sent ⊕ Sending → Prop
  | .inl r => w.Keeps r.out r.sent
  | .inr w' => w.Keeps w'.out w'.sent ∧
      w'.results.length + w'.out.reply.length < w.results.length + w.out.reply.length

section Write

variable {w : Sending} {s : Sds} {done : Output}

theorem Sending.Keeps.refl (h : w.out.Within) : w.Keeps w.out w.sent :=
  ⟨rfl, h, List.prefix_refl _, rfl, rfl⟩

/-- **A call of `write`** with the first string. -/
theorem writeCall_fair (hin : w.out.Within) (hlt : w.out.sentlen < s.length)
    (hpart : ∀ k, k < s.length → Output.Within { w.out with sentlen := k } ∧
      Output.pending { w.out with sentlen := k } = s.drop k ++ done.pending)
    (hdone : done.Within) (hclose : done.closeAfterReply = w.out.closeAfterReply)
    (hwritable : done.writable = w.out.writable) (hreply : done.reply.length ≤ w.out.reply.length) :
    w.Fair (writeCall w s done) := by
  have hpend : w.out.pending = s.drop w.out.sentlen ++ done.pending := (hpart _ hlt).2
  unfold writeCall
  split
  · rename_i n results hresults
    simp only
    split
    · exact Sending.Keeps.refl hin
    rename_i hsome
    -- what was written is the beginning of what was pending
    have hkeeps : w.Keeps
        (if w.out.sentlen + min n (s.length - w.out.sentlen) = s.length then done
          else { w.out with sentlen := w.out.sentlen + min n (s.length - w.out.sentlen) })
        (w.sent ++ (s.drop w.out.sentlen).take (min n (s.length - w.out.sentlen))) := by
      split
      · rename_i hall
        refine ⟨?_, hdone, List.prefix_append _ _, hclose, hwritable⟩
        rw [hpend, List.take_of_length_le (by rw [List.length_drop]; omega), List.append_assoc]
      · rename_i hrest
        obtain ⟨hin', hpend'⟩ := hpart (w.out.sentlen + min n (s.length - w.out.sentlen)) (by omega)
        refine ⟨?_, hin', List.prefix_append _ _, rfl, rfl⟩
        rw [hpend', hpend, List.append_assoc, ← List.append_assoc (List.take _ _), ← List.drop_drop,
          List.take_append_drop]
    split
    · exact hkeeps
    · refine ⟨hkeeps, ?_⟩
      simp only
      rw [hresults, List.length_cons]
      split
      · omega
      · simp only
        omega
  · exact Sending.Keeps.refl hin
  · exact Sending.Keeps.refl hin

/-- **A round.** -/
theorem writeRound_fair (hin : w.out.Within) : w.Fair (writeRound w) := by
  unfold writeRound
  split
  · rename_i hbuf
    have hlt : w.out.sentlen < w.out.buf.length := by
      unfold Output.Within at hin
      rw [if_pos hbuf] at hin
      exact hin
    refine writeCall_fair hin hlt (fun k hk => ⟨?_, ?_⟩) ?_ rfl rfl (Nat.le_refl _)
    · unfold Output.Within
      rw [if_pos hbuf]
      exact hk
    · exact List.drop_append_of_le_length (Nat.le_of_lt hk)
    · exact Output.within_zero rfl rfl
  rename_i hbuf
  have hbuf : w.out.buf = [] := not_not.1 hbuf
  split
  · exact Sending.Keeps.refl hin
  · rename_i rest hreply
    have hsent : w.out.sentlen = 0 := by
      have := (Output.within_head hbuf hreply).1 hin
      rw [List.length_nil] at this
      omega
    refine ⟨⟨?_, Output.within_zero hbuf hsent, List.prefix_refl _, rfl, rfl⟩, ?_⟩
    · simp [Output.pending, hreply]
    · simp only
      rw [hreply, List.length_cons]
      omega
  · rename_i s rest hne hreply
    have hne : s ≠ [] := fun h => hne h
    have hlt : w.out.sentlen < s.length := by
      have := (Output.within_head hbuf hreply).1 hin
      have := List.length_pos_iff.2 hne
      omega
    refine writeCall_fair hin hlt (fun k hk => ⟨?_, ?_⟩) (Output.within_zero hbuf rfl) rfl rfl ?_
    · exact (Output.within_head (o := { w.out with sentlen := k }) hbuf hreply).2 (.inr hk)
    · simp only [Output.pending, hbuf, hreply, List.nil_append, List.flatten_cons, List.drop_zero]
      exact List.drop_append_of_le_length (Nat.le_of_lt hk)
    · simp only
      rw [hreply, List.length_cons]
      omega

theorem Sending.Keeps.trans {w' : Sending} (h : w.Keeps w'.out w'.sent) {out : Output} {sent : Sds}
    (h' : w'.Keeps out sent) : w.Keeps out sent :=
  ⟨h'.bytes.trans h.bytes, h'.within, h.more.trans h'.more, h'.close.trans h.close, h'.writable.trans h.writable⟩

/-- **The loop.** -/
theorem write_keeps {n : Nat} (hn : w.results.length + w.out.reply.length < n) (hin : w.out.Within) :
    w.Keeps (loop writeRound (fun w => ⟨w.out, w.sent, false⟩) n w).out
      (loop writeRound (fun w => ⟨w.out, w.sent, false⟩) n w).sent := by
  induction n generalizing w with
  | zero => exact absurd hn (Nat.not_lt_zero _)
  | succ n ih =>
    have hfair := writeRound_fair hin
    cases hr : writeRound w with
    | inl r =>
      rw [hr] at hfair
      rw [loop_stop n hr]
      exact hfair
    | inr w' =>
      rw [hr] at hfair
      obtain ⟨hkeeps, hless⟩ := hfair
      rw [loop_more n hr]
      exact hkeeps.trans (ih (by omega) hkeeps.within)

/-- A socket that takes something gets something. -/
theorem writeCall_some {k : Nat} {results : List WriteResult} (hres : w.results = .accepted (k + 1) :: results)
    (hlt : w.out.sentlen < s.length) :
    (∃ r, writeCall w s done = .inl r ∧ w.sent.length < r.sent.length) ∨
      ∃ w', writeCall w s done = .inr w' ∧ w.sent.length < w'.sent.length := by
  have hlen : w.sent.length <
      (w.sent ++ (s.drop w.out.sentlen).take (min (k + 1) (s.length - w.out.sentlen))).length := by
    rw [List.length_append, List.length_take, List.length_drop]
    omega
  unfold writeCall
  rw [hres]
  simp only
  rw [if_neg (by omega)]
  split
  · exact .inl ⟨_, rfl, hlen⟩
  · exact .inr ⟨_, rfl, hlen⟩

theorem write_some {k n : Nat} {results : List WriteResult} (hn : w.results.length + w.out.reply.length < n)
    (hin : w.out.Within) (hres : w.results = .accepted (k + 1) :: results) (hpend : w.out.pending ≠ []) :
    w.sent.length < (loop writeRound (fun w => ⟨w.out, w.sent, false⟩) n w).sent.length := by
  induction n generalizing w with
  | zero => exact absurd hn (Nat.not_lt_zero _)
  | succ n ih =>
    have hfair := writeRound_fair hin
    -- a string that is not empty is written to, an empty one is taken off
    have hround : ((∃ r, writeRound w = .inl r ∧ w.sent.length < r.sent.length) ∨
          ∃ w', writeRound w = .inr w' ∧ w.sent.length < w'.sent.length) ∨
        ∃ w', writeRound w = .inr w' ∧ w'.sent = w.sent ∧ w'.results = w.results := by
      unfold writeRound
      split
      · rename_i hbuf
        refine .inl (writeCall_some hres ?_)
        unfold Output.Within at hin
        rw [if_pos hbuf] at hin
        exact hin
      rename_i hbuf
      have hbuf : w.out.buf = [] := not_not.1 hbuf
      split
      · rename_i hreply
        exact absurd (Output.pending_empty ⟨hbuf, hreply⟩) hpend
      · exact .inr ⟨_, rfl, rfl, rfl⟩
      · rename_i s rest hne hreply
        have := (Output.within_head hbuf hreply).1 hin
        have := List.length_pos_iff.2 (fun h => hne h : s ≠ [])
        exact .inl (writeCall_some hres (by omega))
    rcases hround with (⟨r, hr, hsent⟩ | ⟨w', hr, hsent⟩) | ⟨w', hr, hsent, hres'⟩
    · rw [loop_stop n hr]
      exact hsent
    · rw [hr] at hfair
      rw [loop_more n hr]
      have := hfair.2
      exact Nat.lt_of_lt_of_le hsent (write_keeps (by omega) hfair.1.within).more.length_le
    · rw [hr] at hfair
      obtain ⟨hkeeps, hless⟩ := hfair
      have hbytes := hkeeps.bytes
      rw [hsent, List.append_cancel_left_eq] at hbytes
      rw [loop_more n hr, ← hsent]
      exact ih (by omega) hkeeps.within (hres'.trans hres) (by rw [hbytes]; exact hpend)

end Write

/-- **`sendReplyToClient`**: what is written is the beginning of what was pending; a client that is freed without a
    failure was to be closed, and all was written. -/
theorem sendReplyToClient_spec {o : Output} (hin : o.Within) (hwritable : o.writable = true)
    (results : List WriteResult) :
    (∃ o' sent, sendReplyToClient o results = (some o', sent, false) ∧ sent ++ o'.pending = o.pending ∧ o'.Within ∧
        o'.Scheduled ∧ o'.closeAfterReply = o.closeAfterReply ∧ (o'.closeAfterReply = true → o'.writable = true)) ∨
      ∃ sent failed, sendReplyToClient o results = (none, sent, failed) ∧ sent <+: o.pending ∧
        (failed = false → sent = o.pending) := by
  have hkeeps := write_keeps (w := ⟨o, 0, [], results⟩) (Nat.lt_succ_self _) hin
  unfold sendReplyToClient
  revert hkeeps
  generalize loop writeRound _ _ _ = r
  intro hkeeps
  have hbytes : r.sent ++ r.out.pending = o.pending := hkeeps.bytes
  unfold Sent.finish
  split
  · exact .inr ⟨r.sent, true, rfl, ⟨_, hbytes⟩, fun h => by cases h⟩
  split
  · rename_i hempty
    rw [Output.pending_empty hempty, List.append_nil] at hbytes
    split
    · exact .inr ⟨r.sent, false, rfl, by rw [hbytes], fun _ => hbytes⟩
    · rename_i hopen
      refine .inl ⟨_, r.sent, rfl, ?_, Output.within_zero hempty.1 rfl, ?_, hkeeps.close, fun h => absurd h hopen⟩
      · rw [Output.pending_empty (o := { r.out with sentlen := 0, writable := false }) hempty, List.append_nil]
        exact hbytes
      · rintro (h | h)
        · exact absurd hempty.1 h
        · exact absurd hempty.2 h
  · exact .inl ⟨r.out, r.sent, rfl, hbytes, hkeeps.within, fun _ => hkeeps.writable.trans hwritable, hkeeps.close,
      fun _ => hkeeps.writable.trans hwritable⟩

theorem Sent.finish_sent (r : Sent) : r.finish.2.1 = r.sent := by
  unfold Sent.finish
  split
  · rfl
  split
  · split
    · rfl
    · rfl
  · rfl

/-- **Each event on which the socket takes something brings the end nearer.** -/
theorem drained {o : Output} (hin : o.Within) (hpend : o.pending ≠ []) (k : Nat) (results : List WriteResult) :
    (sendReplyToClient o (.accepted (k + 1) :: results)).2.1 ≠ [] := by
  have hsome := write_some (w := ⟨o, 0, [], .accepted (k + 1) :: results⟩) (Nat.lt_succ_self _) hin rfl hpend
  rw [sendReplyToClient, Sent.finish_sent]
  exact List.length_pos_iff.1 (Nat.lt_of_le_of_lt (Nat.zero_le _) hsome)

/-! ## 4. Every run -/

/-- What can happen on a connection: a reply is added; a last one, and the client is to be closed; the socket takes
    bytes. -/
inductive OutputEvent where
  | reply (s : Sds)
  | last (s : Sds)
  | socket (results : List WriteResult)

/-- A connection: the client, unless it was freed; whether writing failed; the bytes written; and the replies that were
    added. -/
structure Connection where
  out : Option Output
  failed : Bool
  wire : Sds
  accepted : Sds

def connectionStart : Connection := ⟨some .new, false, [], []⟩

/-- One event. A client that is to be closed is told so once. -/
def outputNext (c : Connection) : OutputEvent → Option Connection
  | .reply s => c.out.map fun o =>
    { c with out := some (o.addReplyString s), accepted := c.accepted ++ if o.closeAfterReply then [] else s }
  | .last s => c.out.bind fun o =>
    if o.closeAfterReply then none
    else some { c with
      out := some { o.addReplyString s with closeAfterReply := true }, accepted := c.accepted ++ s }
  | .socket results => c.out.bind fun o =>
    if o.writable then
      let r := sendReplyToClient o results
      some { c with out := r.1, wire := c.wire ++ r.2.1, failed := r.2.2 }
    else none

/-- What holds of a connection. -/
def Connection.Good (c : Connection) : Prop :=
  match c.out with
  | some o => c.wire ++ o.pending = c.accepted ∧ o.Within ∧ o.Scheduled ∧ (o.closeAfterReply = true → o.writable = true)
  | none => c.wire <+: c.accepted ∧ (c.failed = false → c.wire = c.accepted)

theorem good_next {c c' : Connection} (hc : c.Good) (e : OutputEvent) (hnext : outputNext c e = some c') : c'.Good := by
  unfold Connection.Good at hc
  cases e with
  | reply s =>
    obtain ⟨o, ho, rfl⟩ := Option.map_eq_some_iff.1 hnext
    rw [ho] at hc
    obtain ⟨hbytes, hin, hsch, -⟩ := hc
    obtain ⟨hpend, hin', hwritable, -⟩ := Output.addReplyString_spec hin hsch s
    refine ⟨?_, hin', fun _ => hwritable, fun _ => hwritable⟩
    rw [hpend, ← List.append_assoc, hbytes]
  | last s =>
    obtain ⟨o, ho, hlast⟩ := Option.bind_eq_some_iff.1 hnext
    rw [ho] at hc
    obtain ⟨hbytes, hin, hsch, -⟩ := hc
    obtain ⟨hpend, hin', hwritable, -⟩ := Output.addReplyString_spec hin hsch s
    split at hlast
    · cases hlast
    rename_i hopen
    cases hlast
    rw [if_neg hopen] at hpend
    refine ⟨?_, hin', fun _ => hwritable, fun _ => hwritable⟩
    rw [← hbytes, List.append_assoc]
    exact congrArg (c.wire ++ ·) hpend
  | socket results =>
    obtain ⟨o, ho, hsend⟩ := Option.bind_eq_some_iff.1 hnext
    rw [ho] at hc
    obtain ⟨hbytes, hin, -, -⟩ := hc
    split at hsend
    · rename_i hwritable
      rcases sendReplyToClient_spec hin hwritable results with
        ⟨o', sent, hs, hsent, hin', hsch', -, hclose⟩ | ⟨sent, failed, hs, hsent, hall⟩
      · rw [hs] at hsend
        cases hsend
        refine ⟨?_, hin', hsch', hclose⟩
        rw [List.append_assoc, hsent, hbytes]
      · rw [hs] at hsend
        cases hsend
        refine ⟨?_, fun hf => ?_⟩
        · rw [← hbytes]
          exact (List.prefix_append_right_inj c.wire).2 hsent
        · rw [← hbytes, ← hall hf]
    · cases hsend

/-- **Replies are delivered**: in every run, what was written and what is pending together are the replies that were
    added, whole and in their order; while anything is pending, or the client is to be closed, the event loop waits for
    the socket, and writes some of it when the socket takes something; and a client that was freed without a failure got
    all of them. -/
theorem replies_delivered {c : Connection} (h : Reaches outputNext (fun _ _ => True) connectionStart c) :
    (∀ o, c.out = some o → c.wire ++ o.pending = c.accepted ∧
        (o.pending ≠ [] ∨ o.closeAfterReply = true → o.writable = true) ∧
        (o.pending ≠ [] → ∀ k results, (sendReplyToClient o (.accepted (k + 1) :: results)).2.1 ≠ [])) ∧
      (c.out = none → c.wire <+: c.accepted ∧ (c.failed = false → c.wire = c.accepted)) := by
  have hgood : c.Good := by
    refine h.invariant Connection.Good ?_ fun c e c' hc _ hnext => good_next hc e hnext
    exact ⟨rfl, Output.within_zero rfl rfl, fun hor => (by simp [Output.new] at hor), fun hc => (by cases hc)⟩
  unfold Connection.Good at hgood
  constructor
  · intro o ho
    rw [ho] at hgood
    obtain ⟨hbytes, hin, hsch, hclose⟩ := hgood
    refine ⟨hbytes, fun hor => ?_, fun hpend k results => drained hin hpend k results⟩
    rcases hor with hpend | hc
    · refine hsch (not_and_or.1 fun hempty => hpend (Output.pending_empty hempty))
    · exact hclose hc
  · intro hnone
    rw [hnone] at hgood
    exact hgood

/-- A reply, a write that takes two of its bytes, one more reply and the last one, and a socket that takes it all. -/
theorem replies_delivered_quit : ∃ c, runEvents outputNext connectionStart [.reply (chars "+PONG\r\n"),
      .socket [.accepted 2], .reply [], .last (chars "+OK\r\n"), .reply (chars "late"),
      .socket [.accepted 3, .again], .socket [.accepted 100]] = some c ∧
    c.out = none ∧ c.wire = chars "+PONG\r\n+OK\r\n" := by
  obtain ⟨c, hc⟩ := Option.isSome_iff_exists.1 (by rfl : (runEvents outputNext connectionStart
    [.reply (chars "+PONG\r\n"), .socket [.accepted 2], .reply [], .last (chars "+OK\r\n"), .reply (chars "late"),
      .socket [.accepted 3, .again], .socket [.accepted 100]]).isSome = true)
  have hrun : Reaches outputNext (fun _ _ => True) connectionStart c :=
    Reaches.start.runEvents (fun _ _ _ => trivial) hc
  have hfreed : c.out = none ∧ c.failed = false ∧ c.accepted = chars "+PONG\r\n+OK\r\n" := by
    cases hc
    exact ⟨rfl, rfl, rfl⟩
  refine ⟨c, hc, hfreed.1, ?_⟩
  rw [((replies_delivered hrun).2 hfreed.1).2 hfreed.2.1, hfreed.2.2]

end SmartHome.Redis
