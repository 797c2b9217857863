/-
  Subject:   REQUESTS COME THROUGH (networking.c, aof.c): whatever a client sends, in whatever pieces it arrives.

  A request is a list of strings as `catAppendOnlyGenericCommand` writes it, or a line that ends with CR and LF. A
  client sends one after another without waiting; each read gives some of the bytes that are there, as few as one
  and no more than were asked for. Long strings are read in another way than short ones: the reads are cut so that
  the buffer holds the string alone.

  * `Request`, `Request.text`, `Request.argv` -- a request, its bytes, and what is to be executed; `Request.Proper` --
    the limits of the protocol;
  * `Bulks`, `Awaits` -- what has come of the requests, and what is still to come; `bulks_read`, `request_read`,
    `input_read` -- the loops of networking.c take the one to the other;
  * `receive` -- the reads of a connection;
  * **`pipeline_executed`** -- every pipeline is executed exactly and in order, however it is cut;
    `pipeline_executed_bytewise`.
-/
import SmartHome.Redis.Queries

namespace SmartHome.Redis

open SmartHome.Lib

/-! ## 1. Requests -/

def crlf : Sds := [0x0D, 0x0A]

/-- A string in a request. -/
def bulk (arg : Sds) : Sds := 0x24 :: ll2string 31 arg.length ++ crlf ++ arg ++ crlf

/-- `catAppendOnlyGenericCommand`. -/
def catAppendOnlyGenericCommand (dst : Sds) (argv : List Sds) : Sds :=
  dst ++ (0x2A :: ll2string 31 argv.length ++ crlf) ++ argv.flatMap bulk

/-- What a client sends. -/
inductive Request where
  | multibulk (argv : List Sds)
  | inline (line : Sds)

/-- Its bytes. -/
def Request.text : Request → Sds
  | .multibulk argv => catAppendOnlyGenericCommand [] argv
  | .inline line => line ++ crlf

/-- Its arguments; the empty ones of a line are dropped. -/
def Request.argv : Request → List Sds
  | .multibulk argv => argv
  | .inline line => ((sdssplitargs line).getD []).filter fun a => !a.isEmpty

def Request.type : Request → ReqType
  | .multibulk _ => .multibulk
  | .inline _ => .inline

/-- The limits of the protocol: at most 1024 * 1024 strings of at most 512 MB; a line of less than 64 KB that is not
    taken for the other kind, with quotes that are closed. -/
def Request.Proper : Request → Prop
  | .multibulk argv => argv.length ≤ 1048576 ∧ ∀ arg ∈ argv, arg.length ≤ 536870912
  | .inline line =>
    0x0A ∉ line ∧ 0 ∉ line ∧ line.head? ≠ some 0x2A ∧ line.length < inlineMaxSize ∧ (sdssplitargs line).isSome = true

/-- The bytes of several. -/
def stream (rs : List Request) : Sds := rs.flatMap Request.text

/-- What is to be done for them. -/
def toExecute (rs : List Request) : List Action := ((rs.map Request.argv).filter fun argv => !argv.isEmpty).map .execute

theorem bulk_eq (arg : Sds) : bulk arg = (0x24 :: decimal arg.length) ++ 0x0D :: 0x0A :: (arg ++ crlf) := by
  rw [bulk, ll2string_decimal (by decide)]
  simp [crlf]

theorem multibulk_text (argv : List Sds) :
    (Request.multibulk argv).text = (0x2A :: decimal argv.length) ++ 0x0D :: 0x0A :: argv.flatMap bulk := by
  rw [Request.text, catAppendOnlyGenericCommand, ll2string_decimal (by decide)]
  simp [crlf]

/-- In a number, and the character in front of it, there is no line break and no NUL. -/
theorem header_plain {c : UInt8} (hc : 0x0D < c) (n : Nat) : 0x0D ∉ c :: decimal n ∧ 0 ∉ c :: decimal n := by
  have h0 : (0 : UInt8) ≠ c := by
    rintro rfl
    exact absurd hc (by decide)
  have hcr : (0x0D : UInt8) ≠ c := by
    rintro rfl
    exact absurd hc (by decide)
  constructor
  · rw [List.mem_cons, not_or]
    exact ⟨hcr, not_mem_decimal (by decide) n⟩
  · rw [List.mem_cons, not_or]
    exact ⟨h0, not_mem_decimal (by decide) n⟩

theorem length_decimal_le (n : Nat) : (decimal n).length ≤ 20 := length_digitsLoop_le 20 n

/-! ## 2. The strings of a request -/

/-- What is still to come of some strings; of the first one the length may have been read. -/
def bulksText (bulklen : Option Nat) (todo : List Sds) : Sds :=
  if bulklen.isSome then todo.headD [] ++ crlf ++ todo.tail.flatMap bulk else todo.flatMap bulk

/-- Behind `pos` stands the beginning of what is still to come. The buffer is not long, except for a long string that
    it holds alone. -/
structure Bulks (slack : Nat) (q : Query) (pos : Nat) (rest : Sds) (todo : List Sds) (tail : Sds) : Prop where
  count : q.multibulklen = todo.length
  known : ∀ b, q.bulklen = some b → ∃ arg todo', todo = arg :: todo' ∧ arg.length = b
  text : q.querybuf.drop pos ++ rest = bulksText q.bulklen todo ++ tail
  inside : pos ≤ q.querybuf.length
  room : q.querybuf.length ≤ slack ∨
    ∃ b, q.bulklen = some b ∧ mbulkBigArg ≤ b ∧ pos = 0 ∧ q.querybuf.length ≤ b + 2

/-- Reading a request leaves the rest of the client alone. -/
def SameClient (q q' : Query) : Prop := q'.reqtype = q.reqtype ∧ q'.closeAfterReply = q.closeAfterReply

section Strings

variable {q : Query} {pos : Nat} {rest arg tail : Sds} {todo : List Sds}

/-- **The length of the next string**: more is needed, or it is known. -/
theorem readBulklen_read (h : Bulks 49152 q pos rest (arg :: todo) tail) (harg : arg.length ≤ 536870912)
    (hnone : q.bulklen = none) :
    (readBulklen q pos = .inl (.err (q.sdsrange pos)) ∧ rest ≠ [] ∧ q.querybuf.length - pos ≤ 32768) ∨
      ∃ q' pos', readBulklen q pos = .inr (q', pos') ∧ q'.bulklen = some arg.length ∧ SameClient q q' ∧
        q'.argv = q.argv ∧ Bulks 49152 q' pos' rest (arg :: todo) tail := by
  have hlen : q.querybuf.length ≤ 49152 := by
    rcases h.room with hlen | ⟨b, hb, -⟩
    · exact hlen
    · rw [hnone] at hb
      cases hb
  have htext := h.text
  rw [bulksText, hnone, if_neg (by decide), List.flatMap_cons, bulk_eq, List.append_assoc, List.append_assoc,
    List.cons_append, List.cons_append] at htext
  have hplain := header_plain (c := 0x24) (by decide) arg.length
  have hshort := length_decimal_le arg.length
  unfold readBulklen
  rw [hnone, if_neg (by decide)]
  rcases strchr_cut htext hplain.1 hplain.2 with ⟨b', hgot, hbehind, hchr⟩ | ⟨a', ha, hrest, hchr⟩
  · rw [hchr]
    simp only
    have hbuf : q.querybuf.length - pos = (decimal arg.length).length + 1 + (b'.length + 1) := by
      rw [← List.length_drop, hgot, List.length_append, List.length_cons, List.length_cons]
    cases b' with
    | nil =>
      rw [List.length_nil] at hbuf
      rw [if_pos (by rw [List.length_cons]; omega)]
      refine .inl ⟨rfl, ?_, by omega⟩
      rw [List.nil_append] at hbehind
      rw [← hbehind]
      exact List.cons_ne_nil _ _
    | cons d b' =>
      obtain ⟨rfl, hb'⟩ := List.cons.inj hbehind
      have hb' : arg ++ crlf ++ (todo.flatMap bulk ++ tail) = b' ++ rest := hb'
      rw [List.length_cons] at hbuf
      have hnumber : (((q.querybuf.drop pos).take (0x24 :: decimal arg.length : Sds).length).drop 1) =
          decimal arg.length := by
        rw [hgot, List.take_left]
        rfl
      have hread : (string2ll (decimal arg.length)).filter (fun ll => 0 ≤ ll ∧ ll ≤ 536870912) =
          some (arg.length : Int) := by
        rw [string2ll_decimal (harg.trans (by decide))]
        exact Option.filter_eq_some_iff.2 ⟨rfl, decide_eq_true ⟨by omega, by omega⟩⟩
      have hdrop : q.querybuf.drop (pos + (0x24 :: decimal arg.length : Sds).length + 2) = b' := by
        rw [Nat.add_assoc, ← List.drop_drop, hgot, List.drop_append]
        simp
      have hnew : ∀ q' pos', q'.multibulklen = q.multibulklen → q'.bulklen = some arg.length →
          q'.querybuf.drop pos' = b' → pos' ≤ q'.querybuf.length → q'.querybuf.length ≤ 49152 →
          Bulks 49152 q' pos' rest (arg :: todo) tail := by
        intro q' pos' hmb hb hdrop' hin hroom
        refine ⟨hmb.trans h.count, ?_, ?_, hin, .inl hroom⟩
        · intro b hb₁
          rw [hb] at hb₁
          cases hb₁
          exact ⟨arg, todo, rfl, rfl⟩
        · rw [hdrop', ← hb', hb, bulksText, Option.isSome_some, if_pos rfl, List.headD_cons, List.tail_cons,
            List.append_assoc (arg ++ crlf)]
      rw [if_neg (by rw [List.length_cons]; omega), hnumber, hread, hgot, List.cons_append, List.head?_cons,
        if_neg (fun hne => hne rfl)]
      simp only [Int.toNat_natCast]
      refine .inr ?_
      split
      · refine ⟨_, _, rfl, rfl, ⟨rfl, rfl⟩, rfl, hnew _ _ rfl rfl ?_ (Nat.zero_le _) ?_⟩
        · exact hdrop
        · simp only [Query.sdsrange, List.length_drop]
          omega
      · refine ⟨_, _, rfl, rfl, ⟨rfl, rfl⟩, rfl, hnew _ _ rfl rfl hdrop ?_ hlen⟩
        simp only [List.length_cons]
        omega
  · rw [hchr]
    simp only
    have hbuf : q.querybuf.length - pos ≤ (decimal arg.length).length + 1 := by
      rw [← List.length_drop, ← List.length_cons (a := 0x24), ha, List.length_append]
      omega
    rw [if_neg (by rw [inlineMaxSize]; omega)]
    refine .inl ⟨rfl, ?_, by omega⟩
    rw [hrest]
    simp

/-- **A string whose length is known**: more is needed, or it is the next argument. -/
theorem bulkStep_known {q₁ : Query} {pos₁ : Nat} (hmore : q.multibulklen ≠ 0)
    (hlen : readBulklen q pos = .inr (q₁, pos₁))
    (hb : q₁.bulklen = some arg.length) (h : Bulks 49152 q₁ pos₁ rest (arg :: todo) tail) :
    (bulkStep (q, pos) = .inl (.err (q₁.sdsrange pos₁)) ∧ rest ≠ [] ∧ q₁.querybuf.length - pos₁ < arg.length + 2) ∨
      ∃ q' pos', bulkStep (q, pos) = .inr (q', pos') ∧ SameClient q₁ q' ∧ q'.argv = q₁.argv ++ [arg] ∧
        Bulks 49152 q' pos' rest todo tail := by
  have htext : q₁.querybuf.drop pos₁ ++ rest = arg ++ (crlf ++ (todo.flatMap bulk ++ tail)) := by
    rw [h.text, hb, bulksText, Option.isSome_some, if_pos rfl, List.headD_cons, List.tail_cons]
    simp only [List.append_assoc]
  rw [bulkStep, if_neg hmore, hlen]
  simp only [hb, Option.getD_some]
  split
  · rename_i hshort
    refine .inl ⟨rfl, ?_, hshort⟩
    rintro rfl
    have hall := congrArg List.length htext
    rw [List.append_nil, List.length_drop, List.length_append, List.length_append, crlf, List.length_cons] at hall
    simp only [List.length_cons, List.length_nil] at hall
    omega
  rename_i henough
  have henough : arg.length + 2 ≤ (q₁.querybuf.drop pos₁).length := by
    rw [List.length_drop]
    omega
  have hcount : q₁.multibulklen - 1 = todo.length := by
    rw [h.count, List.length_cons, Nat.add_sub_cancel]
  have harg : (q₁.querybuf.drop pos₁).take arg.length = arg := by
    have htake : (q₁.querybuf.drop pos₁ ++ rest).take arg.length = (q₁.querybuf.drop pos₁).take arg.length :=
      List.take_append_of_le_length (by omega)
    rw [← htake, htext, List.take_left]
  have hbehind : (q₁.querybuf.drop pos₁).drop (arg.length + 2) ++ rest = todo.flatMap bulk ++ tail := by
    rw [← List.drop_append_of_le_length henough, htext, ← List.drop_drop, List.drop_left]
    rfl
  split
  · rename_i hwhole
    obtain ⟨rfl, -, hexact⟩ := hwhole
    rw [List.drop_zero] at harg hbehind
    refine .inr ⟨_, _, rfl, ⟨rfl, rfl⟩, ?_, hcount, fun b hb => (by cases hb), ?_, Nat.zero_le _, .inl (Nat.zero_le _)⟩
    · simp only [Query.takeBulk, harg]
    · rw [← hexact, List.drop_length, List.nil_append] at hbehind
      rw [List.drop_nil, List.nil_append, hbehind]
      rfl
  · rename_i hpart
    refine .inr ⟨_, _, rfl, ⟨rfl, rfl⟩, ?_, hcount, fun b hb => (by cases hb), ?_, ?_, .inl ?_⟩
    · simp only [Query.takeBulk, harg]
    · rw [List.drop_drop] at hbehind
      simp only [Query.takeBulk, Nat.add_assoc]
      exact hbehind
    · rw [List.length_drop] at henough
      simp only [Query.takeBulk]
      omega
    · rcases h.room with hlen | ⟨b, hb', hbig, rfl, hle⟩
      · exact hlen
      · -- a long string that fills the buffer is not copied
        rw [hb] at hb'
        cases hb'
        rw [List.drop_zero] at henough
        exact absurd ⟨rfl, hbig, by omega⟩ hpart

/-- **The loop over the strings**: all of them are read, or more is needed and the buffer begins with what is still to
    be read. -/
theorem bulks_read (h : Bulks 49152 q pos rest todo tail) (hlim : ∀ arg ∈ todo, arg.length ≤ 536870912) :
    (∃ q', loop bulkStep (fun _ => .assertFailed) (q.multibulklen + 1) (q, pos) = .ok q' ∧ SameClient q q' ∧
        q'.argv = q.argv ++ todo ∧ q'.querybuf ++ rest = tail ∧ q'.querybuf.length ≤ 49152) ∨
      ∃ q' done todo', loop bulkStep (fun _ => .assertFailed) (q.multibulklen + 1) (q, pos) = .err q' ∧
        SameClient q q' ∧ rest ≠ [] ∧ todo = done ++ todo' ∧ todo' ≠ [] ∧ q'.argv = q.argv ++ done ∧
        Bulks 32768 q' 0 rest todo' tail := by
  induction todo generalizing q pos with
  | nil =>
    have hmb : q.multibulklen = 0 := h.count
    have hnone : q.bulklen = none := by
      cases hb : q.bulklen with
      | none => rfl
      | some b =>
        obtain ⟨arg, todo', hnil, -⟩ := h.known b hb
        cases hnil
    have hstop : bulkStep (q, pos) = .inl (.ok (q.sdsrange pos)) := by rw [bulkStep, if_pos hmb]
    refine .inl ⟨_, loop_stop _ hstop, ⟨rfl, rfl⟩, (List.append_nil _).symm, ?_, ?_⟩
    · have htext := h.text
      rw [hnone] at htext
      exact htext
    · rcases h.room with hlen | ⟨b, hb, -⟩
      · simp only [Query.sdsrange, List.length_drop]
        omega
      · rw [hnone] at hb
        cases hb
  | cons arg todo ih =>
    have hmb : q.multibulklen = todo.length + 1 := h.count
    have hmore : q.multibulklen ≠ 0 := by omega
    have harg := hlim arg List.mem_cons_self
    -- the length of the string is known, or found, or more is needed for it
    have hlen : (readBulklen q pos = .inl (.err (q.sdsrange pos)) ∧ rest ≠ [] ∧
          q.querybuf.length - pos ≤ 32768) ∨
        ∃ q₁ pos₁, readBulklen q pos = .inr (q₁, pos₁) ∧ q₁.bulklen = some arg.length ∧ SameClient q q₁ ∧
          q₁.argv = q.argv ∧ Bulks 49152 q₁ pos₁ rest (arg :: todo) tail := by
      cases hb : q.bulklen with
      | none =>
        rcases readBulklen_read h harg hb with hwait | hknown
        · exact .inl hwait
        · exact .inr hknown
      | some b =>
        obtain ⟨arg', todo', heq, hb'⟩ := h.known b hb
        obtain ⟨rfl, rfl⟩ := List.cons.inj heq
        refine .inr ⟨q, pos, ?_, hb.trans (congrArg some hb'.symm), ⟨rfl, rfl⟩, rfl, h⟩
        rw [readBulklen, hb, Option.isSome_some, if_pos rfl]
    rcases hlen with ⟨hwait, hrest, hshort⟩ | ⟨q₁, pos₁, hread, hb, hsame, hargv, h₁⟩
    · have hstop : bulkStep (q, pos) = .inl (.err (q.sdsrange pos)) := by rw [bulkStep, if_neg hmore, hwait]
      refine .inr ⟨_, [], arg :: todo, loop_stop _ hstop, ⟨rfl, rfl⟩, hrest, rfl, List.cons_ne_nil _ _,
        (List.append_nil _).symm, h.count, h.known, ?_, Nat.zero_le _, .inl ?_⟩
      · rw [List.drop_zero]
        exact h.text
      · simp only [Query.sdsrange, List.length_drop]
        exact hshort
    · rcases bulkStep_known hmore hread hb h₁ with ⟨hstop, hrest, hshort⟩ | ⟨q₂, pos₂, hstep, hsame₂, hargv₂, h₂⟩
      · refine .inr ⟨_, [], arg :: todo, loop_stop _ hstop, hsame, hrest, rfl, List.cons_ne_nil _ _, ?_, h₁.count,
          h₁.known, ?_, Nat.zero_le _, ?_⟩
        · rw [List.append_nil]
          exact hargv
        · rw [List.drop_zero]
          exact h₁.text
        · have hcut : (q₁.sdsrange pos₁).querybuf.length = q₁.querybuf.length - pos₁ := List.length_drop
          by_cases hbig : mbulkBigArg ≤ arg.length
          · exact .inr ⟨arg.length, hb, hbig, rfl, by omega⟩
          · rw [mbulkBigArg] at hbig
            exact .inl (by omega)
      · have hmb₂ : q₂.multibulklen + 1 = q.multibulklen := by
          rw [h₂.count, hmb]
        have hgo : loop bulkStep (fun _ => .assertFailed) (q.multibulklen + 1) (q, pos) =
            loop bulkStep (fun _ => .assertFailed) (q₂.multibulklen + 1) (q₂, pos₂) := by
          rw [hmb₂, loop_more _ hstep]
        have hsame' : SameClient q q₂ := ⟨hsame₂.1.trans hsame.1, hsame₂.2.trans hsame.2⟩
        rw [hgo]
        rcases ih h₂ (fun arg' hmem => hlim arg' (List.mem_cons_of_mem _ hmem)) with
          ⟨q', hr, hq', hargv', hrest⟩ | ⟨q', done, todo', hr, hq', hrest, htodo, hne, hargv', h'⟩
        · refine .inl ⟨q', hr, ⟨hq'.1.trans hsame'.1, hq'.2.trans hsame'.2⟩, ?_, hrest⟩
          rw [hargv', hargv₂, hargv, List.append_assoc]
          rfl
        · refine .inr ⟨q', arg :: done, todo', hr, ⟨hq'.1.trans hsame'.1, hq'.2.trans hsame'.2⟩, hrest, ?_, hne,
            ?_, h'⟩
          · rw [htodo]
            rfl
          · rw [hargv', hargv₂, hargv, List.append_assoc]
            rfl

end Strings

/-! ## 3. A request -/

/-- How much of a request may stand in the buffer before it is read. -/
def Request.lead : Request → Nat
  | .multibulk _ => 0
  | .inline line => line.length + 2

/-- What has come of some requests, and what is still to come of them: nothing of the first has been taken off the
    buffer, or some of its strings have. -/
inductive Awaits (slack : Nat) (q : Query) (rest : Sds) : List Request → Prop where
  | nothing (hbuf : q.querybuf = []) (hrest : rest = []) : Awaits slack q rest []
  | whole {r : Request} {rs : List Request} (hq : q.Fresh) (hopen : q.closeAfterReply = false)
      (htype : q.reqtype = none ∨ q.reqtype = some r.type) (htext : q.querybuf ++ rest = r.text ++ stream rs)
      (hlen : q.querybuf.length ≤ r.lead + slack) : Awaits slack q rest (r :: rs)
  | strings {todo : List Sds} {rs : List Request} (hopen : q.closeAfterReply = false)
      (htype : q.reqtype = some .multibulk) (hmore : todo ≠ []) (hbulks : Bulks slack q 0 rest todo (stream rs)) :
      Awaits slack q rest (.multibulk (q.argv ++ todo) :: rs)

section Requests

variable {q : Query} {rest : Sds} {rs : List Request}

/-- What is left when a request is read. -/
structure ReadTo (n : Nat) (q' : Query) (rest : Sds) (argv : List Sds) (rs : List Request) : Prop where
  argv : q'.argv = argv
  isOpen : q'.closeAfterReply = false
  text : q'.querybuf ++ rest = stream rs
  room : q'.querybuf.length ≤ 49152
  less : q'.querybuf.length < n

theorem readTo_of_text {q' : Query} {text : Sds} {argv : List Sds} (htext : q.querybuf ++ rest = text ++ stream rs)
    (hne : text ≠ []) (hargv : q'.argv = argv) (hopen : q'.closeAfterReply = false)
    (hbehind : q'.querybuf ++ rest = stream rs) (hroom : q'.querybuf.length ≤ 49152) :
    ReadTo q.querybuf.length q' rest argv rs := by
  refine ⟨hargv, hopen, hbehind, hroom, ?_⟩
  have h₁ := congrArg List.length htext
  have h₂ := congrArg List.length hbehind
  have h₃ := List.length_pos_iff.2 hne
  rw [List.length_append, List.length_append] at h₁
  rw [List.length_append] at h₂
  omega

theorem inline_read {line : Sds} (hr : (Request.inline line).Proper) (hq : q.Fresh) (hopen : q.closeAfterReply = false)
    (htype : q.reqtype = some .inline) (htext : q.querybuf ++ rest = (Request.inline line).text ++ stream rs)
    (hlen : q.querybuf.length ≤ line.length + 2 + 49152) :
    (∃ q', processInlineBuffer q = .ok q' ∧ ReadTo q.querybuf.length q' rest (Request.inline line).argv rs) ∨
      (processInlineBuffer q = .err q ∧ rest ≠ [] ∧ Awaits 32768 q rest (.inline line :: rs)) := by
  obtain ⟨hlf, h0, -, hlim, hsplit⟩ := hr
  have hplain : 0x0A ∉ line ++ [0x0D] ∧ 0 ∉ line ++ [0x0D] := by
    simp only [List.mem_append, List.mem_singleton, not_or]
    exact ⟨⟨hlf, by decide⟩, ⟨h0, by decide⟩⟩
  have htext' : q.querybuf ++ rest = (line ++ [0x0D]) ++ 0x0A :: stream rs := by
    rw [htext, Request.text, crlf]
    simp
  unfold processInlineBuffer
  rcases strchr_cut htext' hplain.1 hplain.2 with ⟨b', hgot, hbehind, hchr⟩ | ⟨a', ha, hrest, hchr⟩
  · rw [hchr]
    obtain ⟨argv, hargv⟩ := Option.isSome_iff_exists.1 hsplit
    have hbefore : q.querybuf[(line ++ [0x0D]).length - 1]? = some 0x0D := by
      rw [hgot, List.length_append, List.length_singleton, Nat.add_sub_cancel, List.append_assoc]
      simp
    have hline : q.querybuf.take line.length = line := by
      rw [hgot, List.append_assoc, List.take_left]
    have hdrop : q.querybuf.drop (line.length + 2) = b' := by
      rw [hgot, ← List.drop_drop, List.append_assoc, List.drop_left]
      rfl
    have hlen' : line.length + 2 + b'.length = q.querybuf.length := by
      rw [hgot]
      simp only [List.length_append, List.length_cons, List.length_nil]
      omega
    simp only
    rw [hbefore, if_pos ⟨by simp, rfl⟩, List.length_append, List.length_singleton, Nat.add_sub_cancel, hline, hargv]
    refine .inl ⟨_, rfl, readTo_of_text htext ?_ ?_ hopen ?_ ?_⟩
    · rw [Request.text, crlf]
      simp
    · simp only [Request.argv, hargv, Option.getD_some]
    · simp only
      rw [hdrop, hbehind]
    · simp only
      rw [hdrop]
      omega
  · rw [hchr]
    have hshort : q.querybuf.length ≤ line.length + 1 := by
      have h := congrArg List.length ha
      rw [List.length_append, List.length_singleton, List.length_append] at h
      omega
    simp only
    rw [if_neg (by omega)]
    refine .inr ⟨rfl, ?_, .whole hq hopen (.inr htype) htext ?_⟩
    · rw [hrest]
      simp
    · rw [Request.lead]
      omega

theorem strings_read {todo : List Sds} (hlim : ∀ arg ∈ todo, arg.length ≤ 536870912)
    (hopen : q.closeAfterReply = false) (htype : q.reqtype = some .multibulk) {pos : Nat}
    (hbulks : Bulks 49152 q pos rest todo (stream rs)) :
    (∃ q', loop bulkStep (fun _ => .assertFailed) (q.multibulklen + 1) (q, pos) = .ok q' ∧ q'.argv = q.argv ++ todo ∧
        q'.closeAfterReply = false ∧ q'.querybuf ++ rest = stream rs ∧ q'.querybuf.length ≤ 49152) ∨
      ∃ q', loop bulkStep (fun _ => .assertFailed) (q.multibulklen + 1) (q, pos) = .err q' ∧ rest ≠ [] ∧
        Awaits 32768 q' rest (.multibulk (q.argv ++ todo) :: rs) := by
  rcases bulks_read hbulks hlim with
    ⟨q', hr, hsame, hargv, htext, hroom⟩ | ⟨q', done, todo', hr, hsame, hrest, rfl, hne, hargv, h'⟩
  · exact .inl ⟨q', hr, hargv, hsame.2.trans hopen, htext, hroom⟩
  · refine .inr ⟨q', hr, hrest, ?_⟩
    rw [← List.append_assoc, ← hargv]
    exact .strings (hsame.2.trans hopen) (hsame.1.trans htype) hne h'

/-- **The count of the strings**: more is needed, or it is known. -/
theorem multibulkCount_read {argv : List Sds} (hargv : argv.length ≤ 1048576) (hq : q.Fresh)
    (htext : q.querybuf ++ rest = (Request.multibulk argv).text ++ stream rs) :
    (multibulkCount q = .inl (.err q) ∧ rest ≠ [] ∧ q.querybuf.length ≤ 32768) ∨
      ∃ k, k ≤ q.querybuf.length ∧ q.querybuf.drop k ++ rest = argv.flatMap bulk ++ stream rs ∧
        if argv = [] then multibulkCount q = .inl (.ok (q.sdsrange k))
        else multibulkCount q = .inr ({ q with multibulklen := argv.length }, k) := by
  have hplain := header_plain (c := 0x2A) (by decide) argv.length
  have hshort := length_decimal_le argv.length
  rw [multibulk_text, List.append_assoc, List.cons_append, List.cons_append] at htext
  unfold multibulkCount
  rw [if_neg (fun h => h hq.argv)]
  rcases strchr_cut htext hplain.1 hplain.2 with ⟨b', hgot, hbehind, hchr⟩ | ⟨a', ha, hrest, hchr⟩
  · rw [hchr]
    simp only
    have hbuf : q.querybuf.length = (decimal argv.length).length + 1 + (b'.length + 1) := by
      rw [hgot, List.length_append, List.length_cons, List.length_cons]
    cases b' with
    | nil =>
      rw [List.length_nil] at hbuf
      rw [if_pos (by rw [List.length_cons]; omega)]
      refine .inl ⟨rfl, ?_, by omega⟩
      rw [List.nil_append] at hbehind
      rw [← hbehind]
      exact List.cons_ne_nil _ _
    | cons d b' =>
      obtain ⟨rfl, hb'⟩ := List.cons.inj hbehind
      have hb' : argv.flatMap bulk ++ stream rs = b' ++ rest := hb'
      rw [List.length_cons] at hbuf
      have hnumber : ((q.querybuf.take (0x2A :: decimal argv.length : Sds).length).drop 1) = decimal argv.length := by
        rw [hgot, List.take_left]
        rfl
      have hread : (string2ll (decimal argv.length)).filter (fun ll => ll ≤ 1048576) = some (argv.length : Int) := by
        rw [string2ll_decimal (hargv.trans (by decide))]
        exact Option.filter_eq_some_iff.2 ⟨rfl, decide_eq_true (by omega)⟩
      have hdrop : q.querybuf.drop ((0x2A :: decimal argv.length : Sds).length + 2) = b' := by
        rw [hgot, List.drop_append]
        simp
      have hhead : q.querybuf.head? = some 0x2A := by
        rw [hgot]
        rfl
      rw [if_neg (by rw [List.length_cons]; omega), hnumber, hread, if_neg (fun hne => hne hhead)]
      refine .inr ⟨_, ?_, by rw [hdrop, hb'], ?_⟩
      · rw [List.length_cons]
        omega
      · simp only
        split
        · rename_i hnil
          rw [if_pos (by rw [hnil]; decide)]
        · rename_i hne
          have hpos := List.length_pos_iff.2 hne
          rw [if_neg (by omega), Int.toNat_natCast]
  · rw [hchr]
    simp only
    have hbuf : q.querybuf.length ≤ (decimal argv.length).length + 1 := by
      rw [← List.length_cons (a := 0x2A), ha, List.length_append]
      omega
    rw [if_neg (by rw [inlineMaxSize]; omega)]
    refine .inl ⟨rfl, ?_, by omega⟩
    rw [hrest]
    simp

theorem multibulk_read {argv : List Sds} (hr : (Request.multibulk argv).Proper) (hq : q.Fresh)
    (hopen : q.closeAfterReply = false) (htype : q.reqtype = some .multibulk)
    (htext : q.querybuf ++ rest = (Request.multibulk argv).text ++ stream rs) (hlen : q.querybuf.length ≤ 49152) :
    (∃ q', processMultibulkBuffer q = .ok q' ∧ ReadTo q.querybuf.length q' rest argv rs) ∨
      ∃ q', processMultibulkBuffer q = .err q' ∧ rest ≠ [] ∧ Awaits 32768 q' rest (.multibulk argv :: rs) := by
  have htextne : (Request.multibulk argv).text ≠ [] := by
    rw [multibulk_text]
    simp
  unfold processMultibulkBuffer
  rw [if_pos hq.multibulklen]
  rcases multibulkCount_read hr.1 hq htext with ⟨hwait, hrest, hshort⟩ | ⟨k, hk, hbehind, hcount⟩
  · rw [hwait]
    refine .inr ⟨q, rfl, hrest, .whole hq hopen (.inr htype) htext ?_⟩
    rw [Request.lead]
    omega
  · by_cases hnil : argv = []
    · rw [if_pos hnil] at hcount
      rw [hcount]
      subst hnil
      refine .inl ⟨_, rfl, readTo_of_text htext htextne hq.argv hopen hbehind ?_⟩
      simp only [Query.sdsrange, List.length_drop]
      omega
    · rw [if_neg hnil] at hcount
      have hpos : argv.length ≠ 0 := fun h0 => hnil (List.length_eq_zero_iff.1 h0)
      have hbulks : Bulks 49152 { q with multibulklen := argv.length } k rest argv (stream rs) := by
        refine ⟨rfl, fun b hb => absurd (hq.bulklen.symm.trans hb) (Option.some_ne_none b).symm, ?_, hk, .inl hlen⟩
        simp only [hq.bulklen, bulksText]
        exact hbehind
      rw [hcount]
      simp only
      rw [if_neg hpos]
      rcases strings_read (q := { q with multibulklen := argv.length }) hr.2 hopen htype hbulks with
        ⟨q', hq', hargv, hopen', htext', hroom⟩ | ⟨q', hq', hrest, h'⟩
      · refine .inl ⟨q', hq', readTo_of_text htext htextne ?_ hopen' htext' hroom⟩
        rw [hargv, hq.argv, List.nil_append]
      · rw [hq.argv, List.nil_append] at h'
        exact .inr ⟨q', hq', hrest, h'⟩

/-- The first byte of a request says what it is. -/
theorem text_head {r : Request} (hr : r.Proper) (more : Sds) :
    (r.text ++ more).head? = some 0x2A ↔ r.type = .multibulk := by
  cases r with
  | multibulk argv =>
    rw [multibulk_text]
    exact iff_of_true rfl rfl
  | inline line =>
    refine iff_of_false (fun h => ?_) (fun h => by cases h)
    cases line with
    | nil =>
      have hcr : (some 0x0D : Option UInt8) = some 0x2A := h
      exact absurd hcr (by decide)
    | cons c line => exact hr.2.2.1 h

theorem text_ne_nil (r : Request) : r.text ≠ [] := by
  cases r with
  | multibulk argv =>
    rw [multibulk_text]
    simp
  | inline line =>
    rw [Request.text, crlf]
    simp

theorem bulksText_ne_nil {bulklen : Option Nat} {todo : List Sds} (h : todo ≠ []) : bulksText bulklen todo ≠ [] := by
  unfold bulksText
  split
  · simp [crlf]
  · cases todo with
    | nil => exact absurd rfl h
    | cons arg todo =>
      rw [List.flatMap_cons, bulk]
      simp

/-- The type is found, if it was unknown. -/
theorem determineType_eq {r : Request} (hr : r.Proper) (hbuf : q.querybuf ≠ [])
    (htype : q.reqtype = none ∨ q.reqtype = some r.type) (htext : q.querybuf ++ rest = r.text ++ stream rs) :
    q.determineType = { q with reqtype := some r.type } := by
  rcases htype with hnone | hsome
  · have hhead := text_head hr (stream rs)
    rw [← htext, List.head?_append_of_ne_nil _ hbuf] at hhead
    rw [Query.determineType, hnone, Option.isSome_none, if_neg (by decide)]
    cases ht : r.type with
    | multibulk => rw [if_pos (hhead.2 ht)]
    | inline => rw [if_neg fun h => by rw [hhead.1 h] at ht; cases ht]
  · rw [Query.determineType, hsome, Option.isSome_some, if_pos rfl, ← hsome]

theorem processRequest_inline (h : q.reqtype = some .inline) : q.processRequest = processInlineBuffer q := if_pos h

theorem processRequest_multibulk (h : q.reqtype = some .multibulk) : q.processRequest = processMultibulkBuffer q := by
  rw [Query.processRequest, h, if_neg (fun h => by cases h)]

/-- **A request**: it is read, or more is needed for it. -/
theorem request_read {r : Request} (hr : r.Proper) (hbuf : q.querybuf ≠ []) (h : Awaits 49152 q rest (r :: rs)) :
    (∃ q', q.determineType.processRequest = .ok q' ∧ ReadTo q.querybuf.length q' rest r.argv rs) ∨
      ∃ q', q.determineType.processRequest = .err q' ∧ rest ≠ [] ∧ Awaits 32768 q' rest (r :: rs) := by
  cases h with
  | whole hq hopen htype htext hlen =>
    rw [determineType_eq hr hbuf htype htext]
    cases r with
    | inline line =>
      rw [processRequest_inline rfl]
      rcases inline_read (q := { q with reqtype := some .inline }) hr
        ⟨hq.multibulklen, hq.bulklen, hq.argv⟩ hopen rfl
        htext hlen with hok | hwait
      · exact .inl hok
      · exact .inr ⟨_, hwait⟩
    | multibulk argv =>
      rw [processRequest_multibulk rfl]
      exact multibulk_read (q := { q with reqtype := some .multibulk }) hr
        ⟨hq.multibulklen, hq.bulklen, hq.argv⟩ hopen
        rfl htext (hlen.trans (Nat.le_of_eq (Nat.zero_add _)))
  | strings hopen htype hmore hbulks =>
    rename_i todo
    have hpos : q.multibulklen ≠ 0 := by
      rw [hbulks.count]
      exact fun h0 => hmore (List.length_eq_zero_iff.1 h0)
    have htext : q.querybuf ++ rest = bulksText q.bulklen todo ++ stream rs := hbulks.text
    rw [Query.determineType, htype, Option.isSome_some, if_pos rfl, processRequest_multibulk htype,
      processMultibulkBuffer, if_neg hpos]
    simp only
    rw [if_neg hpos]
    rcases strings_read (fun arg harg => hr.2 arg (List.mem_append_right _ harg)) hopen htype hbulks with
      ⟨q', hq', hargv, hopen', htext', hroom⟩ | hwait
    · exact .inl ⟨q', hq', readTo_of_text htext (bulksText_ne_nil hmore) hargv hopen' htext' hroom⟩
    · exact .inr hwait

/-- Behind a request stands the next one. -/
theorem ReadTo.awaits {n : Nat} {q' : Query} {argv : List Sds} (h : ReadTo n q' rest argv rs) :
    Awaits 49152 q'.reset rest rs := by
  cases rs with
  | nil =>
    obtain ⟨hbuf, hrest⟩ := List.append_eq_nil_iff.1 h.text
    exact .nothing hbuf hrest
  | cons r rs => exact .whole ⟨rfl, rfl, rfl⟩ h.isOpen (.inl rfl) h.text (h.room.trans (Nat.le_add_left _ _))

/-- An empty buffer is short, and more is to come. -/
theorem Awaits.empty {r : Request} (hbuf : q.querybuf = []) (h : Awaits 49152 q rest (r :: rs)) :
    rest ≠ [] ∧ Awaits 32768 q rest (r :: rs) := by
  cases h with
  | whole hq hopen htype htext hlen =>
    refine ⟨fun hrest => ?_, .whole hq hopen htype htext (by rw [hbuf]; exact Nat.zero_le _)⟩
    rw [hbuf, hrest] at htext
    exact text_ne_nil r (List.append_eq_nil_iff.1 htext.symm).1
  | strings hopen htype hmore hbulks =>
    refine ⟨fun hrest => ?_, .strings hopen htype hmore
      ⟨hbulks.count, hbulks.known, hbulks.text, hbulks.inside, .inl (by rw [hbuf]; exact Nat.zero_le _)⟩⟩
    have htext := hbulks.text
    rw [hbuf, hrest] at htext
    exact bulksText_ne_nil hmore (List.append_eq_nil_iff.1 htext.symm).1

theorem Awaits.isOpen {slack : Nat} {r : Request} (h : Awaits slack q rest (r :: rs)) : q.closeAfterReply = false := by
  cases h with
  | whole _ hopen _ _ _ => exact hopen
  | strings hopen _ _ _ => exact hopen

end Requests

/-! ## 4. A pipeline -/

theorem toExecute_cons (r : Request) (rs : List Request) :
    toExecute (r :: rs) = (if r.argv = [] then [] else [.execute r.argv]) ++ toExecute rs := by
  unfold toExecute
  rw [List.map_cons, List.filter_cons]
  cases r.argv with
  | nil | cons => rfl

theorem toExecute_append (rs rs' : List Request) : toExecute (rs ++ rs') = toExecute rs ++ toExecute rs' := by
  simp [toExecute]

/-- **`processInputBuffer`**: the requests that have come are executed, and of the next one is kept what has come. -/
theorem input_read {rs : List Request} (hrs : ∀ r ∈ rs, r.Proper) (hquit : ∀ r ∈ rs.dropLast, isQuit r.argv = false)
    {q : Query} {rest : Sds} (h : Awaits 49152 q rest rs) {n : Nat} (hn : q.querybuf.length < n)
    (actions : List Action) :
    ∃ q' taken rs', loop inputStep (fun _ => .assertFailed) n (q, actions) = .done q' (actions ++ toExecute taken) ∧
      rs = taken ++ rs' ∧ Awaits 32768 q' rest rs' ∧ (rest = [] → rs' = []) := by
  induction rs generalizing q n actions with
  | nil =>
    obtain ⟨n, rfl⟩ : ∃ m, n = m + 1 := ⟨n - 1, by omega⟩
    cases h with
    | nothing hbuf hrest =>
      have hstop : inputStep (q, actions) = .inl (.done q actions) := by rw [inputStep, if_pos (.inl hbuf)]
      exact ⟨q, [], [], by rw [loop_stop n hstop]; simp [toExecute], rfl, .nothing hbuf hrest, fun _ => rfl⟩
  | cons r rs ih =>
    obtain ⟨n, rfl⟩ : ∃ m, n = m + 1 := ⟨n - 1, by omega⟩
    by_cases hbuf : q.querybuf = []
    · have hstop : inputStep (q, actions) = .inl (.done q actions) := by rw [inputStep, if_pos (.inl hbuf)]
      obtain ⟨hrest, h'⟩ := h.empty hbuf
      exact ⟨q, [], r :: rs, by rw [loop_stop n hstop]; simp [toExecute], rfl, h', fun h0 => absurd h0 hrest⟩
    have hgo : ¬ (q.querybuf = [] ∨ q.closeAfterReply = true) := by
      rw [h.isOpen]
      exact fun hor => hor.elim hbuf (by decide)
    have hrs' : ∀ r' ∈ rs, r'.Proper := fun r' hr' => hrs r' (List.mem_cons_of_mem _ hr')
    have hquit' : ∀ r' ∈ rs.dropLast, isQuit r'.argv = false := fun r' hr' => hquit r' (by
      cases rs with
      | nil => exact absurd hr' List.not_mem_nil
      | cons r₂ rs => exact List.mem_cons_of_mem _ hr')
    rcases request_read (hrs r List.mem_cons_self) hbuf h with ⟨q', hq', hread⟩ | ⟨q', hq', hrest, h'⟩
    · have hnext : ∃ q₂, Awaits 49152 q₂ rest rs ∧ q₂.querybuf = q'.querybuf ∧ inputStep (q, actions) =
          .inr (q₂, actions ++ if r.argv = [] then [] else [.execute r.argv]) := by
        rw [inputStep, if_neg hgo, hq']
        simp only [hread.argv]
        split
        · exact ⟨_, hread.awaits, rfl, by rw [List.append_nil]⟩
        split
        · rename_i hisquit
          -- the last request of all
          have hlast : rs = [] := by
            cases rs with
            | nil => rfl
            | cons r₂ rs =>
              have hno := hquit r (List.mem_cons_self)
              rw [hno] at hisquit
              cases hisquit
          subst hlast
          obtain ⟨hbuf', hrest⟩ := List.append_eq_nil_iff.1 hread.text
          exact ⟨{ q' with argv := r.argv, closeAfterReply := true }, .nothing hbuf' hrest, rfl, rfl⟩
        · exact ⟨_, hread.awaits, rfl, rfl⟩
      obtain ⟨q₂, h₂, hbuf₂, hstep⟩ := hnext
      have hless := hread.less
      obtain ⟨q₃, taken, rs', hloop, heq, h₃, hend⟩ := ih hrs' hquit' h₂ (n := n) (by rw [hbuf₂]; omega)
        (actions ++ if r.argv = [] then [] else [.execute r.argv])
      refine ⟨q₃, r :: taken, rs', ?_, by rw [heq]; rfl, h₃, hend⟩
      rw [loop_more n hstep, hloop, toExecute_cons, List.append_assoc]
    · have hstop : inputStep (q, actions) = .inl (.done q' actions) := by rw [inputStep, if_neg hgo, hq']
      exact ⟨q', [], r :: rs, by rw [loop_stop n hstop]; simp [toExecute], rfl, h', fun h0 => absurd h0 hrest⟩

/-- Of a long string no more is read than it has. -/
theorem readlen_big {q : Query} {b : Nat} (htype : q.reqtype = some .multibulk) (hmore : q.multibulklen ≠ 0)
    (hb : q.bulklen = some b) (hbig : mbulkBigArg ≤ b) : q.readlen ≤ (b : Int) + 2 - q.querybuf.length := by
  rw [Query.readlen, hb, Option.isSome_some, Option.getD_some, if_pos ⟨htype, hmore, rfl, hbig⟩]
  exact min_le_right _ _

/-- **A read brings some of what is still to come.** -/
theorem Awaits.read {q : Query} {data rest : Sds} {rs : List Request} (h : Awaits 32768 q (data ++ rest) rs)
    (hdata : (data.length : Int) ≤ q.readlen) : Awaits 49152 { q with querybuf := q.querybuf ++ data } rest rs := by
  have hle : data.length ≤ 16384 := by
    have := readlen_le q
    rw [iobufLen] at this
    omega
  cases h with
  | nothing hbuf hrest =>
    obtain ⟨rfl, rfl⟩ := List.append_eq_nil_iff.1 hrest
    exact .nothing (by rw [hbuf]; rfl) rfl
  | whole hq hopen htype htext hlen =>
    refine .whole ⟨hq.multibulklen, hq.bulklen, hq.argv⟩ hopen htype ?_ ?_
    · rw [List.append_assoc]
      exact htext
    · rw [List.length_append]
      omega
  | strings hopen htype hmore hbulks =>
    have hpos : q.multibulklen ≠ 0 := by
      rw [hbulks.count]
      exact fun h0 => hmore (List.length_eq_zero_iff.1 h0)
    refine .strings hopen htype hmore ⟨hbulks.count, hbulks.known, ?_, Nat.zero_le _, ?_⟩
    · have htext := hbulks.text
      rw [List.drop_zero] at htext ⊢
      rw [List.append_assoc]
      exact htext
    · rcases hbulks.room with hlen | ⟨b, hb, hbig, -, hlen⟩
      · refine .inl ?_
        rw [List.length_append]
        omega
      · have hcut := readlen_big htype hpos hb hbig
        refine .inr ⟨b, hb, hbig, rfl, ?_⟩
        rw [List.length_append]
        omega

/-- The buffer never becomes too long. -/
theorem Awaits.length_le {q : Query} {rest : Sds} {rs : List Request} (h : Awaits 49152 q rest rs)
    (hrs : ∀ r ∈ rs, r.Proper) : q.querybuf.length ≤ maxQuerybufLen := by
  rw [maxQuerybufLen]
  cases h with
  | nothing hbuf _ =>
    rw [hbuf]
    exact Nat.zero_le _
  | @whole r rs _ _ _ _ hlen =>
    have hr := hrs r List.mem_cons_self
    cases r with
    | multibulk argv =>
      rw [Request.lead] at hlen
      omega
    | inline line =>
      have hline := hr.2.2.2.1
      rw [inlineMaxSize] at hline
      rw [Request.lead] at hlen
      omega
  | strings _ _ _ hbulks =>
    rcases hbulks.room with hlen | ⟨b, hb, -, -, hlen⟩
    · omega
    · obtain ⟨arg, todo', rfl, rfl⟩ := hbulks.known b hb
      have harg := (hrs _ List.mem_cons_self).2 arg (List.mem_append_right _ List.mem_cons_self)
      omega

/-- The reads of a connection on which `bytes` are still to come: each gives one byte at least, and no more than were
    asked for, than `sizes` says, and than there are. -/
def receive : List Nat → Reader → Sds → Option (Reader × Sds)
  | [], s, bytes => some (s, bytes)
  | size :: sizes, s, bytes =>
    if bytes = [] then some (s, [])
    else
      let n := min (size + 1) s.query.readlen.toNat
      (readerNext s (bytes.take n)).bind fun s' => receive sizes s' (bytes.drop n)

theorem mem_dropLast_append (rs : List Request) {rs' : List Request} {r : Request} (h : r ∈ rs'.dropLast) :
    r ∈ (rs ++ rs').dropLast := by
  cases rs' with
  | nil => exact absurd h List.not_mem_nil
  | cons r' rs' =>
    rw [List.dropLast_append_of_ne_nil (List.cons_ne_nil _ _)]
    exact List.mem_append_right _ h

theorem awaits_stream (rs : List Request) : Awaits 32768 readerStart.query (stream rs) rs := by
  cases rs with
  | nil => exact .nothing rfl rfl
  | cons r rs => exact .whole ⟨rfl, rfl, rfl⟩ rfl (.inl rfl) rfl (Nat.zero_le _)

theorem stream_eq_nil {rs : List Request} (h : stream rs = []) : rs = [] := by
  cases rs with
  | nil => rfl
  | cons r rs =>
    rw [stream, List.flatMap_cons] at h
    exact absurd (List.append_eq_nil_iff.1 h).1 (text_ne_nil r)

/-- One read. -/
theorem read_executed {rs : List Request} (hrs : ∀ r ∈ rs, r.Proper) (hquit : ∀ r ∈ rs.dropLast, isQuit r.argv = false)
    {s : Reader} {data rest : Sds} (h : Awaits 32768 s.query (data ++ rest) rs)
    (hdata : (data.length : Int) ≤ s.query.readlen) :
    ∃ q' taken rs', readerNext s data = some ⟨q', s.served ++ toExecute taken⟩ ∧ rs = taken ++ rs' ∧
      Awaits 32768 q' rest rs' ∧ (rest = [] → rs' = []) := by
  have h' := h.read hdata
  obtain ⟨q', taken, rs', hloop, hsplit, hq', hend⟩ := input_read hrs hquit h' (Nat.lt_succ_self _) []
  refine ⟨q', taken, rs', ?_, hsplit, hq', hend⟩
  rw [readerNext, readQueryFromClient, if_neg (Nat.not_lt.2 (h'.length_le hrs)), processInputBuffer, hloop]
  rfl

/-- All reads. -/
theorem receive_executed {rs : List Request} (hrs : ∀ r ∈ rs, r.Proper)
    (hquit : ∀ r ∈ rs.dropLast, isQuit r.argv = false)
    (sizes : List Nat) {s : Reader} {bytes : Sds} (h : Awaits 32768 s.query bytes rs) (hempty : bytes = [] → rs = [])
    (hrest : s.query.Rests) (hserved : ServedUpTo s.query.closeAfterReply s.served) :
    ∃ s' rest taken rs', receive sizes s bytes = some (s', rest) ∧ rs = taken ++ rs' ∧
      s'.served = s.served ++ toExecute taken ∧ (rest = [] → rs' = []) ∧ (bytes.length ≤ sizes.length → rest = []) := by
  induction sizes generalizing s bytes rs with
  | nil =>
    refine ⟨s, bytes, [], rs, rfl, rfl, by simp [toExecute], hempty, fun hlen => ?_⟩
    exact List.length_eq_zero_iff.1 (Nat.le_zero.1 hlen)
  | cons size sizes ih =>
    rw [receive]
    by_cases hnil : bytes = []
    · rw [if_pos hnil]
      exact ⟨s, [], [], rs, rfl, rfl, by simp [toExecute], fun _ => hempty hnil, fun _ => rfl⟩
    rw [if_neg hnil]
    have hpos := hrest.readlen_pos
    have hsplit := (List.take_append_drop (min (size + 1) s.query.readlen.toNat) bytes).symm
    have hdata : ((bytes.take (min (size + 1) s.query.readlen.toNat)).length : Int) ≤ s.query.readlen := by
      rw [List.length_take]
      omega
    rw [hsplit] at h
    obtain ⟨q', taken, rs₁, hnext, rfl, hq', hend⟩ := read_executed hrs hquit h hdata
    have hstate : q'.Rests ∧ ServedUpTo q'.closeAfterReply (s.served ++ toExecute taken) := by
      unfold readerNext at hnext
      rcases readQueryFromClient_cases hrest hserved (bytes.take (min (size + 1) s.query.readlen.toNat)) with
        hr | ⟨q₁, actions, hr, h₁⟩
      · rw [hr] at hnext
        cases hnext
      · rw [hr] at hnext
        obtain ⟨rfl, hactions⟩ := Reader.mk.inj (Option.some.inj hnext)
        rw [← hactions]
        exact h₁
    have hquit₁ : ∀ r ∈ rs₁.dropLast, isQuit r.argv = false := fun r hr => hquit r (mem_dropLast_append taken hr)
    obtain ⟨s', rest, taken', rs', hreceive, rfl, hserved', hend', hall⟩ :=
      ih (fun r hr => hrs r (List.mem_append_right _ hr)) hquit₁ (s := ⟨q', s.served ++ toExecute taken⟩) hq' hend
        hstate.1 hstate.2
    refine ⟨s', rest, taken ++ taken', rs', ?_, (List.append_assoc _ _ _).symm, ?_, hend', fun hlen => hall ?_⟩
    · simp only [hnext, Option.bind_some, hreceive]
    · rw [hserved', List.append_assoc, toExecute_append]
    · rw [List.length_drop]
      rw [List.length_cons] at hlen
      have := List.length_pos_iff.2 hnil
      omega

/-- **A pipeline is executed**: of requests within the limits, QUIT if at all as the last, all are executed, in their
    order and with their arguments, whatever bytes these have and however the bytes arrive; before all have arrived, the
    first ones are. -/
theorem pipeline_executed (rs : List Request) (hrs : ∀ r ∈ rs, r.Proper)
    (hquit : ∀ r ∈ rs.dropLast, isQuit r.argv = false) (sizes : List Nat) :
    ∃ s rest, receive sizes readerStart (stream rs) = some (s, rest) ∧
      (∃ taken, taken <+: rs ∧ s.served = toExecute taken) ∧
      (rest = [] → s.served = toExecute rs) ∧ ((stream rs).length ≤ sizes.length → rest = []) := by
  obtain ⟨hrest, hserved⟩ := rests_of_reaches Reaches.start
  obtain ⟨s, rest, taken, rs', hreceive, rfl, htaken, hend, hall⟩ :=
    receive_executed hrs hquit sizes (awaits_stream rs) stream_eq_nil hrest hserved
  have htaken : s.served = toExecute taken := htaken
  refine ⟨s, rest, hreceive, ⟨taken, List.prefix_append _ _, htaken⟩, fun h => ?_, hall⟩
  rw [htaken, hend h, List.append_nil]

/-- A string with a NUL and a line break in it and an empty one, a line, and QUIT; they arrive byte by byte. -/
theorem pipeline_executed_bytewise :
    ∃ s, receive (List.replicate 80 0) readerStart (stream [.multibulk [chars "chat", [0x00, 0x0D, 0x0A], []],
        .inline (chars "node say lamp on"), .inline (chars "quit")]) = some (s, []) ∧
      s.served = [.execute [chars "chat", [0x00, 0x0D, 0x0A], []],
        .execute [chars "node", chars "say", chars "lamp", chars "on"], .execute [chars "quit"]] := by
  obtain ⟨s, rest, hreceive, -, hall, hlen⟩ := pipeline_executed
    [.multibulk [chars "chat", [0x00, 0x0D, 0x0A], []], .inline (chars "node say lamp on"), .inline (chars "quit")]
    (by
      intro r hr
      simp only [List.mem_cons, List.not_mem_nil, or_false] at hr
      rcases hr with rfl | rfl | rfl
      · refine ⟨by decide, fun arg harg => ?_⟩
        simp only [List.mem_cons, List.not_mem_nil, or_false] at harg
        rcases harg with rfl | rfl | rfl <;> decide
      · exact ⟨by decide, by decide, by decide, by decide, by decide⟩
      · exact ⟨by decide, by decide, by decide, by decide, by decide⟩)
    (by
      intro r hr
      simp only [List.dropLast_cons_cons, List.dropLast_singleton, List.mem_cons, List.not_mem_nil, or_false] at hr
      rcases hr with rfl | rfl
      · decide
      · decide)
    (List.replicate 80 0)
  have hrest := hlen (by decide)
  subst hrest
  exact ⟨s, hreceive, (hall rfl).trans (by decide)⟩

/-! ## 5. Lines that end with LF alone -/

/-- A line that is read as one when LF alone ends it, other than QUIT. -/
structure PlainLine (line : Sds) : Prop where
  noNewline : 0x0A ∉ line
  noNul : 0 ∉ line
  noStar : line.head? ≠ some 0x2A
  noReturn : line.getLast? ≠ some 0x0D
  splits : (sdssplitargs line).isSome = true
  noQuit : isQuit (Request.inline line).argv = false

/-- Lines as `println` writes them. -/
def lfText (lines : List Sds) : Sds := lines.flatMap fun line => line ++ [0x0A]

/-- The lines that the server sees of those in one read: behind LF it takes off a byte more. -/
def lfSeen : List Sds → List Sds
  | [] => []
  | line :: lines => line :: lines.map List.tail

section LineFeed

variable {line more : Sds}

theorem processInlineBuffer_lf {q : Query} (h : PlainLine line) (hbuf : q.querybuf = line ++ 0x0A :: more) :
    processInlineBuffer q = .ok { q with querybuf := more.drop 1, argv := (Request.inline line).argv } := by
  obtain ⟨argv, hargv⟩ := Option.isSome_iff_exists.1 h.splits
  have hquerylen : ¬ (line.length ≠ 0 ∧ (line ++ 0x0A :: more)[line.length - 1]? = some 0x0D) := by
    rintro ⟨hne, hlast⟩
    rw [List.getElem?_append_left (by omega), ← List.getLast?_eq_getElem?] at hlast
    exact h.noReturn hlast
  have hdrop : (line ++ 0x0A :: more).drop (line.length + 2) = more.drop 1 := by
    rw [← List.drop_drop, List.drop_left]
    rfl
  rw [processInlineBuffer, hbuf, strchr_append h.noNewline h.noNul]
  simp only
  rw [if_neg hquerylen, List.take_left, hargv, hdrop, Request.argv, hargv, Option.getD_some]

/-- **A line, and a byte of what stands behind it.** -/
theorem inputStep_lf (h : PlainLine line) (actions : List Action) :
    inputStep ({ Query.new with querybuf := line ++ 0x0A :: more }, actions) =
      .inr ({ Query.new with querybuf := more.drop 1 }, actions ++ toExecute [.inline line]) := by
  have hhead : (line ++ 0x0A :: more).head? ≠ some 0x2A := by
    cases line with
    | nil => simp
    | cons c line => exact h.noStar
  have htype : Query.determineType { Query.new with querybuf := line ++ 0x0A :: more } =
      { Query.new with querybuf := line ++ 0x0A :: more, reqtype := some .inline } := by
    rw [Query.determineType, if_neg (by simp [Query.new]), if_neg hhead]
  rw [inputStep, if_neg (by simp [Query.new]), htype, processRequest_inline rfl, processInlineBuffer_lf h rfl,
    toExecute_cons]
  simp only
  split
  · rw [List.nil_append]
    simp [toExecute, Query.reset, Query.new]
  · rw [if_neg (by rw [h.noQuit]; decide)]
    simp [toExecute, Query.reset, Query.new]

/-- All lines of a read. -/
theorem input_lf {lines : List Sds} (h : PlainLine line)
    (hlines : ∀ l ∈ lines, l ≠ [] ∧ PlainLine l ∧ PlainLine l.tail) {n : Nat}
    (hn : (line ++ 0x0A :: lfText lines).length < n) (actions : List Action) :
    loop inputStep (fun _ => .assertFailed) n ({ Query.new with querybuf := line ++ 0x0A :: lfText lines }, actions) =
      .done .new (actions ++ toExecute ((line :: lines.map List.tail).map .inline)) := by
  induction lines generalizing line n actions with
  | nil =>
    obtain ⟨n, rfl⟩ : ∃ m, n = m + 2 := ⟨n - 2, by simp [lfText] at hn; omega⟩
    have hstop : ∀ acts, inputStep ({ Query.new with querybuf := [] }, acts) = .inl (.done .new acts) :=
      fun acts => by
      rw [inputStep, if_pos (.inl rfl)]
      rfl
    rw [loop_more _ (inputStep_lf h actions)]
    exact loop_stop n (hstop _)
  | cons l lines ih =>
    obtain ⟨n, rfl⟩ : ∃ m, n = m + 1 := ⟨n - 1, by omega⟩
    obtain ⟨hne, -, htail⟩ := hlines l List.mem_cons_self
    have hnext : (lfText (l :: lines)).drop 1 = l.tail ++ 0x0A :: lfText lines := by
      cases l with
      | nil => exact absurd rfl hne
      | cons c l => simp [lfText]
    rw [loop_more _ (inputStep_lf h actions), hnext,
      ih htail (fun l' hl' => hlines l' (List.mem_cons_of_mem _ hl')) ?_ _, List.append_assoc, ← toExecute_append]
    · rfl
    · rw [← hnext, List.length_drop]
      rw [List.length_append, List.length_cons] at hn
      omega

theorem readerNext_lf {lines : List Sds} (hlines : ∀ l ∈ lines, l ≠ [] ∧ PlainLine l ∧ PlainLine l.tail)
    (hfit : (lfText lines).length ≤ iobufLen) (served : List Action) :
    readerNext ⟨.new, served⟩ (lfText lines) = some ⟨.new, served ++ toExecute ((lfSeen lines).map .inline)⟩ := by
  have hlen : ¬ (Query.new.querybuf ++ lfText lines).length > maxQuerybufLen := by
    rw [iobufLen] at hfit
    rw [Query.new, List.nil_append, maxQuerybufLen]
    omega
  rw [readerNext, readQueryFromClient, if_neg hlen, processInputBuffer]
  cases lines with
  | nil => rfl
  | cons line lines =>
    have htext : Query.new.querybuf ++ lfText (line :: lines) = line ++ 0x0A :: lfText lines := by
      simp [Query.new, lfText]
    rw [htext, input_lf (hlines line List.mem_cons_self).2.1 (fun l hl => hlines l (List.mem_cons_of_mem _ hl))
      (Nat.lt_succ_self _)]
    rfl

end LineFeed

/-- **Lines that LF alone ends are executed as they were sent only if each arrives in a read of its own**: of the lines
    that one read brings, all but the first lose their first byte. -/
theorem lf_lines_served (reads : List (List Sds))
    (hlines : ∀ g ∈ reads, ∀ l ∈ g, l ≠ [] ∧ PlainLine l ∧ PlainLine l.tail)
    (hfit : ∀ g ∈ reads, (lfText g).length ≤ iobufLen) :
    runEvents readerNext readerStart (reads.map lfText) =
      some ⟨.new, toExecute ((reads.flatMap lfSeen).map .inline)⟩ := by
  have hall : ∀ served, runEvents readerNext ⟨.new, served⟩ (reads.map lfText) =
      some ⟨.new, served ++ toExecute ((reads.flatMap lfSeen).map .inline)⟩ := by
    induction reads with
    | nil =>
      intro served
      simp [runEvents, toExecute]
    | cons g reads ih =>
      intro served
      rw [List.map_cons, runEvents, readerNext_lf (hlines g List.mem_cons_self) (hfit g List.mem_cons_self),
        Option.bind_some, ih (fun g' hg' => hlines g' (List.mem_cons_of_mem _ hg'))
          (fun g' hg' => hfit g' (List.mem_cons_of_mem _ hg')), List.append_assoc, ← toExecute_append,
        ← List.map_append, List.flatMap_cons]
  exact hall []

/-- Two commands of the application in one read. -/
theorem lf_lines_served_two :
    runEvents readerNext readerStart [chars "chat say bob hi\nnode say lamp on\n"] =
      some ⟨.new, [.execute [chars "chat", chars "say", chars "bob", chars "hi"],
        .execute [chars "ode", chars "say", chars "lamp", chars "on"]]⟩ :=
  lf_lines_served [[chars "chat say bob hi", chars "node say lamp on"]]
    (by
      intro g hg l hl
      rw [List.mem_singleton.1 hg] at hl
      simp only [List.mem_cons, List.not_mem_nil, or_false] at hl
      rcases hl with rfl | rfl
      · exact ⟨by decide, ⟨by decide, by decide, by decide, by decide, by decide, by decide⟩,
          ⟨by decide, by decide, by decide, by decide, by decide, by decide⟩⟩
      · exact ⟨by decide, ⟨by decide, by decide, by decide, by decide, by decide, by decide⟩,
          ⟨by decide, by decide, by decide, by decide, by decide, by decide⟩⟩)
    (by
      intro g hg
      rw [List.mem_singleton.1 hg]
      decide)

end SmartHome.Redis
