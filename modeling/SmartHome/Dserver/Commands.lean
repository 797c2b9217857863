/-
  Subject:   THE COMMANDS OF A CONNECTION (servernet.c of dserver), however its bytes come in.

  A connection is in `conn_read`, `conn_write` or `conn_closing`; no code sets the states `conn_nread`,
  `conn_swallow` and `conn_mwrite`, and `conn_listening` is that of another socket. `drive_machine` runs
  until a system call has to return something: `read()` in `try_read_network`, or `sendmsg()` in
  `transmit`. What they return is the event here, and what the code does up to the next of them is one
  step. Allocation succeeds.

  * `tokenizeLoop`, `processCommand` -- the tokenizer, which writes into the command, and whether the
    command is answered;
  * `tryReadCommand`, `connShrink`, `connSetState`, `makeRoom`, `drive`, `connNext` -- the source;
    `Step`, `connNext_step` -- what a system call comes to;
  * `commandOf` -- what `process_command` is called with for a line of the stream;
  * `tryReadCommand_none`, `tryReadCommand_line` -- what `try_read_command` makes of what is buffered;
  * `InStream` -- the invariant of every run; `inStream_step`;
  * **`commands_iff`** -- the commands are the lines of the stream exactly if the call of
    `try_read_network` that meets the end of the file has read no line end; `fullBuffer_lost` -- 2048 bytes.
-/
import SmartHome.Lib.Loop
import SmartHome.Lib.ReadBuffer

namespace SmartHome.Dserver

open SmartHome.Lib

/-! ## 1. A command -/

/-- What is read, and what is sent. -/
abbrev Bytes := List UInt8

/-- The loop of `tokenize_command` from a character on: `tok` are the characters since `s`. The tokens
    found, and the rest of the command with the ends of tokens overwritten. -/
def tokenizeLoop (ntokens : Nat) (tok : Bytes) : Bytes → List Bytes × Bytes
  | [] => (if tok = [] then [] else [tok], [])
  | e :: rest =>
    if e = 0x20 then
      if tok = [] then
        let r := tokenizeLoop ntokens [] rest
        (r.1, e :: r.2)
      else if ntokens + 1 < 7 then
        let r := tokenizeLoop (ntokens + 1) [] rest
        (tok :: r.1, 0 :: r.2)
      else ([tok], 0 :: rest)
    else
      let r := tokenizeLoop ntokens (tok ++ [e]) rest
      (r.1, e :: r.2)

/-- `loadbalance`. -/
def loadbalance : Bytes := "loadbalance".toList.map fun c => UInt8.ofNat c.toNat

/-- `process_command`: what it leaves of the command, and whether it calls `out_string`. The terminal
    token counts, so a command word and one more make three. -/
def processCommand (command : Bytes) : Bytes × Bool :=
  let r := tokenizeLoop 0 [] command
  (r.2, 3 ≤ r.1.length + 1 && r.1.head? == some loadbalance)

theorem length_tokenizeLoop : ∀ (command : Bytes) (ntokens : Nat) (tok : Bytes),
    (tokenizeLoop ntokens tok command).2.length = command.length
  | [], _, _ => rfl
  | e :: rest, ntokens, tok => by
    unfold tokenizeLoop
    split
    · split
      · exact congrArg (· + 1) (length_tokenizeLoop rest _ _)
      · split
        · exact congrArg (· + 1) (length_tokenizeLoop rest _ _)
        · rfl
    · exact congrArg (· + 1) (length_tokenizeLoop rest _ _)

/-! ## 2. The connection -/

/-- The states of a connection. -/
inductive ConnState where
  | read
  | write
  | closing
  deriving DecidableEq

/-- A connection: `rbuf` with `rsize` cells, of which `rbytes` are held from `rcurr` on. -/
structure Conn where
  state : ConnState
  buf : ReadBuffer UInt8
  sized : 0 < buf.cells.length

def Conn.rsize (c : Conn) : Nat := c.buf.cells.length
def Conn.rbytes (c : Conn) : Nat := c.buf.count

/-- `memchr(c->rcurr, '\n', c->rbytes)`, relative to `rcurr`. -/
def Conn.el (c : Conn) : Nat := c.buf.held.idxOf 0x0A

/-- Where the command ends: before the LF, or before a CR in front of it that is not the whole line. -/
def Conn.commandEnd (c : Conn) : Nat :=
  if c.el > 1 ∧ c.buf.held[c.el - 1]? = some 0x0D then c.el - 1 else c.el

theorem Conn.el_lt {c : Conn} (h : 0x0A ∈ c.buf.held) : c.el < c.rbytes := by
  have := List.idxOf_lt_length_of_mem h
  rwa [ReadBuffer.length_held] at this

theorem Conn.commandEnd_le (c : Conn) : c.commandEnd ≤ c.el := by
  unfold Conn.commandEnd
  split
  · exact Nat.sub_le _ _
  · exact Nat.le_refl _

/-- The string a buffer begins with. -/
def cString (bs : Bytes) : Bytes := bs.takeWhile (· != 0)

theorem length_cString_le (bs : Bytes) : (cString bs).length ≤ bs.length :=
  (List.takeWhile_prefix _).length_le

theorem length_processCommand (command : Bytes) : (processCommand command).1.length = command.length :=
  length_tokenizeLoop command 0 []

/-- The buffer with the end of the command overwritten. -/
def Conn.cutBuf (c : Conn) (h : 0x0A ∈ c.buf.held) : ReadBuffer UInt8 :=
  c.buf.poke c.commandEnd [0] (Nat.lt_of_le_of_lt c.commandEnd_le (c.el_lt h))

/-- The command: the string the buffer then begins with. -/
def Conn.command (c : Conn) (h : 0x0A ∈ c.buf.held) : Bytes := cString (c.cutBuf h).held

theorem Conn.command_le (c : Conn) (h : 0x0A ∈ c.buf.held) :
    0 + (processCommand (c.command h)).1.length ≤ (c.cutBuf h).count := by
  rw [Nat.zero_add, length_processCommand, ← (c.cutBuf h).length_held]
  exact length_cString_le _

/-- The buffer with the tokens of the command cut in place. -/
def Conn.tokenBuf (c : Conn) (h : 0x0A ∈ c.buf.held) : ReadBuffer UInt8 :=
  (c.cutBuf h).poke 0 (processCommand (c.command h)).1 (c.command_le h)

theorem Conn.line_le (c : Conn) (h : 0x0A ∈ c.buf.held) : c.el + 1 ≤ (c.tokenBuf h).count := c.el_lt h

theorem Conn.tokenBuf_length (c : Conn) (h : 0x0A ∈ c.buf.held) :
    (c.tokenBuf h).cells.length = c.buf.cells.length := by
  rw [Conn.tokenBuf, ReadBuffer.length_poke, Conn.cutBuf, ReadBuffer.length_poke]

/-- `try_read_command`: nothing without a line end; else the command it calls `process_command` with,
    and the connection after it. -/
def tryReadCommand (c : Conn) : Option (Bytes × Conn) :=
  if h : 0x0A ∈ c.buf.held then
    some (c.command h, {
      state := if (processCommand (c.command h)).2 then .write else c.state
      buf := (c.tokenBuf h).advance (c.el + 1) (c.line_le h)
      sized := Nat.lt_of_lt_of_eq c.sized (c.tokenBuf_length h).symm })
  else none

/-- `conn_shrink`, of the read buffer. -/
def connShrink (c : Conn) : Conn :=
  if h : 8192 < c.rsize ∧ c.rbytes < 2048 then
    { c with
      buf := c.buf.compact.resize 2048 0 (Nat.le_trans (Nat.le_of_eq (Nat.zero_add _)) (Nat.le_of_lt h.2))
      sized := by
        rw [ReadBuffer.length_resize]
        decide }
  else c

/-- `conn_set_state`. -/
def connSetState (c : Conn) (state : ConnState) : Conn :=
  if state ≠ c.state then { (if state = .read then connShrink c else c) with state := state } else c

/-- What `try_read_network` begins with: the fragment moves to the front of the buffer. -/
def moveToFront (c : Conn) : Conn :=
  { c with
    buf := c.buf.compact
    sized := by
      rw [ReadBuffer.length_compact]
      exact c.sized }

theorem Conn.double_le (c : Conn) : c.buf.start + c.buf.count ≤ c.rsize * 2 :=
  Nat.le_trans c.buf.bounds (Nat.le_mul_of_pos_right _ Nat.two_pos)

/-- What each round of its loop begins with: a full buffer is doubled. -/
def makeRoom (c : Conn) : Conn :=
  if c.rsize ≤ c.rbytes then
    { c with
      buf := c.buf.resize (c.rsize * 2) 0 c.double_le
      sized := by
        rw [ReadBuffer.length_resize]
        exact Nat.mul_pos c.sized Nat.two_pos }
  else c

/-- The bytes of a `read()`, behind those that are held. -/
def received (c : Conn) (bs : Bytes) (h : c.buf.start + c.buf.count + bs.length ≤ c.buf.cells.length) : Conn :=
  { c with
    buf := c.buf.append bs h
    sized := by
      rw [ReadBuffer.length_append]
      exact c.sized }

/-! ## 3. The machine -/

/-- What `read()` returns. -/
inductive ReadResult where
  | bytes (bs : Bytes)
  | again
  | eof
  | error

/-- What `transmit` returns. -/
inductive Transmit where
  | complete
  | incomplete
  | softError
  | hardError

/-- A system call returns. -/
inductive Event where
  | read (r : ReadResult)
  | transmit (t : Transmit)

/-- The connection at a system call, and what the client has sent that was not read. `got`: what this
    call of `try_read_network` has read, so that `gotdata` says whether it is empty. `commands`: what
    `process_command` was called with. -/
structure World where
  stream : Bytes
  conn : Conn
  got : Bytes
  commands : List Bytes

/-- One round of `drive_machine` up to the next system call. -/
def driveRound (w : World) : World ⊕ World :=
  match w.conn.state with
  | .read =>
    match tryReadCommand w.conn with
    | some (command, c) => .inr { w with conn := c, commands := w.commands ++ [command] }
    | none => .inl { w with conn := makeRoom (moveToFront w.conn), got := [] }
  | .write => .inl w
  | .closing => .inl w

/-- `drive_machine` up to the next system call: every command takes a byte at least. -/
def drive (w : World) : World := loop driveRound id (w.conn.rbytes + 1) w

/-- **A system call returns**, and the code goes on to the next one. After `EAGAIN` with nothing read the
    machine stops, and begins anew when the socket is readable; either way commands come first. -/
def connNext (w : World) : Event → Option World
  | .read r =>
    if w.conn.state = .read then
      match r with
      | .bytes bs =>
        if h : bs ≠ [] ∧ bs = w.stream.take bs.length ∧
            w.conn.buf.start + w.conn.buf.count + bs.length ≤ w.conn.buf.cells.length then
          let c := received w.conn bs h.2.2
          let w' : World := ⟨w.stream.drop bs.length, c, w.got ++ bs, w.commands⟩
          -- `res == avail`: the loop of `try_read_network` goes on
          if bs.length = w.conn.rsize - w.conn.rbytes then some { w' with conn := makeRoom c }
          else some (drive w')
        else none
      | .again => some (drive w)
      | .eof => if w.stream = [] then some { w with conn := connSetState w.conn .closing } else none
      | .error => some { w with conn := connSetState w.conn .closing }
    else none
  | .transmit t =>
    if w.conn.state = .write then
      match t with
      | .complete => some (drive { w with conn := connSetState w.conn .read })
      | .incomplete => some w
      | .softError => some w
      | .hardError => some { w with conn := connSetState w.conn .closing }
    else none

/-- No system call fails. -/
def Calm : World → Event → Prop
  | _, .read .error => False
  | _, .transmit .hardError => False
  | _, _ => True

/-- A new connection, with a buffer of any size, and what its client sends. -/
def start (cells : Bytes) (h : 0 < cells.length) (stream : Bytes) : World where
  stream := stream
  conn := ⟨.read, ⟨cells, 0, 0, Nat.zero_le _⟩, h⟩
  got := []
  commands := []

/-- **What a system call comes to**, by what it returns. -/
inductive Step (w : World) : Event → World → Prop where
  | filled (bs : Bytes) (hread : w.conn.state = .read) (hne : bs ≠ []) (hbs : bs = w.stream.take bs.length)
      (hfits : w.conn.buf.start + w.conn.buf.count + bs.length ≤ w.conn.buf.cells.length)
      (hfull : bs.length = w.conn.rsize - w.conn.rbytes) :
      Step w (.read (.bytes bs)) ⟨w.stream.drop bs.length, makeRoom (received w.conn bs hfits), w.got ++ bs, w.commands⟩
  | part (bs : Bytes) (hread : w.conn.state = .read) (hne : bs ≠ []) (hbs : bs = w.stream.take bs.length)
      (hfits : w.conn.buf.start + w.conn.buf.count + bs.length ≤ w.conn.buf.cells.length)
      (hlt : bs.length ≠ w.conn.rsize - w.conn.rbytes) :
      Step w (.read (.bytes bs))
        (drive ⟨w.stream.drop bs.length, received w.conn bs hfits, w.got ++ bs, w.commands⟩)
  | again (hread : w.conn.state = .read) : Step w (.read .again) (drive w)
  | eof (hread : w.conn.state = .read) (hstream : w.stream = []) :
      Step w (.read .eof) { w with conn := connSetState w.conn .closing }
  | readError (hread : w.conn.state = .read) : Step w (.read .error) { w with conn := connSetState w.conn .closing }
  | complete (hwrite : w.conn.state = .write) :
      Step w (.transmit .complete) (drive { w with conn := connSetState w.conn .read })
  | incomplete (hwrite : w.conn.state = .write) : Step w (.transmit .incomplete) w
  | softError (hwrite : w.conn.state = .write) : Step w (.transmit .softError) w
  | hardError (hwrite : w.conn.state = .write) :
      Step w (.transmit .hardError) { w with conn := connSetState w.conn .closing }

theorem connNext_step {w w' : World} {e : Event} (hs : connNext w e = some w') : Step w e w' := by
  cases e with
  | read r =>
    obtain ⟨hread, hs⟩ := Option.ite_none_right_eq_some.mp hs
    cases r with
    | bytes bs =>
      simp only at hs
      split at hs
      · rename_i hbs
        split at hs
        · rename_i hfull
          cases hs
          exact .filled bs hread hbs.1 hbs.2.1 hbs.2.2 hfull
        · rename_i hlt
          cases hs
          exact .part bs hread hbs.1 hbs.2.1 hbs.2.2 hlt
      · cases hs
    | again =>
      cases hs
      exact .again hread
    | eof =>
      obtain ⟨hstream, hs⟩ := Option.ite_none_right_eq_some.mp hs
      cases hs
      exact .eof hread hstream
    | error =>
      cases hs
      exact .readError hread
  | transmit t =>
    obtain ⟨hwrite, hs⟩ := Option.ite_none_right_eq_some.mp hs
    cases t with
    | complete =>
      cases hs
      exact .complete hwrite
    | incomplete =>
      cases hs
      exact .incomplete hwrite
    | softError =>
      cases hs
      exact .softError hwrite
    | hardError =>
      cases hs
      exact .hardError hwrite

/-! ## 4. What each function makes of what is buffered -/

/-- A line without its CR, if the line is more than that. -/
def stripped (l : Bytes) : Bytes :=
  if l.length > 1 ∧ l[l.length - 1]? = some 0x0D then l.take (l.length - 1) else l

/-- What `process_command` is called with for a line. -/
def commandOf (line : Bytes) : Bytes := cString (stripped line)

theorem cString_zero (a b : Bytes) : cString (a ++ 0 :: b) = cString a := by
  unfold cString
  induction a with
  | nil => rfl
  | cons x a ih =>
    rw [List.cons_append, List.takeWhile_cons, List.takeWhile_cons, ih]

theorem tryReadCommand_none {c : Conn} (h : 0x0A ∉ c.buf.held) : tryReadCommand c = none := dif_neg h

/-- **`try_read_command` takes the first line**, whatever it and the tokenizer write into the buffer. -/
theorem tryReadCommand_line {c : Conn} {l r : Bytes} (hheld : c.buf.held = l ++ 0x0A :: r) (hl : 0x0A ∉ l) :
    ∃ c', tryReadCommand c = some (commandOf l, c') ∧ c'.buf.held = r ∧
      c'.state = if (processCommand (commandOf l)).2 then .write else c.state := by
  have h : 0x0A ∈ c.buf.held := by
    rw [hheld]
    exact List.mem_append_right _ List.mem_cons_self
  have hel : c.el = l.length := by
    unfold Conn.el
    rw [hheld, List.idxOf_append_of_notMem hl, List.idxOf_cons_self, Nat.add_zero]
  have htake : c.buf.held.take c.commandEnd = stripped l := by
    unfold Conn.commandEnd stripped
    rw [hel, hheld]
    by_cases hc : l.length > 1 ∧ l[l.length - 1]? = some 0x0D
    · have hcr : (l ++ 0x0A :: r)[l.length - 1]? = some 0x0D := by
        rw [List.getElem?_append_left (by omega)]
        exact hc.2
      rw [if_pos ⟨hc.1, hcr⟩, if_pos hc, List.take_append_of_le_length (Nat.sub_le _ _)]
    · rw [if_neg fun hcr => hc ⟨hcr.1, ?_⟩, if_neg hc, List.take_left]
      have hget := hcr.2
      rw [List.getElem?_append_left (by omega)] at hget
      exact hget
  have hend : c.commandEnd + 1 ≤ c.buf.count := Nat.lt_of_le_of_lt c.commandEnd_le (c.el_lt h)
  have hcommand : c.command h = commandOf l := by
    rw [Conn.command, Conn.cutBuf, ReadBuffer.held_poke, overwrite, htake]
    exact cString_zero _ _
  rw [tryReadCommand, dif_pos h]
  refine ⟨_, congrArg (fun command => some (command, _)) hcommand, ?_, ?_⟩
  · -- both writes are before the line end
    have htext : 0 + (processCommand (c.command h)).1.length ≤ c.el + 1 := by
      have hstrip := congrArg List.length htake
      have hle := length_cString_le (stripped l)
      have hlt := c.commandEnd_le
      rw [List.length_take, ReadBuffer.length_held] at hstrip
      rw [length_processCommand, hcommand, commandOf]
      omega
    have hbehind : (c.tokenBuf h).held.drop (c.el + 1) = c.buf.held.drop (c.el + 1) := by
      rw [Conn.tokenBuf, ReadBuffer.held_poke, drop_overwrite ?_ htext, Conn.cutBuf, ReadBuffer.held_poke,
        drop_overwrite (by rw [ReadBuffer.length_held]; exact hend) (Nat.succ_le_succ c.commandEnd_le)]
      rw [ReadBuffer.length_held]
      exact c.command_le h
    show ((c.tokenBuf h).advance (c.el + 1) (c.line_le h)).held = r
    rw [ReadBuffer.held_advance, hbehind, hheld, hel]
    simp
  · rw [← hcommand]

theorem moveToFront_held (c : Conn) : (moveToFront c).buf.held = c.buf.held := c.buf.held_compact

theorem makeRoom_held (c : Conn) : (makeRoom c).buf.held = c.buf.held := by
  unfold makeRoom
  split
  · exact c.buf.held_resize (c.rsize * 2) 0 c.double_le
  · rfl

theorem makeRoom_state (c : Conn) : (makeRoom c).state = c.state := by
  unfold makeRoom
  split <;> rfl

/-- **There is room for a byte at least**, and the buffer is read into where it is free. -/
theorem makeRoom_room {c : Conn} (h : c.buf.start = 0) :
    (makeRoom c).buf.start = 0 ∧ (makeRoom c).rbytes < (makeRoom c).rsize := by
  have hsized := c.sized
  have hb := c.buf.bounds
  unfold makeRoom
  split
  · rename_i hfull
    refine ⟨h, ?_⟩
    show c.buf.count < (c.buf.resize (c.rsize * 2) 0 c.double_le).cells.length
    rw [ReadBuffer.length_resize]
    unfold Conn.rsize
    omega
  · rename_i hroom
    exact ⟨h, Nat.lt_of_not_le hroom⟩

theorem connShrink_held (c : Conn) : (connShrink c).buf.held = c.buf.held := by
  unfold connShrink
  split
  · rw [ReadBuffer.held_resize, ReadBuffer.held_compact]
  · rfl

theorem connSetState_held (c : Conn) (state : ConnState) : (connSetState c state).buf.held = c.buf.held := by
  unfold connSetState
  split
  · split
    · exact connShrink_held c
    · rfl
  · rfl

theorem connSetState_state (c : Conn) (state : ConnState) : (connSetState c state).state = state := by
  unfold connSetState
  split
  · rfl
  · rename_i h
    exact (not_not.mp h).symm

/-! ## 5. One round of the machine -/

/-- A round that goes on: a line is taken, and answered or not. -/
theorem driveRound_more {w w' : World} (h : driveRound w = .inr w') :
    w.conn.state = .read ∧ ∃ l r c, w.conn.buf.held = l ++ 0x0A :: r ∧ 0x0A ∉ l ∧ c.buf.held = r ∧
      c.state = (if (processCommand (commandOf l)).2 then .write else .read) ∧
      w' = { w with conn := c, commands := w.commands ++ [commandOf l] } := by
  unfold driveRound at h
  cases hs : w.conn.state with
  | write | closing =>
    rw [hs] at h
    cases h
  | read =>
    rw [hs] at h
    by_cases hlf : 0x0A ∈ w.conn.buf.held
    · obtain ⟨hcut, hnot⟩ := cut_at_idxOf hlf
      obtain ⟨c, hc, hr, hstate⟩ := tryReadCommand_line hcut hnot
      simp only [hc] at h
      rw [hs] at hstate
      exact ⟨rfl, _, _, c, hcut, hnot, hr, hstate, (Sum.inr.inj h).symm⟩
    · simp only [tryReadCommand_none hlf] at h
      cases h

/-- A round that ends: a reply is to be sent, or there is no line. -/
theorem driveRound_stop {w w' : World} (h : driveRound w = .inl w') :
    (w.conn.state ≠ .read ∧ w' = w) ∨ (w.conn.state = .read ∧ 0x0A ∉ w.conn.buf.held ∧
        w' = { w with conn := makeRoom (moveToFront w.conn), got := [] }) := by
  unfold driveRound at h
  cases hs : w.conn.state with
  | write | closing =>
    rw [hs] at h
    exact Or.inl ⟨by decide, (Sum.inl.inj h).symm⟩
  | read =>
    rw [hs] at h
    by_cases hlf : 0x0A ∈ w.conn.buf.held
    · obtain ⟨hcut, hnot⟩ := cut_at_idxOf hlf
      obtain ⟨c, hc, _⟩ := tryReadCommand_line hcut hnot
      simp only [hc] at h
      cases h
    · simp only [tryReadCommand_none hlf] at h
      exact Or.inr ⟨rfl, hlf, (Sum.inl.inj h).symm⟩

/-- Every line takes a byte at least. -/
theorem driveRound_lt {w w' : World} (h : driveRound w = .inr w') : w'.conn.rbytes < w.conn.rbytes := by
  obtain ⟨_, l, r, c, hheld, _, hr, _, rfl⟩ := driveRound_more h
  have h1 := congrArg List.length hheld
  have h2 := congrArg List.length hr
  rw [ReadBuffer.length_held] at h1 h2
  rw [List.length_append, List.length_cons] at h1
  show c.buf.count < w.conn.buf.count
  omega

/-- **The induction over `drive_machine`**: what every line taken keeps gives what the machine has at
    the next system call. -/
theorem drive_rule (I Q : World → Prop) (hmore : ∀ w w', I w → driveRound w = .inr w' → I w')
    (hstop : ∀ w w', I w → driveRound w = .inl w' → Q w') {w : World} (h : I w) : Q (drive w) :=
  loop_rule (fun w => w.conn.rbytes) I Q (fun _ _ => driveRound_lt) hstop hmore _ _ (Nat.lt_succ_self _) h

/-! ## 6. Every run -/

/-- The lines of the stream, so far: those handed over, then those still to come. -/
def LinesKept (s : Bytes) (w : World) : Prop :=
  ∃ taken, linesOf 0x0A s = taken ++ linesOf 0x0A (w.conn.buf.held ++ w.stream) ∧ w.commands = taken.map commandOf

/-- **The invariant of every run**: no line is lost or doubled; at `read()` the buffer begins with a
    fragment that has no line end, followed by what this call has read, and has room. -/
structure InStream (s : Bytes) (w : World) : Prop where
  lines : LinesKept s w
  fragment : w.conn.state = .read → ∃ old, w.conn.buf.held = old ++ w.got ∧ 0x0A ∉ old
  atRead : w.conn.state = .read → w.conn.buf.start = 0 ∧ w.conn.rbytes < w.conn.rsize

theorem drive_inStream {s : Bytes} {w : World} (h : LinesKept s w) : InStream s (drive w) := by
  refine drive_rule (LinesKept s) (InStream s) ?_ ?_ h
  · intro w w' hI hs
    obtain ⟨_, l, r, c, hheld, hl, hr, _, rfl⟩ := driveRound_more hs
    obtain ⟨taken, hlines, hcommands⟩ := hI
    rw [hheld, List.append_assoc, List.cons_append, linesOf_line _ hl] at hlines
    refine ⟨taken ++ [l], ?_, ?_⟩
    · rw [hlines, List.append_assoc, hr]
      rfl
    · rw [hcommands, List.map_append]
      rfl
  · intro w w' hI hs
    rcases driveRound_stop hs with ⟨hne, rfl⟩ | ⟨_, hlf, rfl⟩
    · exact ⟨hI, fun h => absurd h hne, fun h => absurd h hne⟩
    · refine ⟨?_, fun _ => ⟨w.conn.buf.held, ?_, hlf⟩, fun _ => makeRoom_room rfl⟩
      · unfold LinesKept
        rw [makeRoom_held, moveToFront_held]
        exact hI
      · rw [makeRoom_held, moveToFront_held, List.append_nil]

theorem linesKept_setState {s : Bytes} {w : World} (h : LinesKept s w) (state : ConnState) :
    LinesKept s { w with conn := connSetState w.conn state } := by
  unfold LinesKept
  rw [connSetState_held]
  exact h

/-- Bytes that come in move from the stream to the buffer. -/
theorem linesKept_received {s : Bytes} {w : World} (h : LinesKept s w) {bs : Bytes}
    (hbs : bs = w.stream.take bs.length)
    (hfits : w.conn.buf.start + w.conn.buf.count + bs.length ≤ w.conn.buf.cells.length) :
    LinesKept s ⟨w.stream.drop bs.length, received w.conn bs hfits, w.got ++ bs, w.commands⟩ := by
  have hstream : (w.conn.buf.append bs hfits).held ++ w.stream.drop bs.length = w.conn.buf.held ++ w.stream := by
    have hsplit := List.take_append_drop bs.length w.stream
    rw [← hbs] at hsplit
    rw [ReadBuffer.held_append, List.append_assoc, hsplit]
  unfold LinesKept
  rw [show (received w.conn bs hfits).buf = w.conn.buf.append bs hfits from rfl, hstream]
  exact h

/-- **One system call keeps the invariant**, if it does not fail. -/
theorem inStream_step {s : Bytes} {w w' : World} {e : Event} (h : InStream s w) (hcalm : Calm w e)
    (hs : connNext w e = some w') : InStream s w' := by
  cases connNext_step hs with
  | filled bs hread _ hbs hfits _ =>
    -- the same call reads on
    have hkept := linesKept_received h.lines hbs hfits
    obtain ⟨old, hold, hnot⟩ := h.fragment hread
    refine ⟨?_, fun _ => ⟨old, ?_, hnot⟩, fun _ => makeRoom_room (h.atRead hread).1⟩
    · unfold LinesKept at hkept ⊢
      rw [makeRoom_held]
      exact hkept
    · rw [makeRoom_held]
      show (w.conn.buf.append bs hfits).held = _
      rw [ReadBuffer.held_append, hold, List.append_assoc]
  | part bs _ _ hbs hfits _ => exact drive_inStream (linesKept_received h.lines hbs hfits)
  | again _ => exact drive_inStream h.lines
  | eof _ _ =>
    refine ⟨linesKept_setState h.lines _, fun hr => ?_, fun hr => ?_⟩
    · exact absurd ((connSetState_state w.conn .closing).symm.trans hr) (by decide)
    · exact absurd ((connSetState_state w.conn .closing).symm.trans hr) (by decide)
  | readError _ => exact hcalm.elim
  | complete _ => exact drive_inStream (linesKept_setState h.lines _)
  | incomplete | softError => exact h
  | hardError _ => exact hcalm.elim

theorem inStream_start (cells : Bytes) (hc : 0 < cells.length) (s : Bytes) :
    InStream s (start cells hc s) := by
  have hheld : (start cells hc s).conn.buf.held = [] := List.length_eq_zero_iff.mp (ReadBuffer.length_held _)
  refine ⟨?_, fun _ => ⟨[], hheld, List.not_mem_nil⟩, fun _ => ⟨rfl, hc⟩⟩
  unfold LinesKept
  rw [hheld]
  exact ⟨[], rfl, rfl⟩

/-- **The invariant holds throughout every run.** -/
theorem inStream_run {cells : Bytes} {hc : 0 < cells.length} {s : Bytes} {w : World}
    (hr : Reaches connNext Calm (start cells hc s) w) : InStream s w :=
  hr.invariant (InStream s) (inStream_start cells hc s) fun _ _ _ hI hok hs => inStream_step hI hok hs

/-- **The commands are the lines of the stream exactly if the call of `try_read_network` that meets the
    end of the file has read no line end before it**: for every stream, every size of the buffer and
    every way the bytes and the replies go. -/
theorem commands_iff (cells : Bytes) (hc : 0 < cells.length) (s : Bytes) (w w' : World)
    (hr : Reaches connNext Calm (start cells hc s) w) (heof : connNext w (.read .eof) = some w') :
    w'.commands = (linesOf 0x0A s).map commandOf ↔ 0x0A ∉ w.got := by
  have h := inStream_run hr
  cases connNext_step heof with
  | eof hread hstream =>
    obtain ⟨old, hold, hnot⟩ := h.fragment hread
    obtain ⟨taken, hlines, hcommands⟩ := h.lines
    rw [hstream, List.append_nil, hold] at hlines
    show w.commands = _ ↔ _
    rw [hlines, List.map_append, hcommands, List.self_eq_append_right, List.map_eq_nil_iff, linesOf_eq_nil,
      List.mem_append, not_or]
    exact ⟨fun hx => hx.2, fun hx => ⟨hnot, hx⟩⟩

section Equations

variable {w : World} (hread : w.conn.state = .read)

include hread

theorem connNext_eof (hstream : w.stream = []) :
    connNext w (.read .eof) = some { w with conn := connSetState w.conn .closing } := by
  unfold connNext
  simp only [if_pos hread, if_pos hstream]

variable (bs : Bytes) (hne : bs ≠ []) (hbs : bs = w.stream.take bs.length)
  (hfits : w.conn.buf.start + w.conn.buf.count + bs.length ≤ w.conn.buf.cells.length)

include hne hbs

theorem connNext_part (hlt : bs.length ≠ w.conn.rsize - w.conn.rbytes) :
    connNext w (.read (.bytes bs)) =
      some (drive ⟨w.stream.drop bs.length, received w.conn bs hfits, w.got ++ bs, w.commands⟩) := by
  unfold connNext
  simp only [if_pos hread]
  rw [dif_pos ⟨hne, hbs, hfits⟩, if_neg hlt]

theorem connNext_full (hfull : bs.length = w.conn.rsize - w.conn.rbytes) :
    connNext w (.read (.bytes bs)) =
      some ⟨w.stream.drop bs.length, makeRoom (received w.conn bs hfits), w.got ++ bs, w.commands⟩ := by
  unfold connNext
  simp only [if_pos hread]
  rw [dif_pos ⟨hne, hbs, hfits⟩, if_pos hfull]

end Equations

/-- A line in a buffer with room: it is taken before the end of the file. -/
theorem commands_iff_room :
    ∃ w w', Reaches connNext Calm (start [0, 0, 0, 0] (by decide) [0x61, 0x0D, 0x0A]) w ∧
      connNext w (.read .eof) = some w' ∧ w'.commands = [[0x61]] := by
  obtain ⟨w, hfirst, hread, hstream, hgot⟩ : ∃ w,
      connNext (start [0, 0, 0, 0] (by decide) [0x61, 0x0D, 0x0A]) (.read (.bytes [0x61, 0x0D, 0x0A])) = some w ∧
        w.conn.state = .read ∧ w.stream = [] ∧ 0x0A ∉ w.got :=
    ⟨_, connNext_part (w := start [0, 0, 0, 0] (by decide) [0x61, 0x0D, 0x0A]) rfl [0x61, 0x0D, 0x0A] (by decide) rfl
      (by decide) (by decide), by decide, by decide, by decide⟩
  have hrun : Reaches connNext Calm (start [0, 0, 0, 0] (by decide) [0x61, 0x0D, 0x0A]) w :=
    .step (.read (.bytes [0x61, 0x0D, 0x0A])) .start trivial hfirst
  have heof := connNext_eof hread hstream
  exact ⟨w, _, hrun, heof,
    (commands_iff [0, 0, 0, 0] (by decide) [0x61, 0x0D, 0x0A] w _ hrun heof).mpr hgot⟩

/-- A stream that fills the buffer of a new connection: the same call reads on. -/
theorem start_filled (cells : Bytes) (hc : 0 < cells.length) (s : Bytes) (hlen : s.length = cells.length) :
    ∃ w, connNext (start cells hc s) (.read (.bytes s)) = some w ∧ w.conn.state = .read ∧ w.stream = [] ∧
      w.commands = [] := by
  have hne : s ≠ [] := fun h => by
    rw [← hlen, h] at hc
    exact absurd hc (by decide)
  have hfits : (start cells hc s).conn.buf.start + (start cells hc s).conn.buf.count + s.length ≤
      (start cells hc s).conn.buf.cells.length := by
    show 0 + 0 + s.length ≤ cells.length
    omega
  exact ⟨_, connNext_full (w := start cells hc s) rfl s hne (List.take_length ..).symm hfits hlen, makeRoom_state _,
    List.drop_length .., rfl⟩

/-- **A stream that fills the buffer and ends is lost**: the read that fills it is followed by another
    one in the same call, which meets the end of the file. -/
theorem filled_lost (cells : Bytes) (hc : 0 < cells.length) (s : Bytes) (hlen : s.length = cells.length) :
    ∃ w w', Reaches connNext Calm (start cells hc s) w ∧ connNext w (.read .eof) = some w' ∧ w'.commands = [] := by
  obtain ⟨w, hfirst, hread, hstream, hnone⟩ := start_filled cells hc s hlen
  exact ⟨w, _, .step (.read (.bytes s)) .start trivial hfirst, connNext_eof hread hstream, hnone⟩

theorem newBuffer_pos : 0 < (List.replicate 2048 (0 : UInt8)).length := by
  rw [List.length_replicate]
  decide

/-- 2048 bytes, a line of 2047 characters with its LF, in the 2048 bytes of a new connection: `read()`
    returns all of them, then 0, and `process_command` is not called. -/
theorem fullBuffer_lost :
    ∃ w w', Reaches connNext Calm
        (start (List.replicate 2048 0) newBuffer_pos (List.replicate 2047 0x61 ++ [0x0A])) w ∧
      connNext w (.read .eof) = some w' ∧
      w'.commands ≠ (linesOf 0x0A (List.replicate 2047 0x61 ++ [0x0A])).map commandOf := by
  have hlen : (List.replicate 2047 0x61 ++ [0x0A] : Bytes).length = (List.replicate 2048 (0 : UInt8)).length := by
    rw [List.length_append, List.length_replicate, List.length_replicate, List.length_singleton]
  obtain ⟨w, w', hrun, heof, hnone⟩ := filled_lost _ newBuffer_pos _ hlen
  refine ⟨w, w', hrun, heof, fun h => ?_⟩
  rw [hnone] at h
  have hlf := linesOf_eq_nil.mp (List.map_eq_nil_iff.mp h.symm)
  exact hlf (List.mem_append_right _ List.mem_cons_self)

end SmartHome.Dserver
