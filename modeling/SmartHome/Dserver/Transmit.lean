/-
  Subject:   HOW A REPLY GETS OUT (`out_string`, `add_iov`, `transmit` and the state `conn_write` of servernet.c).

  A reply is put into `wbuf` and cut into pieces, the first of them of 1400 bytes at most. The pieces are
  entries of `iov`, and each message header of `msglist` takes some of them, one after the other. `sendmsg()`
  is given one header, and takes as many of its bytes as it likes; the entries that are done are taken off
  the header, and the one that is not is shortened.

  * `Outgoing`, `addMsghdr`, `ensureIovSpace`, `addIov`, `outString`, `consume`, `toSendmsg`, `sendNext` -- the
    source; pointers into `iov` and `wbuf` are indices;
  * `Tiles` -- the headers take the entries without gaps; `addIovLoop_spec` -- so they do when they are made;
  * `Pending` -- which bytes are still to be sent; `consume_pending`, `finish_pending` -- one result of `sendmsg()`;
  * **`reply_sent_once`** -- whatever `sendmsg()` returns, the bytes it takes are the reply, in order, none twice
    and none left out, and after the last the connection reads again; `reply_sent_once_split` -- a long reply.
-/
import Mathlib.Data.List.GetD
import SmartHome.Dserver.Commands

namespace SmartHome.Dserver

open SmartHome.Lib

/-! ## 1. The source -/

/-- An entry of `iov`: where in `wbuf`, and how many bytes. -/
structure Iovec where
  base : Nat
  len : Nat
  deriving DecidableEq, Repr

/-- An entry of `msglist`: where in `iov`, and how many entries. -/
structure Msghdr where
  iov : Nat
  iovlen : Nat
  deriving DecidableEq, Repr

/-- The half of a connection that sends. `iov` and `msglist` are what is allocated; `wcurr` is always `wbuf`. -/
structure Outgoing where
  wbuf : Bytes
  wbytes : Nat
  iov : List Iovec
  iovused : Nat
  msglist : List Msghdr
  msgused : Nat
  msgcurr : Nat
  msgbytes : Nat
  state : ConnState
  writeAndGo : ConnState
  wsize : wbuf.length = 2048
  iovsize : 0 < iov.length
  msgsize : 0 < msglist.length

/-- The lists `conn_new` allocates. -/
def newOutgoing : Outgoing where
  wbuf := List.replicate 2048 0
  wbytes := 0
  iov := List.replicate 400 ⟨0, 0⟩
  iovused := 0
  msglist := List.replicate 10 ⟨0, 0⟩
  msgused := 0
  msgcurr := 0
  msgbytes := 0
  state := .read
  writeAndGo := .read
  wsize := List.length_replicate
  iovsize := Nat.lt_of_lt_of_eq (by decide : 0 < 400) List.length_replicate.symm
  msgsize := Nat.lt_of_lt_of_eq (by decide : 0 < 10) List.length_replicate.symm

/-- The realloc of `add_msghdr`; what is in the new cells is not known, and zero here. -/
def growMsglist (o : Outgoing) : Outgoing :=
  if o.msglist.length = o.msgused then
    { o with
      msglist := o.msglist ++ List.replicate o.msglist.length ⟨0, 0⟩
      msgsize := by
        rw [List.length_append]
        exact Nat.add_pos_left o.msgsize _ }
  else o

/-- `add_msghdr`. -/
def addMsghdr (o : Outgoing) : Outgoing :=
  { growMsglist o with
    msglist := (growMsglist o).msglist.set o.msgused ⟨o.iovused, 0⟩
    msgbytes := 0
    msgused := o.msgused + 1
    msgsize := by
      rw [List.length_set]
      exact (growMsglist o).msgsize }

/-- The loop of `ensure_iov_space`. -/
def repoint : Nat → List Msghdr → List Msghdr
  | _, [] => []
  | iovnum, m :: ms => ⟨iovnum, m.iovlen⟩ :: repoint (iovnum + m.iovlen) ms

theorem length_repoint (iovnum : Nat) (ms : List Msghdr) : (repoint iovnum ms).length = ms.length := by
  induction ms generalizing iovnum with
  | nil => rfl
  | cons m ms ih => rw [repoint, List.length_cons, List.length_cons, ih]

/-- `ensure_iov_space`. -/
def ensureIovSpace (o : Outgoing) : Outgoing :=
  if o.iov.length ≤ o.iovused then
    { o with
      iov := o.iov ++ List.replicate o.iov.length ⟨0, 0⟩
      msglist := repoint 0 (o.msglist.take o.msgused) ++ o.msglist.drop o.msgused
      iovsize := by
        rw [List.length_append]
        exact Nat.add_pos_left o.iovsize _
      msgsize := by
        rw [List.length_append, length_repoint, ← List.length_append, List.take_append_drop]
        exact o.msgsize }
  else o

/-- `c->msglist[c->msgused - 1]`. -/
def Outgoing.last (o : Outgoing) : Msghdr := o.msglist.getD (o.msgused - 1) ⟨0, 0⟩

/-- An entry for the last header. -/
def putIov (o : Outgoing) (buf len : Nat) : Outgoing :=
  { o with
    iov := o.iov.set (o.last.iov + o.last.iovlen) ⟨buf, len⟩
    msgbytes := o.msgbytes + len
    iovused := o.iovused + 1
    msglist := o.msglist.set (o.msgused - 1) ⟨o.last.iov, o.last.iovlen + 1⟩
    iovsize := by
      rw [List.length_set]
      exact o.iovsize
    msgsize := by
      rw [List.length_set]
      exact o.msgsize }

/-- What a round of `add_iov` begins with. -/
def makeSpace (o : Outgoing) : Outgoing :=
  ensureIovSpace (if o.last.iovlen = 1024 ∨ (o.msgused = 1 ∧ 1400 ≤ o.msgbytes) then addMsghdr o else o)

/-- `leftover`; `limit_to_mtu` is from before a header was added. -/
def leftover (o : Outgoing) (len : Nat) : Nat :=
  if o.msgused = 1 ∧ 1400 < len + (makeSpace o).msgbytes then len + (makeSpace o).msgbytes - 1400 else 0

/-- The loop of `add_iov`; every round takes a byte at least. -/
def addIovLoop : Nat → Outgoing → Nat → Nat → Outgoing
  | 0, o, _, _ => o
  | rounds + 1, o, buf, len =>
    let taken := len - leftover o len
    if 0 < leftover o len then addIovLoop rounds (putIov (makeSpace o) buf taken) (buf + taken) (leftover o len)
    else putIov (makeSpace o) buf taken

/-- `add_iov`. -/
def addIov (o : Outgoing) (buf len : Nat) : Outgoing := addIovLoop (len + 1) o buf len

/-- `conn_shrink`, of the two lists. -/
def shrinkLists (o : Outgoing) : Outgoing :=
  { o with
    msglist := if 100 < o.msglist.length then o.msglist.take 10 else o.msglist
    iov := if 600 < o.iov.length then o.iov.take 400 else o.iov
    iovsize := by
      split
      · rw [List.length_take]
        omega
      · exact o.iovsize
    msgsize := by
      split
      · rw [List.length_take]
        omega
      · exact o.msgsize }

/-- `conn_set_state`. -/
def Outgoing.setState (o : Outgoing) (state : ConnState) : Outgoing :=
  if state ≠ o.state then { (if state = .read then shrinkLists o else o) with state := state } else o

/-- What `process_command` begins with. -/
def prepare (o : Outgoing) : Outgoing := addMsghdr { o with msgcurr := 0, msgused := 0, iovused := 0 }

/-- `SERVER_ERROR output line too long`. -/
def tooLong : Bytes := "SERVER_ERROR output line too long".toList.map fun c => UInt8.ofNat c.toNat

/-- What `out_string` puts into `wbuf`. -/
def replyText (str : Bytes) : Bytes := (if 2048 < str.length + 2 then tooLong else str) ++ [0x0D, 0x0A]

theorem length_replyText (str : Bytes) : 2 ≤ (replyText str).length ∧ (replyText str).length ≤ 2048 := by
  unfold replyText
  rw [List.length_append]
  split
  · decide
  · constructor
    · exact Nat.le_add_left _ _
    · show str.length + 2 ≤ 2048
      omega

/-- `out_string`; no code sets `noreply`. -/
def outString (o : Outgoing) (str : Bytes) : Outgoing :=
  { o with
    wbuf := replyText str ++ o.wbuf.drop (replyText str).length
    wbytes := (replyText str).length
    state := .write
    writeAndGo := .read
    wsize := by
      have h := length_replyText str
      have hw := o.wsize
      rw [List.length_append, List.length_drop]
      omega }

/-- What `sendmsg()` returns: a number of bytes, `EAGAIN`, or another error. -/
inductive SendResult where
  | sent (n : Nat)
  | again
  | error

/-- The header `sendmsg()` is given. -/
def Outgoing.current (o : Outgoing) : Msghdr := o.msglist.getD o.msgcurr ⟨0, 0⟩

/-- The bytes of an entry. -/
def Iovec.bytes (wbuf : Bytes) (e : Iovec) : Bytes := (wbuf.drop e.base).take e.len

/-- The bytes of entries. -/
def textOf (wbuf : Bytes) (es : List Iovec) : Bytes := es.flatMap (Iovec.bytes wbuf)

theorem textOf_cons (wbuf : Bytes) (e : Iovec) (es : List Iovec) :
    textOf wbuf (e :: es) = e.bytes wbuf ++ textOf wbuf es :=
  List.flatMap_cons

/-- The bytes `sendmsg()` is given. -/
def Outgoing.gathered (o : Outgoing) : Bytes := textOf o.wbuf ((o.iov.drop o.current.iov).take o.current.iovlen)

/-- The loop that takes off entries: `msg_iovlen`, `msg_iov` and `res` after it. -/
def consumeLoop (iov : List Iovec) : Nat → Nat → Nat → Nat × Nat × Nat
  | 0, p, res => (0, p, res)
  | iovlen + 1, p, res =>
    if (iov.getD p ⟨0, 0⟩).len ≤ res then consumeLoop iov iovlen (p + 1) (res - (iov.getD p ⟨0, 0⟩).len)
    else (iovlen + 1, p, res)

/-- The entry that was written in part. -/
def shorten (iov : List Iovec) (p res : Nat) : List Iovec :=
  if 0 < res then iov.set p ⟨(iov.getD p ⟨0, 0⟩).base + res, (iov.getD p ⟨0, 0⟩).len - res⟩ else iov

theorem length_shorten (iov : List Iovec) (p res : Nat) : (shorten iov p res).length = iov.length := by
  unfold shorten
  split
  · exact List.length_set
  · rfl

/-- `transmit` after `sendmsg()` has returned a number. -/
def consume (o : Outgoing) (n : Nat) : Outgoing :=
  let r := consumeLoop o.iov o.current.iovlen o.current.iov n
  { o with
    msglist := o.msglist.set o.msgcurr ⟨r.2.1, r.1⟩
    iov := shorten o.iov r.2.1 r.2.2
    iovsize := by
      rw [length_shorten]
      exact o.iovsize
    msgsize := by
      rw [List.length_set]
      exact o.msgsize }

/-- The beginning of `transmit`: a header that is done is left. -/
def advanceMsg (o : Outgoing) : Outgoing :=
  if o.msgcurr < o.msgused ∧ o.current.iovlen = 0 then { o with msgcurr := o.msgcurr + 1 } else o

/-- `TRANSMIT_COMPLETE`, if no header is left. -/
def finish (o : Outgoing) : Outgoing := if o.msgcurr < o.msgused then o else o.setState o.writeAndGo

/-- `drive_machine` in `conn_write` up to the next `sendmsg()`, or to `TRANSMIT_COMPLETE` and the state after it. -/
def toSendmsg (o : Outgoing) : Outgoing :=
  finish (advanceMsg (if o.iovused = 0 then addIov o 0 o.wbytes else o))

/-- A connection that sends, and what the socket has taken. -/
structure Sent where
  out : Outgoing
  accepted : Bytes

/-- **`sendmsg()` returns**, and the code goes on to the next call; after `EAGAIN` the machine stops, and begins
    anew when the socket is writable. -/
def sendNext (s : Sent) (r : SendResult) : Option Sent :=
  if s.out.state = .write then
    match r with
    | .sent n =>
      if 0 < n ∧ n ≤ s.out.gathered.length then
        some ⟨toSendmsg (consume s.out n), s.accepted ++ s.out.gathered.take n⟩
      else none
    | .again => some ⟨toSendmsg s.out, s.accepted⟩
    | .error => some ⟨s.out.setState .closing, s.accepted⟩
  else none

/-! ## 2. Headers and entries -/

/-- The headers in use. -/
def Outgoing.msgs (o : Outgoing) : List Msghdr := o.msglist.take o.msgused

/-- The entries in use. -/
def Outgoing.entries (o : Outgoing) : List Iovec := o.iov.take o.iovused

theorem getD_take {α : Type} {l : List α} {used i : Nat} (h : i < used) (d : α) :
    (l.take used).getD i d = l.getD i d := by
  rw [List.getD_eq_getElem?_getD, List.getD_eq_getElem?_getD, List.getElem?_take_of_lt h]

/-- A header in use, where the source reads it. -/
theorem msglist_getD (o : Outgoing) {i : Nat} (hi : i < o.msgs.length) (d : Msghdr) :
    o.msglist.getD i d = o.msgs[i] := by
  have hused : i < o.msgused := Nat.lt_of_lt_of_le hi (List.length_take_le _ _)
  rw [← getD_take hused]
  exact List.getD_eq_getElem _ _ hi

/-- **Headers take the entries from `a` up to `b`**, one header after the other, without gaps. -/
def Tiles : Nat → Nat → List Msghdr → Prop
  | a, b, [] => a = b
  | a, b, m :: ms => m.iov = a ∧ Tiles (a + m.iovlen) b ms

theorem tiles_append {a b : Nat} {ms ms' : List Msghdr} :
    Tiles a b (ms ++ ms') ↔ ∃ c, Tiles a c ms ∧ Tiles c b ms' := by
  induction ms generalizing a with
  | nil =>
    constructor
    · exact fun h => ⟨a, rfl, h⟩
    · rintro ⟨c, hc, h⟩
      exact hc ▸ h
  | cons m ms ih =>
    rw [List.cons_append, Tiles, ih]
    constructor
    · rintro ⟨hm, c, h, h'⟩
      exact ⟨c, ⟨hm, h⟩, h'⟩
    · rintro ⟨c, ⟨hm, h⟩, h'⟩
      exact ⟨hm, c, h, h'⟩

/-- Where headers take the entries from the first on, `ensure_iov_space` points them to where they were. -/
theorem repoint_tiles {a b : Nat} {ms : List Msghdr} (h : Tiles a b ms) : repoint a ms = ms := by
  induction ms generalizing a with
  | nil => rfl
  | cons m ms ih =>
    obtain ⟨hm, h⟩ := h
    rw [repoint, ih h, ← hm]

theorem tiles_le {a b : Nat} {ms : List Msghdr} (h : Tiles a b ms) : a ≤ b := by
  induction ms generalizing a with
  | nil => exact Nat.le_of_eq h
  | cons m ms ih => exact Nat.le_trans (Nat.le_add_right _ _) (ih h.2)

/-- Headers under construction: there is a last one, and they take all entries in use. -/
structure Built (o : Outgoing) : Prop where
  used : 0 < o.msgused ∧ o.msgused ≤ o.msglist.length
  room : o.iovused ≤ o.iov.length
  tiles : Tiles 0 o.iovused o.msgs

section Build

variable {o : Outgoing}

theorem growMsglist_room (h : o.msgused ≤ o.msglist.length) : o.msgused < (growMsglist o).msglist.length := by
  unfold growMsglist
  split
  · show o.msgused < (o.msglist ++ List.replicate o.msglist.length _).length
    have hpos := o.msgsize
    rw [List.length_append, List.length_replicate]
    omega
  · omega

theorem growMsglist_take (h : o.msgused ≤ o.msglist.length) : (growMsglist o).msglist.take o.msgused = o.msgs := by
  unfold growMsglist
  split
  · exact List.take_append_of_le_length h
  · rfl

/-- A header more, for no entry yet. -/
theorem msgs_addMsghdr (h : o.msgused ≤ o.msglist.length) : (addMsghdr o).msgs = o.msgs ++ [⟨o.iovused, 0⟩] := by
  show ((growMsglist o).msglist.set o.msgused _).take (o.msgused + 1) = _
  have hroom := growMsglist_room h
  rw [List.take_succ_eq_append_getElem (by rw [List.length_set]; exact hroom), List.getElem_set_self,
    List.take_set_of_le (Nat.le_refl _), growMsglist_take h]

/-- What no function that makes headers and entries touches. -/
def Outgoing.frame (o : Outgoing) : Bytes × Nat × ConnState × ConnState :=
  (o.wbuf, o.msgcurr, o.state, o.writeAndGo)

theorem growMsglist_iov (o : Outgoing) : (growMsglist o).iov = o.iov ∧ (growMsglist o).iovused = o.iovused := by
  unfold growMsglist
  split <;> exact ⟨rfl, rfl⟩

theorem frame_addMsghdr (o : Outgoing) : (addMsghdr o).frame = o.frame := by
  show (growMsglist o).frame = o.frame
  unfold growMsglist
  split <;> rfl

theorem entries_addMsghdr (o : Outgoing) : (addMsghdr o).iov = o.iov ∧ (addMsghdr o).iovused = o.iovused :=
  growMsglist_iov o

theorem built_addMsghdr (h : Built o) : Built (addMsghdr o) := by
  obtain ⟨hiov, hused⟩ := entries_addMsghdr o
  refine ⟨⟨Nat.succ_pos _, ?_⟩, ?_, ?_⟩
  · show o.msgused + 1 ≤ ((growMsglist o).msglist.set _ _).length
    rw [List.length_set]
    exact growMsglist_room h.used.2
  · rw [hiov, hused]
    exact h.room
  · rw [hused, msgs_addMsghdr h.used.2, tiles_append]
    exact ⟨o.iovused, h.tiles, rfl, rfl⟩

/-- **More room for entries changes nothing else.** -/
theorem ensureIovSpace_spec (h : Built o) :
    Built (ensureIovSpace o) ∧ (ensureIovSpace o).iovused < (ensureIovSpace o).iov.length ∧
      (ensureIovSpace o).iovused = o.iovused ∧ (ensureIovSpace o).entries = o.entries ∧
      (ensureIovSpace o).msgs = o.msgs ∧ (ensureIovSpace o).msgbytes = o.msgbytes ∧
        (ensureIovSpace o).frame = o.frame := by
  unfold ensureIovSpace
  split
  · rename_i hfull
    have hsame : repoint 0 (o.msglist.take o.msgused) ++ o.msglist.drop o.msgused = o.msglist := by
      rw [show o.msglist.take o.msgused = o.msgs from rfl, repoint_tiles h.tiles]
      exact List.take_append_drop _ _
    have hmsgs : (repoint 0 (o.msglist.take o.msgused) ++ o.msglist.drop o.msgused).take o.msgused = o.msgs := by
      rw [hsame]
      rfl
    have hroom : o.iovused < (o.iov ++ List.replicate o.iov.length (⟨0, 0⟩ : Iovec)).length := by
      have hpos := o.iovsize
      have hle := h.room
      rw [List.length_append, List.length_replicate]
      omega
    refine ⟨⟨⟨h.used.1, ?_⟩, Nat.le_of_lt hroom, ?_⟩, hroom, rfl, List.take_append_of_le_length h.room, hmsgs, rfl, rfl⟩
    · show o.msgused ≤ (repoint 0 (o.msglist.take o.msgused) ++ o.msglist.drop o.msgused).length
      rw [hsame]
      exact h.used.2
    · show Tiles 0 o.iovused ((repoint 0 (o.msglist.take o.msgused) ++ o.msglist.drop o.msgused).take o.msgused)
      rw [hmsgs]
      exact h.tiles
  · rename_i hroom
    exact ⟨h, Nat.lt_of_not_le hroom, rfl, rfl, rfl, rfl, rfl⟩

/-- The last header in use. -/
theorem Built.last (h : Built o) : o.msgs = o.msgs.dropLast ++ [o.last] ∧ o.last.iov + o.last.iovlen = o.iovused := by
  have hlen : o.msgs.length = o.msgused := List.length_take_of_le h.used.2
  have hne : o.msgs ≠ [] := by
    intro hnil
    have hused := h.used.1
    rw [← hlen, hnil] at hused
    exact absurd hused (Nat.lt_irrefl 0)
  have hlast : o.msgs.getLast hne = o.last := by
    have hlt : o.msgs.length - 1 < o.msgs.length := Nat.sub_lt (List.length_pos_iff.2 hne) Nat.one_pos
    rw [List.getLast_eq_getElem, Outgoing.last, ← hlen, msglist_getD o hlt]
  have hsplit : o.msgs = o.msgs.dropLast ++ [o.last] := by
    rw [← hlast]
    exact (List.dropLast_append_getLast hne).symm
  refine ⟨hsplit, ?_⟩
  have htiles := h.tiles
  rw [hsplit, tiles_append] at htiles
  obtain ⟨c, -, hc, hend⟩ := htiles
  rw [hc]
  exact hend

/-- **An entry more**, the last header's. -/
theorem putIov_spec (h : Built o) (hroom : o.iovused < o.iov.length) (buf len : Nat) :
    Built (putIov o buf len) ∧ (putIov o buf len).entries = o.entries ++ [⟨buf, len⟩] ∧
      (putIov o buf len).msgs = o.msgs.dropLast ++ [⟨o.last.iov, o.last.iovlen + 1⟩] ∧
      (putIov o buf len).frame = o.frame := by
  obtain ⟨hsplit, hend⟩ := h.last
  have hlen : o.msgs.length = o.msgused := List.length_take_of_le h.used.2
  have hmsgs : (putIov o buf len).msgs = o.msgs.dropLast ++ [⟨o.last.iov, o.last.iovlen + 1⟩] := by
    show (o.msglist.set (o.msgused - 1) _).take o.msgused = _
    have hset : (o.msglist.set (o.msgused - 1) ⟨o.last.iov, o.last.iovlen + 1⟩).take o.msgused =
        o.msgs.set (o.msgused - 1) ⟨o.last.iov, o.last.iovlen + 1⟩ := List.take_set
    have hfront : o.msgs.dropLast.length = o.msgused - 1 := by rw [List.length_dropLast, hlen]
    rw [hset]
    conv_lhs => rw [hsplit]
    rw [List.set_append_right _ _ (Nat.le_of_eq hfront), hfront, Nat.sub_self]
    rfl
  have hentries : (putIov o buf len).entries = o.entries ++ [⟨buf, len⟩] := by
    show (o.iov.set (o.last.iov + o.last.iovlen) _).take (o.iovused + 1) = _
    rw [hend, List.take_succ_eq_append_getElem (by rw [List.length_set]; exact hroom), List.getElem_set_self,
      List.take_set_of_le (Nat.le_refl _)]
    rfl
  refine ⟨⟨⟨h.used.1, ?_⟩, ?_, ?_⟩, hentries, hmsgs, rfl⟩
  · show o.msgused ≤ (o.msglist.set _ _).length
    rw [List.length_set]
    exact h.used.2
  · show o.iovused + 1 ≤ (o.iov.set _ _).length
    rw [List.length_set]
    exact hroom
  · show Tiles 0 (o.iovused + 1) (putIov o buf len).msgs
    have htiles := h.tiles
    rw [hsplit, tiles_append] at htiles
    obtain ⟨c, hc, hiov, -⟩ := htiles
    rw [hmsgs, tiles_append]
    refine ⟨c, hc, hiov, ?_⟩
    show c + (o.last.iovlen + 1) = o.iovused + 1
    rw [← hend, hiov, Nat.add_assoc]

/-- Every header has an entry. -/
def Filled (o : Outgoing) : Prop := ∀ m ∈ o.msgs, 0 < m.iovlen

/-- One header, without an entry. -/
def Fresh (o : Outgoing) : Prop := o.msgs = [⟨0, 0⟩] ∧ o.msgbytes = 0

theorem Fresh.last (h : Fresh o) (hb : Built o) : o.last = ⟨0, 0⟩ := by
  have hsplit := hb.last.1
  rw [h.1] at hsplit
  exact (List.cons.inj hsplit).1.symm

/-- The beginning of a round: there is room for an entry, and all headers but the last have one. -/
theorem makeSpace_spec (h : Built o) (hopen : Filled o ∨ Fresh o) :
    Built (makeSpace o) ∧ (makeSpace o).iovused < (makeSpace o).iov.length ∧ (makeSpace o).entries = o.entries ∧
      (∀ m ∈ (makeSpace o).msgs.dropLast, 0 < m.iovlen) ∧ (o.msgused = 1 → (makeSpace o).msgbytes < 1400) ∧
      (makeSpace o).frame = o.frame := by
  unfold makeSpace
  split
  · rename_i hadd
    -- there is something in the last header
    have hfilled : Filled o := by
      refine hopen.resolve_right fun hfresh => ?_
      rcases hadd with hmax | ⟨-, hbytes⟩
      · rw [hfresh.last h] at hmax
        exact absurd hmax (by decide)
      · rw [hfresh.2] at hbytes
        exact absurd hbytes (by decide)
    obtain ⟨hbuilt, hroom, -, hentries, hmsgs, hbytes, hframe⟩ := ensureIovSpace_spec (built_addMsghdr h)
    obtain ⟨hiov, hused⟩ := entries_addMsghdr o
    refine ⟨hbuilt, hroom, ?_, ?_, fun _ => ?_, hframe.trans (frame_addMsghdr o)⟩
    · rw [hentries, Outgoing.entries, hiov, hused]
      rfl
    · rw [hmsgs, msgs_addMsghdr h.used.2, List.dropLast_concat]
      exact hfilled
    · rw [hbytes]
      exact (by decide : 0 < 1400)
  · rename_i hadd
    obtain ⟨hbuilt, hroom, -, hentries, hmsgs, hbytes, hframe⟩ := ensureIovSpace_spec h
    refine ⟨hbuilt, hroom, hentries, ?_, fun hone => ?_, hframe⟩
    · rw [hmsgs]
      rcases hopen with hfilled | hfresh
      · exact fun m hm => hfilled m ((List.dropLast_sublist _).mem hm)
      · rw [hfresh.1]
        exact fun m hm => absurd hm List.not_mem_nil
    · rw [hbytes]
      exact Nat.lt_of_not_le fun hle => hadd (.inr ⟨hone, hle⟩)

/-- **A round of `add_iov`** makes one entry, of a byte at least. -/
theorem round_spec (h : Built o) (hopen : Filled o ∨ Fresh o) (buf : Nat) {len : Nat} (hlen : 0 < len) :
    leftover o len < len ∧ Built (putIov (makeSpace o) buf (len - leftover o len)) ∧
      Filled (putIov (makeSpace o) buf (len - leftover o len)) ∧
      (putIov (makeSpace o) buf (len - leftover o len)).entries = o.entries ++ [⟨buf, len - leftover o len⟩] ∧
      (putIov (makeSpace o) buf (len - leftover o len)).frame = o.frame := by
  obtain ⟨hbuilt, hroom, hentries, hfront, hbytes, hframe⟩ := makeSpace_spec h hopen
  obtain ⟨hput, hputEntries, hputMsgs, hputFrame⟩ := putIov_spec hbuilt hroom buf (len - leftover o len)
  refine ⟨?_, hput, ?_, ?_, hputFrame.trans hframe⟩
  · unfold leftover
    split
    · rename_i hlimit
      have := hbytes hlimit.1
      omega
    · exact hlen
  · unfold Filled
    rw [hputMsgs]
    intro m hm
    rcases List.mem_append.1 hm with hm | hm
    · exact hfront m hm
    · rw [List.mem_singleton.1 hm]
      exact Nat.succ_pos _
  · rw [hputEntries, hentries]

/-- Entries one after the other for the bytes from `a` to `b`. -/
def Covers : Nat → Nat → List Iovec → Prop
  | a, b, [] => a = b
  | a, b, e :: es => e.base = a ∧ 0 < e.len ∧ Covers (a + e.len) b es

/-- **`add_iov` covers what it is given.** -/
theorem addIovLoop_spec {rounds : Nat} (h : Built o) (hopen : Filled o ∨ Fresh o) {buf len : Nat} (hlen : 0 < len)
    (hrounds : len ≤ rounds) :
    Built (addIovLoop rounds o buf len) ∧ Filled (addIovLoop rounds o buf len) ∧
      (addIovLoop rounds o buf len).frame = o.frame ∧
      ∃ es, (addIovLoop rounds o buf len).entries = o.entries ++ es ∧ Covers buf (buf + len) es := by
  induction rounds generalizing o buf len with
  | zero => omega
  | succ rounds ih =>
    obtain ⟨hless, hbuilt, hfilled, hentries, hframe⟩ := round_spec h hopen buf hlen
    rw [addIovLoop]
    by_cases hleft : 0 < leftover o len
    · rw [if_pos hleft]
      obtain ⟨hb, hf, hfr, es, hes, hcovers⟩ := @ih _ hbuilt (.inl hfilled) (buf + (len - leftover o len)) _ hleft
        (by omega)
      refine ⟨hb, hf, hfr.trans hframe, ⟨buf, len - leftover o len⟩ :: es, ?_, rfl, ?_, ?_⟩
      · rw [hes, hentries, List.append_assoc]
        rfl
      · show 0 < len - leftover o len
        omega
      · rw [show buf + len = buf + (len - leftover o len) + leftover o len by omega]
        exact hcovers
    · rw [if_neg hleft]
      refine ⟨hbuilt, hfilled, hframe, [⟨buf, len - leftover o len⟩], hentries, rfl, ?_, ?_⟩
      · show 0 < len - leftover o len
        omega
      · show buf + (len - leftover o len) = buf + len
        omega

theorem covers_le {a b : Nat} {es : List Iovec} (h : Covers a b es) : a ≤ b := by
  induction es generalizing a with
  | nil => exact Nat.le_of_eq h
  | cons e es ih => exact Nat.le_trans (Nat.le_add_right _ _) (ih h.2.2)

theorem textOf_covers {wbuf : Bytes} {a b : Nat} {es : List Iovec} (h : Covers a b es) :
    textOf wbuf es = (wbuf.drop a).take (b - a) := by
  induction es generalizing a with
  | nil =>
    have hab : a = b := h
    rw [hab, Nat.sub_self, List.take_zero]
    rfl
  | cons e es ih =>
    obtain ⟨hbase, -, hrest⟩ := h
    have hle := covers_le hrest
    rw [textOf_cons, ih hrest, Iovec.bytes, hbase, ← List.drop_drop,
      show b - a = e.len + (b - (a + e.len)) by omega, List.take_add]

end Build

/-! ## 3. What is still to be sent -/

/-- An entry of a byte at least, inside the buffer. -/
def Iovec.Valid (wbuf : Bytes) (e : Iovec) : Prop := 0 < e.len ∧ e.base + e.len ≤ wbuf.length

theorem length_bytes {wbuf : Bytes} {e : Iovec} (h : e.Valid wbuf) : (e.bytes wbuf).length = e.len := by
  have hin := h.2
  rw [Iovec.bytes, List.length_take, List.length_drop]
  omega

/-- **The bytes still to be sent are `rest`**: those of the entries from the current header's on. The current
    header may be done; those behind it are not. -/
structure Pending (o : Outgoing) (rest : Bytes) : Prop where
  curr : o.msgcurr < o.msgused ∧ o.msgused ≤ o.msglist.length
  room : 0 < o.iovused ∧ o.iovused ≤ o.iov.length
  tiles : Tiles o.current.iov o.iovused (o.msgs.drop o.msgcurr)
  filled : ∀ m ∈ o.msgs.drop (o.msgcurr + 1), 0 < m.iovlen
  valid : ∀ e ∈ o.entries.drop o.current.iov, e.Valid o.wbuf
  rest : textOf o.wbuf (o.entries.drop o.current.iov) = rest

section Consume

variable {wbuf : Bytes}

/-- The loop that takes off entries leaves the same bytes, up to `res` of them. -/
theorem consumeLoop_spec {es : List Iovec} {l p res : Nat} (hl : p + l ≤ es.length)
    (hvalid : ∀ e ∈ es.drop p, e.Valid wbuf) (hres : res ≤ (textOf wbuf ((es.drop p).take l)).length) :
    let r := consumeLoop es l p res
    p ≤ r.2.1 ∧ r.2.1 + r.1 = p + l ∧ (textOf wbuf (es.drop r.2.1)).drop r.2.2 = (textOf wbuf (es.drop p)).drop res ∧
      (0 < r.2.2 → 0 < r.1 ∧ r.2.2 < (es.getD r.2.1 ⟨0, 0⟩).len) := by
  induction l generalizing p res with
  | zero =>
    rw [List.take_zero] at hres
    have hzero : res = 0 := Nat.le_zero.1 hres
    subst hzero
    exact ⟨Nat.le_refl _, rfl, rfl, fun h => absurd h (Nat.lt_irrefl 0)⟩
  | succ l ih =>
    have hp : p < es.length := by omega
    have hdrop : es.drop p = es[p] :: es.drop (p + 1) := List.drop_eq_getElem_cons hp
    have hget : es.getD p ⟨0, 0⟩ = es[p] := List.getD_eq_getElem _ _ hp
    rw [hdrop] at hvalid
    have hlen := length_bytes (hvalid _ List.mem_cons_self)
    rw [consumeLoop, hget]
    by_cases hdone : es[p].len ≤ res
    · rw [if_pos hdone]
      have hres' : res - es[p].len ≤ (textOf wbuf ((es.drop (p + 1)).take l)).length := by
        rw [hdrop, List.take_succ_cons, textOf_cons, List.length_append, hlen] at hres
        omega
      obtain ⟨hle, hend, htext, hpart⟩ := ih (by omega) (fun e he => hvalid e (List.mem_cons_of_mem _ he)) hres'
      refine ⟨by omega, by omega, htext.trans ?_, hpart⟩
      have hfirst : (es[p].bytes wbuf).drop res = [] := List.drop_eq_nil_of_le (by rw [hlen]; exact hdone)
      rw [hdrop, textOf_cons, List.drop_append, hfirst, List.nil_append, hlen]
    · rw [if_neg hdone]
      refine ⟨Nat.le_refl _, rfl, rfl, fun _ => ⟨Nat.succ_pos _, ?_⟩⟩
      show res < (es.getD p ⟨0, 0⟩).len
      rw [hget]
      exact Nat.lt_of_not_le hdone

/-- What `shorten` does to the bytes from there on. -/
theorem shorten_spec {es : List Iovec} {p res : Nat} (hvalid : ∀ e ∈ es.drop p, e.Valid wbuf)
    (hpart : 0 < res → p < es.length ∧ res < (es.getD p ⟨0, 0⟩).len) :
    textOf wbuf ((shorten es p res).drop p) = (textOf wbuf (es.drop p)).drop res ∧
      ∀ e ∈ (shorten es p res).drop p, e.Valid wbuf := by
  unfold shorten
  split
  · rename_i hres
    obtain ⟨hp, hlt⟩ := hpart hres
    have hget : es.getD p ⟨0, 0⟩ = es[p] := List.getD_eq_getElem _ _ hp
    have hdrop : es.drop p = es[p] :: es.drop (p + 1) := List.drop_eq_getElem_cons hp
    rw [hget] at hlt ⊢
    have hnew : (es.set p ⟨es[p].base + res, es[p].len - res⟩).drop p =
        ⟨es[p].base + res, es[p].len - res⟩ :: es.drop (p + 1) := by
      rw [List.drop_eq_getElem_cons (by rw [List.length_set]; exact hp), List.getElem_set_self,
        List.drop_set_of_lt (Nat.lt_succ_self p)]
    rw [hdrop] at hvalid
    have hentry := hvalid _ List.mem_cons_self
    have hlen := length_bytes hentry
    have hbytes : Iovec.bytes wbuf ⟨es[p].base + res, es[p].len - res⟩ = (es[p].bytes wbuf).drop res := by
      show (wbuf.drop (es[p].base + res)).take (es[p].len - res) = ((wbuf.drop es[p].base).take es[p].len).drop res
      rw [List.drop_take, List.drop_drop]
    rw [hnew, hdrop]
    constructor
    · rw [textOf_cons, textOf_cons, hbytes, List.drop_append_of_le_length (by rw [hlen]; omega)]
    · intro e he
      rcases List.mem_cons.1 he with rfl | he
      · have hin := hentry.2
        refine ⟨?_, ?_⟩
        · show 0 < es[p].len - res
          omega
        · show es[p].base + res + (es[p].len - res) ≤ wbuf.length
          omega
      · exact hvalid e (List.mem_cons_of_mem _ he)
  · rename_i hres
    have hzero : res = 0 := Nat.eq_zero_of_not_pos hres
    subst hzero
    exact ⟨rfl, hvalid⟩

/-- Only entries in use are looked at. -/
theorem consumeLoop_take {iov : List Iovec} {used l p res : Nat} (h : p + l ≤ used) :
    consumeLoop iov l p res = consumeLoop (iov.take used) l p res := by
  induction l generalizing p res with
  | zero => rfl
  | succ l ih =>
    rw [consumeLoop, consumeLoop, getD_take (by omega), ih (by omega)]

theorem shorten_take {iov : List Iovec} {used p res : Nat} (h : 0 < res → p < used) :
    (shorten iov p res).take used = shorten (iov.take used) p res := by
  unfold shorten
  split
  · rename_i hres
    rw [getD_take (h hres)]
    exact List.take_set
  · rfl

end Consume

section Sending

variable {o : Outgoing} {rest : Bytes}

theorem headers (h : o.msgcurr < o.msgused ∧ o.msgused ≤ o.msglist.length) :
    o.msgs.drop o.msgcurr = o.current :: o.msgs.drop (o.msgcurr + 1) := by
  have hlt : o.msgcurr < o.msgs.length := by
    rw [Outgoing.msgs, List.length_take_of_le h.2]
    exact h.1
  rw [List.drop_eq_getElem_cons hlt, Outgoing.current, msglist_getD o hlt]

/-- The entries of the current header are in use, and the others begin behind them. -/
theorem Pending.behind (h : Pending o rest) :
    o.current.iov + o.current.iovlen ≤ o.iovused ∧
      Tiles (o.current.iov + o.current.iovlen) o.iovused (o.msgs.drop (o.msgcurr + 1)) := by
  have htiles := h.tiles
  rw [headers h.curr] at htiles
  exact ⟨tiles_le htiles.2, htiles.2⟩

/-- What `sendmsg()` is given are the first of the bytes still to be sent. -/
theorem Pending.gathered (h : Pending o rest) :
    o.gathered = textOf o.wbuf ((o.entries.drop o.current.iov).take o.current.iovlen) ∧ o.gathered <+: rest := by
  have hle := h.behind.1
  have hsame : o.gathered = textOf o.wbuf ((o.entries.drop o.current.iov).take o.current.iovlen) := by
    rw [Outgoing.gathered, Outgoing.entries, List.drop_take, List.take_take, Nat.min_eq_left (by omega)]
  refine ⟨hsame, ?_⟩
  rw [hsame, ← h.rest]
  conv_rhs => rw [← List.take_append_drop o.current.iovlen (o.entries.drop o.current.iov)]
  unfold textOf
  rw [List.flatMap_append]
  exact List.prefix_append _ _

/-- A header that is not done has bytes. -/
theorem Pending.gathered_ne (h : Pending o rest) (hpos : 0 < o.current.iovlen) : o.gathered ≠ [] := by
  have hle := h.behind.1
  have hlt : o.current.iov < o.entries.length := by
    rw [Outgoing.entries, List.length_take_of_le h.room.2]
    omega
  have hdrop := List.drop_eq_getElem_cons hlt
  have hvalid := h.valid _ (hdrop ▸ List.mem_cons_self)
  obtain ⟨l, hl⟩ := Nat.exists_eq_add_of_lt hpos
  rw [h.gathered.1, hdrop, hl, show 0 + l + 1 = l + 1 by omega, List.take_succ_cons, textOf_cons]
  intro hnil
  have hlen := length_bytes hvalid
  rw [(List.append_eq_nil_iff.1 hnil).1] at hlen
  exact absurd hvalid.1 (by rw [← hlen]; exact Nat.lt_irrefl 0)

/-- What `transmit` takes off the current header, and what it leaves of it. -/
def Outgoing.taken (o : Outgoing) (n : Nat) : Nat × Nat × Nat := consumeLoop o.iov o.current.iovlen o.current.iov n

/-- **What is left of the current header** are the bytes behind the first `n`. -/
theorem Pending.taken (h : Pending o rest) {n : Nat} (hn : n ≤ o.gathered.length) :
    (o.taken n).2.1 + (o.taken n).1 = o.current.iov + o.current.iovlen ∧
      (0 < (o.taken n).2.2 → (o.taken n).2.1 < o.iovused) ∧
      textOf o.wbuf ((shorten o.entries (o.taken n).2.1 (o.taken n).2.2).drop (o.taken n).2.1) = rest.drop n ∧
      ∀ e ∈ (shorten o.entries (o.taken n).2.1 (o.taken n).2.2).drop (o.taken n).2.1, e.Valid o.wbuf := by
  have hend := h.behind.1
  have hentries : o.entries.length = o.iovused := List.length_take_of_le h.room.2
  have hloop : consumeLoop o.entries o.current.iovlen o.current.iov n = o.taken n := (consumeLoop_take hend).symm
  rw [h.gathered.1] at hn
  obtain ⟨hfrom, htotal, htext, hpart⟩ := consumeLoop_spec (by rw [hentries]; exact hend) h.valid hn
  rw [hloop] at hfrom htotal htext hpart
  have hvalid : ∀ e ∈ o.entries.drop (o.taken n).2.1, e.Valid o.wbuf := fun e he => by
    refine h.valid e ?_
    rw [← Nat.add_sub_of_le hfrom, ← List.drop_drop] at he
    exact List.mem_of_mem_drop he
  have hused : 0 < (o.taken n).2.2 → (o.taken n).2.1 < o.iovused := fun hpos => by
    have := (hpart hpos).1
    omega
  obtain ⟨hrest, hvalid'⟩ := shorten_spec hvalid fun hpos => ⟨by rw [hentries]; exact hused hpos, (hpart hpos).2⟩
  refine ⟨htotal, hused, ?_, hvalid'⟩
  rw [hrest, htext, h.rest]

theorem current_consume (h : Pending o rest) (n : Nat) :
    (consume o n).current = ⟨(o.taken n).2.1, (o.taken n).1⟩ := by
  show (o.msglist.set o.msgcurr ⟨(o.taken n).2.1, (o.taken n).1⟩).getD o.msgcurr _ = _
  rw [List.getD_eq_getElem?_getD, List.getElem?_set_self (Nat.lt_of_lt_of_le h.curr.1 h.curr.2), Option.getD_some]

/-- The headers behind the current one are as they were. -/
theorem msgs_consume (o : Outgoing) (n : Nat) :
    (consume o n).msgs.drop (o.msgcurr + 1) = o.msgs.drop (o.msgcurr + 1) := by
  have hset : (consume o n).msgs = o.msgs.set o.msgcurr ⟨(o.taken n).2.1, (o.taken n).1⟩ := List.take_set
  rw [hset, List.drop_set_of_lt (Nat.lt_succ_self _)]

/-- **`sendmsg()` takes `n` bytes**, the first of those still to be sent, and the others remain. -/
theorem consume_pending (h : Pending o rest) {n : Nat} (hn : n ≤ o.gathered.length) :
    o.gathered.take n = rest.take n ∧ Pending (consume o n) (rest.drop n) := by
  refine ⟨?_, ?_⟩
  · obtain ⟨t, ht⟩ := h.gathered.2
    rw [← ht, List.take_append_of_le_length hn]
  obtain ⟨htotal, hused, htext, hvalid⟩ := h.taken hn
  have hcurrent := current_consume h n
  have hiov : (consume o n).entries = shorten o.entries (o.taken n).2.1 (o.taken n).2.2 := shorten_take hused
  have hcurr : (consume o n).msgcurr < (consume o n).msgused ∧
      (consume o n).msgused ≤ (consume o n).msglist.length := by
    refine ⟨h.curr.1, ?_⟩
    show o.msgused ≤ (o.msglist.set _ _).length
    rw [List.length_set]
    exact h.curr.2
  refine ⟨hcurr, ⟨h.room.1, ?_⟩, ?_, ?_, ?_, ?_⟩
  · show o.iovused ≤ (shorten _ _ _).length
    rw [length_shorten]
    exact h.room.2
  · -- the current header begins later, and ends where it ended
    rw [headers hcurr]
    refine ⟨rfl, ?_⟩
    rw [hcurrent, htotal]
    show Tiles _ o.iovused ((consume o n).msgs.drop (o.msgcurr + 1))
    rw [msgs_consume]
    exact h.behind.2
  · show ∀ m ∈ (consume o n).msgs.drop (o.msgcurr + 1), 0 < m.iovlen
    rw [msgs_consume]
    exact h.filled
  · show ∀ e ∈ (consume o n).entries.drop (consume o n).current.iov, e.Valid o.wbuf
    rw [hcurrent, hiov]
    exact hvalid
  · show textOf o.wbuf ((consume o n).entries.drop (consume o n).current.iov) = _
    rw [hcurrent, hiov]
    exact htext

/-- **The connection is at `sendmsg()` with a header that has bytes**, and `rest` is to be sent. -/
structure Sending (o : Outgoing) (rest : Bytes) : Prop extends Pending o rest where
  more : 0 < o.current.iovlen
  state : o.state = .write
  go : o.writeAndGo = .read

/-- A header that is done is left for the next. -/
theorem pending_advance (h : Pending o rest) (hdone : o.current.iovlen = 0) (hmore : o.msgcurr + 1 < o.msgused) :
    Pending { o with msgcurr := o.msgcurr + 1 } rest ∧
      0 < (Outgoing.current { o with msgcurr := o.msgcurr + 1 }).iovlen := by
  have hbehind := h.behind.2
  rw [hdone, Nat.add_zero] at hbehind
  have hlt : o.msgcurr + 1 < o.msgs.length := by
    rw [Outgoing.msgs, List.length_take_of_le h.curr.2]
    exact hmore
  have hcurrent : Outgoing.current { o with msgcurr := o.msgcurr + 1 } = o.msgs[o.msgcurr + 1] :=
    msglist_getD o hlt _
  have hdrop := List.drop_eq_getElem_cons hlt
  have hiov : (Outgoing.current { o with msgcurr := o.msgcurr + 1 }).iov = o.current.iov := by
    rw [hdrop] at hbehind
    rw [hcurrent]
    exact hbehind.1
  refine ⟨⟨⟨hmore, h.curr.2⟩, h.room, ?_, ?_, ?_, ?_⟩, ?_⟩
  · rw [hiov]
    exact hbehind
  · intro m hm
    refine h.filled m ?_
    rw [hdrop]
    exact List.mem_cons_of_mem _ hm
  · rw [hiov]
    exact h.valid
  · rw [hiov]
    exact h.rest
  · rw [hcurrent]
    exact h.filled _ (hdrop ▸ List.mem_cons_self)

theorem setState_state (o : Outgoing) (state : ConnState) : (o.setState state).state = state := by
  unfold Outgoing.setState
  split
  · rfl
  · rename_i h
    exact (not_not.mp h).symm

/-- **On to the next `sendmsg()`**, or back to reading if nothing is left. -/
theorem finish_pending (h : Pending o rest) (hstate : o.state = .write) (hgo : o.writeAndGo = .read) :
    Sending (finish (advanceMsg o)) rest ∨ (rest = [] ∧ (finish (advanceMsg o)).state = .read) := by
  rw [advanceMsg]
  by_cases hdone : o.current.iovlen = 0
  · rw [if_pos ⟨h.curr.1, hdone⟩, finish]
    by_cases hmore : o.msgcurr + 1 < o.msgused
    · obtain ⟨hpending, hopen⟩ := pending_advance h hdone hmore
      rw [if_pos hmore]
      exact .inl ⟨hpending, hopen, hstate, hgo⟩
    · rw [if_neg hmore]
      refine .inr ⟨?_, (setState_state _ _).trans hgo⟩
      -- the last header is done, so all entries are
      have hbehind := h.behind.2
      rw [hdone, Nat.add_zero, List.drop_eq_nil_of_le (by rw [Outgoing.msgs, List.length_take]; omega)] at hbehind
      rw [← h.rest, show o.current.iov = o.iovused from hbehind,
        List.drop_eq_nil_of_le (by rw [Outgoing.entries, List.length_take]; exact Nat.min_le_left _ _)]
      rfl
  · rw [if_neg fun hc => hdone hc.2, finish, if_pos h.curr.1]
    exact .inl ⟨h, Nat.pos_of_ne_zero hdone, hstate, hgo⟩

theorem toSendmsg_pending (h : Pending o rest) : toSendmsg o = finish (advanceMsg o) := by
  rw [toSendmsg, if_neg (Nat.ne_of_gt h.room.1)]

/-- A header that has bytes is not left. -/
theorem finish_sending (h : Sending o rest) : finish (advanceMsg o) = o := by
  rw [advanceMsg, if_neg fun hc => Nat.ne_of_gt h.more hc.2, finish, if_pos h.curr.1]

end Sending

/-! ## 4. A reply -/

/-- A message list as `process_command` begins it. -/
structure Prepared (o : Outgoing) : Prop extends Built o where
  fresh : Fresh o
  empty : o.iovused = 0
  first : o.msgcurr = 0

theorem prepared_prepare (o : Outgoing) : Prepared (prepare o) := by
  have hmsgs := @msgs_addMsghdr { o with msgcurr := 0, msgused := 0, iovused := 0 } (Nat.zero_le _)
  have hroom := @growMsglist_room { o with msgcurr := 0, msgused := 0, iovused := 0 } (Nat.zero_le _)
  obtain ⟨-, hused⟩ := entries_addMsghdr { o with msgcurr := 0, msgused := 0, iovused := 0 }
  have hframe := frame_addMsghdr { o with msgcurr := 0, msgused := 0, iovused := 0 }
  have hmsgs : (prepare o).msgs = [⟨0, 0⟩] := hmsgs
  have hused : (prepare o).iovused = 0 := hused
  refine ⟨⟨⟨Nat.one_pos, ?_⟩, ?_, ?_⟩, ⟨hmsgs, rfl⟩, hused, congrArg (fun f => f.2.1) hframe⟩
  · show 1 ≤ (List.set _ _ _).length
    rw [List.length_set]
    exact hroom
  · rw [hused]
    exact Nat.zero_le _
  · rw [hused, hmsgs]
    exact ⟨rfl, rfl⟩

theorem Prepared.outString {o : Outgoing} (h : Prepared o) (str : Bytes) : Prepared (outString o str) :=
  ⟨⟨h.used, h.room, h.tiles⟩, h.fresh, h.empty, h.first⟩

/-- `out_string` any number of times. -/
def outStrings (o : Outgoing) (strs : List Bytes) : Outgoing := strs.foldl outString o

theorem Prepared.outStrings {o : Outgoing} (h : Prepared o) (strs : List Bytes) :
    Prepared (outStrings o strs) := by
  induction strs generalizing o with
  | nil => exact h
  | cons str strs ih => exact ih (h.outString str)

theorem covers_valid {wbuf : Bytes} {a b : Nat} {es : List Iovec} (h : Covers a b es) (hb : b ≤ wbuf.length) :
    ∀ e ∈ es, e.Valid wbuf := by
  induction es generalizing a with
  | nil => exact fun e he => absurd he List.not_mem_nil
  | cons e es ih =>
    obtain ⟨hbase, hpos, hrest⟩ := h
    intro e' he'
    rcases List.mem_cons.1 he' with rfl | he'
    · exact ⟨hpos, by have := covers_le hrest; omega⟩
    · exact ih hrest e' he'

/-- **The last `out_string` is what is sent.** -/
theorem toSendmsg_outString {o : Outgoing} (h : Prepared o) (str : Bytes) :
    Sending (toSendmsg (outString o str)) (replyText str) := by
  obtain ⟨hmin, hmax⟩ := length_replyText str
  have hp := h.outString str
  have hlen : 0 < (replyText str).length := Nat.lt_of_lt_of_le Nat.two_pos hmin
  obtain ⟨hbuilt, hfilled, hframe, es, hes, hcovers⟩ :=
    @addIovLoop_spec _ _ hp.toBuilt (.inr hp.fresh) 0 _ hlen (Nat.le_succ (replyText str).length)
  rw [show toSendmsg (outString o str) = finish (advanceMsg (addIov (outString o str) 0 (replyText str).length)) by
    rw [toSendmsg, if_pos hp.empty]
    rfl, addIov]
  generalize addIovLoop ((replyText str).length + 1) (outString o str) 0 (replyText str).length = q at *
  have hes : q.entries = es := by
    rw [hes, show (outString o str).entries = [] from by rw [Outgoing.entries, hp.empty, List.take_zero],
      List.nil_append]
  rw [Nat.zero_add] at hcovers
  have hwbuf : q.wbuf = replyText str ++ o.wbuf.drop (replyText str).length := congrArg (fun f => f.1) hframe
  have hcurr : q.msgcurr = 0 := (congrArg (fun f => f.2.1) hframe).trans hp.first
  have hused : q.msgcurr < q.msgused ∧ q.msgused ≤ q.msglist.length := hcurr ▸ hbuilt.used
  have hcurrent := headers hused
  rw [hcurr, List.drop_zero] at hcurrent
  have htiles := hbuilt.tiles
  rw [hcurrent] at htiles
  have hiov : q.current.iov = 0 := htiles.1
  have hopen : 0 < q.current.iovlen := hfilled _ (hcurrent ▸ List.mem_cons_self)
  have hsending : Sending q (replyText str) := by
    refine ⟨⟨hused, ⟨?_, hbuilt.room⟩, ?_, ?_, ?_, ?_⟩, hopen, ?_, ?_⟩
    · exact Nat.lt_of_lt_of_le (by rw [Nat.zero_add]; exact hopen) (tiles_le htiles.2)
    · rw [hiov, hcurr]
      exact hbuilt.tiles
    · exact fun m hm => hfilled m (List.mem_of_mem_drop hm)
    · rw [hiov, List.drop_zero, hes]
      refine covers_valid hcovers ?_
      rw [q.wsize]
      exact hmax
    · rw [hiov, List.drop_zero, hes, textOf_covers hcovers, hwbuf, List.drop_zero, Nat.sub_zero, List.take_left]
    · exact congrArg (fun f => f.2.2.1) hframe
    · exact congrArg (fun f => f.2.2.2) hframe
  rw [finish_sending hsending]
  exact hsending

/-- What a connection with a reply has sent: all of it, and it reads again; or not all, and it is at
    `sendmsg()` with the next bytes. -/
def Sends (reply : Bytes) (s : Sent) : Prop :=
  ∃ rest, s.accepted ++ rest = reply ∧ (Sending s.out rest ∨ (rest = [] ∧ s.out.state = .read))

/-- **One result of `sendmsg()`.** -/
theorem sends_step {reply : Bytes} {s s' : Sent} {r : SendResult} (h : Sends reply s) (hr : r ≠ .error)
    (hs : sendNext s r = some s') : Sends reply s' := by
  obtain ⟨rest, hreply, hrest⟩ := h
  obtain ⟨hstate, hs⟩ := Option.ite_none_right_eq_some.mp hs
  have hsending : Sending s.out rest := hrest.resolve_right fun hc => absurd (hc.2.symm.trans hstate) (by decide)
  cases r with
  | sent n =>
    obtain ⟨⟨-, hn⟩, hs⟩ := Option.ite_none_right_eq_some.mp hs
    cases hs
    obtain ⟨htake, hpending⟩ := consume_pending hsending.toPending hn
    refine ⟨rest.drop n, ?_, ?_⟩
    · show s.accepted ++ s.out.gathered.take n ++ rest.drop n = reply
      rw [htake, List.append_assoc, List.take_append_drop, hreply]
    · rw [toSendmsg_pending hpending]
      exact finish_pending hpending hsending.state hsending.go
  | again =>
    cases hs
    refine ⟨rest, hreply, .inl ?_⟩
    rw [toSendmsg_pending hsending.toPending, finish_sending hsending]
    exact hsending
  | error => exact absurd rfl hr

/-- The bytes taken by a result. -/
def SendResult.count : SendResult → Nat
  | .sent n => n
  | .again => 0
  | .error => 0

/-- The bytes taken by a sequence of results. -/
def total : List SendResult → Nat
  | [] => 0
  | r :: rs => r.count + total rs

theorem accepted_step {s s' : Sent} {r : SendResult} (hs : sendNext s r = some s') :
    s'.accepted.length = s.accepted.length + r.count := by
  obtain ⟨-, hs⟩ := Option.ite_none_right_eq_some.mp hs
  cases r with
  | sent n =>
    obtain ⟨⟨-, hn⟩, hs⟩ := Option.ite_none_right_eq_some.mp hs
    cases hs
    show (s.accepted ++ s.out.gathered.take n).length = s.accepted.length + n
    rw [List.length_append, List.length_take_of_le hn]
  | again | error =>
    cases hs
    rfl

theorem sends_run {reply : Bytes} {s s' : Sent} {rs : List SendResult} (h : Sends reply s) (hcalm : .error ∉ rs)
    (hrun : runEvents sendNext s rs = some s') :
    Sends reply s' ∧ s'.accepted.length = s.accepted.length + total rs := by
  induction rs generalizing s with
  | nil =>
    cases hrun
    exact ⟨h, rfl⟩
  | cons r rs ih =>
    obtain ⟨t, ht, hrest⟩ := Option.bind_eq_some_iff.mp hrun
    have hr : r ≠ .error := fun hc => hcalm (hc ▸ List.mem_cons_self)
    obtain ⟨hsends, hlen⟩ := ih (sends_step h hr ht) (fun hc => hcalm (List.mem_cons_of_mem _ hc)) hrest
    refine ⟨hsends, ?_⟩
    rw [hlen, accepted_step ht, total, Nat.add_assoc]

/-- **Every reply is sent once**, for every connection `process_command` prepares the lists of, every string
    `out_string` was last called with, and every sequence of numbers and `EAGAIN` from `sendmsg()`: the bytes
    taken are the first of the reply, as many as the numbers say. The connection reads again when all of them
    are; until then `sendmsg()` is given some of those that follow. -/
theorem reply_sent_once (o : Outgoing) (before : List Bytes) (str : Bytes) (rs : List SendResult) (s : Sent)
    (hcalm : .error ∉ rs)
    (hrun : runEvents sendNext ⟨toSendmsg (outString (outStrings (prepare o) before) str), []⟩ rs = some s) :
    s.accepted = (replyText str).take (total rs) ∧ ((s.accepted = replyText str ∧ s.out.state = .read) ∨
        (s.accepted ≠ replyText str ∧ s.out.state = .write ∧ s.out.gathered ≠ [] ∧
          s.accepted ++ s.out.gathered <+: replyText str)) := by
  have hstart : Sends (replyText str) ⟨toSendmsg (outString (outStrings (prepare o) before) str), []⟩ :=
    ⟨_, List.nil_append _, .inl (toSendmsg_outString ((prepared_prepare o).outStrings before) str)⟩
  obtain ⟨⟨rest, hreply, hrest⟩, hlen⟩ := sends_run hstart hcalm hrun
  rw [List.length_nil, Nat.zero_add] at hlen
  refine ⟨?_, ?_⟩
  · rw [← hreply, ← hlen, List.take_left]
  · rcases hrest with hsending | ⟨rfl, hread⟩
    · right
      have hne := hsending.gathered_ne hsending.more
      have hfirst := hsending.gathered.2
      refine ⟨fun hall => hne ?_, hsending.state, hne, ?_⟩
      · rw [hall, List.append_right_eq_self] at hreply
        rw [hreply] at hfirst
        exact List.prefix_nil.1 hfirst
      · rw [← hreply]
        exact (List.prefix_append_right_inj _).2 hfirst
    · left
      rw [List.append_nil] at hreply
      exact ⟨hreply, hread⟩

/-- 2000 characters in two pieces, the first of them sent in two parts with `EAGAIN` in between. -/
theorem reply_sent_once_split :
    ∃ s, runEvents sendNext ⟨toSendmsg (outString (outStrings (prepare newOutgoing) []) (List.replicate 2000 0x61)), []⟩
        [.sent 700, .again, .sent 700, .sent 602] = some s ∧
      s.accepted = replyText (List.replicate 2000 0x61) ∧ s.out.state = .read := by
  obtain ⟨s, hs⟩ := Option.isSome_iff_exists.1 (by decide +kernel : (runEvents sendNext
    ⟨toSendmsg (outString (outStrings (prepare newOutgoing) []) (List.replicate 2000 0x61)), []⟩
    [.sent 700, .again, .sent 700, .sent 602]).isSome = true)
  obtain ⟨htaken, hdone⟩ := reply_sent_once newOutgoing [] (List.replicate 2000 0x61) _ s (by simp) hs
  rw [List.take_of_length_le (by decide +kernel)] at htaken
  rcases hdone with hdone | hdone
  · exact ⟨s, hs, hdone⟩
  · exact absurd htaken hdone.1

end SmartHome.Dserver
