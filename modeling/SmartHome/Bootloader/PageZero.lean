/-
  Subject:   WHEN PAGE 0 IS ERASED, told by the datagrams and the ticks of a run.

  On a timeout `tftpPoll` erases page 0 if any datagram at all has come since `tftpInit`, as if a
  download had been interrupted. Once a page has been written, or page 0 is blank, that does no harm.
  Before that it destroys an application nobody has touched, and whether it happens can be read off
  the events: the text of the DATA datagrams says when the first page is complete, the ticks say how
  long the server waited for the next datagram.

  * `Held`, `heldBack`, **`decProcess_heldBack`** -- the text of a call, read up to the first page;
  * `Watch`, `timely` -- from the first datagram to the first page, never more than 28 ticks without a datagram;
  * `ErasesJustified` -- what every erase of page 0 in a run should find: a page written before;
  * `Justified` -- what makes every later erase harmless, and what every round keeps;
  * **`erases_justified_iff`** -- a whole run is harmless exactly if the flash was blank or the
    datagrams came in time; `untouched_erased` -- a run that is not.
-/
import SmartHome.Bootloader.Transfer

namespace SmartHome.Bootloader

open SmartHome.Lib

/-! ## 1. The text up to the first page -/

/-- What calls that wrote nothing have left: data bytes that wait for their page, unread characters. -/
structure Held where
  fifo : Bytes
  unread : Bytes

/-- The records of a text, read up to the first page. `none`: a page is complete and passes for an
    image. `pageLen` is the length the last data record has left the page with. -/
def heldBack : Nat → Nat → Held → Option Held
  | 0, _, h => some h
  | n + 1, pageLen, h =>
    match nextLine h.unread with
    | .blank => some h
    | .bad => some h
    | .incomplete => some h
    | .record line rest =>
      if recType line = 0x00 then
        let fifo := pushList 256 h.fifo (recData line)
        if recSum line ≠ 0 then some ⟨fifo, rest⟩
        else if fifo.length < 128 then heldBack n fifo.length ⟨fifo, rest⟩
        else if validImage (padded (fifo.take 128)) then none
        else some ⟨fifo.drop 128, rest⟩
      else if recType line = 0x01 then
        if pageLen = 0 then some ⟨h.fifo, rest⟩
        else if validImage (padded (h.fifo.take pageLen)) then none
        else some ⟨h.fifo.drop pageLen, rest⟩
      else heldBack n pageLen ⟨h.fifo, rest⟩

/-- What is held back once `package` has come in, too. -/
def Held.after (h : Held) (package : Bytes) : Option Held :=
  heldBack ((pushList 592 h.unread package).length + 1) 0 ⟨h.fifo, pushList 592 h.unread package⟩

/-- The decoder holds `h` and has written nothing since `ihexInit`. -/
structure Holds (d : Dec) (h : Held) : Prop where
  fifo : d.fifo = h.fifo
  unread : d.unread = h.unread
  addr : d.writeAddr = 0

/-- What a call does that began with the flash `f`: it writes, or it leaves the flash and holds the rest. -/
def HoldsBack (f : Spm) (a : Answer) : Option Held → Prop
  | none => f.log.length < a.2.2.log.length
  | some h => a.2.2 = f ∧ Holds a.2.1 h

/-- The lines of a call only add to the log. -/
theorem lineLoop_log_le : ∀ (n : Nat) (p : Pending), p.f.log.length ≤ (lineLoop n p).2.2.log.length
  | 0, _ => Nat.le_refl _
  | n + 1, p => by
    have hkeeps := lineStep_keeps (L := fun _ => True) (K := fun g => p.f.log.length ≤ g.log.length)
      (fun _ _ _ => trivial) (fun addr page g h => Nat.le_trans h (Nat.le_of_lt (flashPage_grows addr page g)))
      (p := p) trivial (Nat.le_refl _)
    cases hs : lineStep p with
    | inl a =>
      have hr : lineLoop (n + 1) p = a := loop_stop n hs
      rw [hr]
      exact (hkeeps.2 a hs).2
    | inr p' =>
      have hr : lineLoop (n + 1) p = lineLoop n p' := loop_more n hs
      rw [hr]
      exact Nat.le_trans (hkeeps.1 p' hs).2 (lineLoop_log_le n p')

/-- A call that stops at a line. -/
theorem holdsBack_stop {p : Pending} {a : Answer} {h : Option Held} (n : Nat) (hs : lineStep p = .inl a)
    (ha : HoldsBack p.f a h) : HoldsBack p.f (lineLoop (n + 1) p) h := by
  have hr : lineLoop (n + 1) p = a := loop_stop n hs
  rw [hr]
  exact ha

/-- A page at address 0 is refused exactly if it is no image. -/
theorem refused_iff {d : Dec} (h : d.writeAddr = 0) (n : Nat) :
    d.refused n ↔ ¬ validImage (padded (d.fifo.take n)) = true := by
  unfold Dec.refused
  rw [Bool.not_eq_true]
  exact ⟨fun hr => hr.2, fun hv => ⟨h, hv⟩⟩

/-- The end record. -/
theorem holdsBack_end {p : Pending} {h : Held} {line rest : Bytes} (hp : Holds p.d h) :
    HoldsBack p.f (endStep (p.d.take line rest) p.f p.pageLen) (if p.pageLen = 0 then some ⟨h.fifo, rest⟩
        else if validImage (padded (h.fifo.take p.pageLen)) then none else some ⟨h.fifo.drop p.pageLen, rest⟩) := by
  unfold endStep
  by_cases hz : p.pageLen = 0
  · rw [if_pos hz, if_pos hz]
    exact ⟨rfl, hp.fifo, rfl, hp.addr⟩
  have hfifo : (p.d.take line rest).fifo = h.fifo := hp.fifo
  have hiff := refused_iff (d := p.d.take line rest) hp.addr p.pageLen
  rw [hfifo] at hiff
  rw [if_neg hz, if_neg hz]
  by_cases hv : validImage (padded (h.fifo.take p.pageLen)) = true
  · rw [if_neg (fun hr => hiff.mp hr hv), if_pos hv]
    exact flashPage_grows _ _ _
  · rw [if_pos (hiff.mpr hv), if_neg hv]
    refine ⟨rfl, ?_, rfl, hp.addr⟩
    show (p.d.take line rest).fifo.drop p.pageLen = _
    rw [hfifo]

/-- **The lines of a call, up to the first page.** The induction is on the bound, which loop and
    reading share. -/
theorem lineLoop_heldBack : ∀ (n : Nat) (p : Pending) (h : Held), Holds p.d h →
    HoldsBack p.f (lineLoop n p) (heldBack n p.pageLen h)
  | 0, _, _, hp => ⟨rfl, hp⟩
  | n + 1, p, h, hp => by
    unfold heldBack
    rw [← hp.unread]
    cases hl : nextLine p.d.unread with
    | blank => exact holdsBack_stop n (lineStep_blank hl) ⟨rfl, hp⟩
    | bad => exact holdsBack_stop n (lineStep_bad hl) ⟨rfl, hp⟩
    | incomplete => exact holdsBack_stop n (lineStep_incomplete hl) ⟨rfl, hp⟩
    | record line rest =>
      dsimp only
      by_cases h0 : recType line = 0
      · have hfifo : ((p.d.take line rest).push (recData line)).fifo = pushList 256 h.fifo (recData line) := by
          rw [dec_push_fifo, dec_take_fifo, hp.fifo]
        have hiff := refused_iff (d := (p.d.take line rest).push (recData line)) hp.addr 128
        have hs := lineStep_data hl h0
        unfold dataStep at hs
        simp only at hs
        rw [hfifo] at hs hiff
        rw [if_pos h0]
        by_cases hsum : recSum line ≠ 0
        · rw [if_pos hsum] at hs ⊢
          exact holdsBack_stop n hs ⟨rfl, hfifo, rfl, hp.addr⟩
        rw [if_neg hsum] at hs ⊢
        by_cases hlt : (pushList 256 h.fifo (recData line)).length < 128
        · rw [if_pos hlt] at hs ⊢
          have hr : lineLoop (n + 1) p = _ := loop_more n hs
          rw [hr]
          exact lineLoop_heldBack n ⟨(p.d.take line rest).push (recData line), p.f, _, .none⟩
            ⟨pushList 256 h.fifo (recData line), rest⟩ ⟨hfifo, rfl, hp.addr⟩
        rw [if_neg hlt] at hs ⊢
        by_cases hv : validImage (padded ((pushList 256 h.fifo (recData line)).take 128)) = true
        · -- the first page, whatever the lines behind it bring
          rw [if_neg (fun hr => hiff.mp hr hv)] at hs
          have hr : lineLoop (n + 1) p = lineLoop n _ := loop_more n hs
          rw [hr, if_pos hv]
          refine Nat.lt_of_lt_of_le ?_ (lineLoop_log_le n _)
          exact flashPage_grows _ _ _
        · rw [if_pos (hiff.mpr hv)] at hs
          rw [if_neg hv]
          refine holdsBack_stop n hs ⟨rfl, ?_, rfl, hp.addr⟩
          show ((p.d.take line rest).push (recData line)).fifo.drop 128 = _
          rw [hfifo]
      rw [if_neg h0]
      by_cases h1 : recType line = 1
      · rw [if_pos h1]
        exact holdsBack_stop n (lineStep_end hl h1) (holdsBack_end hp)
      · rw [if_neg h1]
        have hr : lineLoop (n + 1) p = _ := loop_more n (lineStep_pass hl h0 h1)
        rw [hr]
        exact lineLoop_heldBack n ⟨p.d.take line rest, p.f, p.pageLen, .none⟩ ⟨h.fifo, rest⟩
          ⟨hp.fifo, rfl, hp.addr⟩

/-- **One call, up to the first page.** -/
theorem decProcess_heldBack {d : Dec} {h : Held} (hd : Holds d h) (f : Spm) (package : Bytes) :
    HoldsBack f (decProcess d f package) (h.after package) := by
  have hfeed : (d.feed package).unread = pushList 592 h.unread package := by
    show pushList 592 d.unread package = _
    rw [hd.unread]
  unfold decProcess Held.after
  rw [← hfeed]
  exact lineLoop_heldBack _ ⟨d.feed package, f, 0, .empty⟩ ⟨h.fifo, (d.feed package).unread⟩ ⟨hd.fifo, rfl, hd.addr⟩

-- what a call does is looked up in its lemmas from here on
attribute [local irreducible] ihexPackageProcess decProcess Held.after

/-! ## 2. The events of a run -/

/-- What the events so far have left: the text held back, and the ticks since the last datagram. -/
structure Watch where
  held : Held
  silence : Option Nat

/-- A poll finds no datagram and more than 28 ticks behind it. -/
def Watch.late (w : Watch) (e : Event) : Bool := e.packet.isNone && !w.silence.all (· ≤ 28)

/-- One round further; `none` once the first page is complete. -/
def Watch.next (w : Watch) (e : Event) : Option Watch :=
  match e.packet with
  | none => some ⟨w.held, w.silence.map (· + e.timer.toNat)⟩
  | some dg =>
    if dg.opcode = .data then (w.held.after dg.package).map fun held => ⟨held, some e.timer.toNat⟩
    else some ⟨w.held, some e.timer.toNat⟩

/-- **The datagrams come in time**: from the first one to the one that completes the first page, there
    are never more than 28 ticks without one. Before the first one the server waits or leaves. -/
def timely : Watch → List Event → Bool
  | _, [] => true
  | w, e :: es => !w.late e && (w.next e).all fun w => timely w es

/-- Nothing has come in. -/
def Watch.start : Watch := ⟨⟨[], []⟩, none⟩

section Timely

variable (w : Watch) {e : Event} {dg : Datagram} (es : List Event)

theorem timely_idle (he : e.packet = none) : timely w (e :: es) =
    (w.silence.all (· ≤ 28) && timely ⟨w.held, w.silence.map (· + e.timer.toNat)⟩ es) := by
  rw [timely, Watch.late, Watch.next, he]
  simp

/-- A datagram is never late. -/
theorem timely_packet (he : e.packet = some dg) : timely w (e :: es) = (w.next e).all fun w => timely w es := by
  rw [timely, Watch.late, he]
  rfl

theorem Watch.next_data (he : e.packet = some dg) (hop : dg.opcode = .data) :
    w.next e = (w.held.after dg.package).map fun held => ⟨held, some e.timer.toNat⟩ := by
  rw [Watch.next, he]
  exact if_pos hop

theorem Watch.next_other (he : e.packet = some dg) (hop : dg.opcode ≠ .data) :
    w.next e = some ⟨w.held, some e.timer.toNat⟩ := by
  rw [Watch.next, he]
  exact if_neg hop

end Timely

/-- **Every erase of page 0 is justified**: in the run of `es` from `s`, a poll erases it only after
    the decoder has written a page since the last `tftpInit`. -/
def ErasesJustified (s : Tftp) (es : List Event) : Prop :=
  ∀ before e after t, es = before ++ e :: after → runEvents tftpNext s before = some t →
    (tftpPoll e.packet t).erased = true → t.mark < t.spm.log.length

theorem erasesJustified_nil (s : Tftp) : ErasesJustified s [] := by
  intro before e after t he
  exact absurd he.symm (by simp)

/-- The first event, and the rest of the run. -/
theorem erasesJustified_cons {s s' : Tftp} {e : Event} (hs : tftpNext s e = some s') (es : List Event) :
    ErasesJustified s (e :: es) ↔
      ((tftpPoll e.packet s).erased = true → s.mark < s.spm.log.length) ∧ ErasesJustified s' es := by
  constructor
  · intro h
    refine ⟨h [] e es s rfl rfl, fun before e' after t he ht => ?_⟩
    refine h (e :: before) e' after t (by rw [he]; rfl) ?_
    show (tftpNext s e).bind _ = _
    rw [hs]
    exact ht
  · intro h before e' after t he ht
    cases before with
    | nil =>
      obtain ⟨rfl, _⟩ := List.cons.inj he
      cases ht
      exact h.1
    | cons b before =>
      obtain ⟨rfl, hes⟩ := List.cons.inj he
      obtain ⟨u, hu, ht⟩ := Option.bind_eq_some_iff.mp ht
      rw [hs] at hu
      cases hu
      exact h.2 before e' after t hes ht

/-- A poll erases page 0 on a timeout after a datagram, and then only. -/
theorem tftpPoll_erased (packet : Option Datagram) (s : Tftp) : (tftpPoll packet s).erased = true ↔
    packet = none ∧ timedOut s = true ∧ s.downloadStarted = true := by
  cases packet with
  | some dg =>
    rw [tftpPoll_packet]
    exact ⟨fun h => Bool.noConfusion h, fun h => absurd h.1 (Option.some_ne_none dg)⟩
  | none =>
    cases ht : timedOut s with
    | false =>
      rw [tftpPoll_idle ht]
      exact ⟨fun h => Bool.noConfusion h, fun h => Bool.noConfusion h.2.1⟩
    | true =>
      cases hd : s.downloadStarted with
      | false =>
        rw [tftpPoll_leave ht hd]
        exact ⟨fun h => Bool.noConfusion h, fun h => Bool.noConfusion h.2.2⟩
      | true =>
        rw [tftpPoll_erase ht hd]
        exact ⟨fun _ => ⟨rfl, rfl, rfl⟩, fun _ => rfl⟩

theorem timedOut_iff (s : Tftp) : timedOut s = true ↔ ¬ s.Blank ∧ 28 < s.tick := by
  by_cases hb : s.Blank
  · rw [hb.timedOut]
    exact ⟨fun h => Bool.noConfusion h, fun h => absurd hb h.1⟩
  · have ht : timedOut s = decide (28 < s.tick) := if_neg hb
    rw [ht, decide_eq_true_iff]
    exact ⟨fun h => ⟨hb, h⟩, fun h => h.2⟩

/-- A round with a datagram. -/
theorem tftpNext_packet {s s' : Tftp} {e : Event} {dg : Datagram} (he : e.packet = some dg)
    (hs : tftpNext s e = some s') : s' = updateLed e.timer (processPacket dg s).2.touched := by
  unfold tftpNext at hs
  rw [he, tftpPoll_packet] at hs
  simp only at hs
  split at hs
  · cases hs
  · exact (Option.some.inj hs).symm

theorem updateLed_tick (timer : Bool) {s : Tftp} (h : s.tick ≤ 28) :
    (updateLed timer s).tick = s.tick + timer.toNat := by
  cases timer with
  | false => rfl
  | true => exact Nat.mod_eq_of_lt (show s.tick + 1 < 65536 by omega)

/-! ## 3. After the first page -/

/-- A page was written since `tftpInit`, or there is nothing to destroy. -/
structure Justified (s : Tftp) : Prop where
  range : InRange s.ihex
  marked : s.mark ≤ s.spm.log.length
  written : s.Blank ∨ s.mark < s.spm.log.length

theorem SameFlash.justified {s s' : Tftp} (h : SameFlash s s') (hs : Justified s) : Justified s' where
  range := by
    rw [h.ihex]
    exact hs.range
  marked := by
    rw [h.spm, h.mark]
    exact hs.marked
  written := by
    unfold Tftp.Blank
    rw [h.spm, h.mark]
    exact hs.written

/-- A call keeps it: page 0 stays blank until a page is written. -/
theorem Justified.handOver {s : Tftp} (h : Justified s) (dg : Datagram) : Justified (s.handOver dg) := by
  have hcall := callIs h.range s.spm dg.package
  have hrange : InRange (s.handOver dg).ihex := by
    rw [handOver_ihex]
    exact hcall.range
  have hspm : (s.handOver dg).spm = (decProcess s.ihex.dec s.spm dg.package).2.2 := by
    rw [handOver_spm]
    exact hcall.flash
  rcases decProcess_flash s.ihex.dec s.spm dg.package with hf | hf
  · have hsame : (s.handOver dg).spm = s.spm := hspm.trans hf
    refine ⟨hrange, ?_, ?_⟩
    · rw [hsame]
      exact h.marked
    · unfold Tftp.Blank
      rw [hsame]
      exact h.written
  · rw [← hspm] at hf
    have hlt : (s.handOver dg).mark < (s.handOver dg).spm.log.length := Nat.lt_of_le_of_lt h.marked hf
    exact ⟨hrange, Nat.le_of_lt hlt, Or.inr hlt⟩

/-- After an erase page 0 is blank. -/
theorem justified_erased (s : Tftp) :
    Justified (tftpInit { s with downloadStarted := false, spm := bootPageErase 0 s.spm }) := by
  refine ⟨inRange_init _, Nat.le_refl _, Or.inl ?_⟩
  simp [tftpInit, Tftp.Blank, bootPageErase, pageNo]

/-- **One round.** -/
theorem justified_step {s s' : Tftp} {e : Event} (h : Justified s) (hs : tftpNext s e = some s') : Justified s' := by
  rcases tftpNext_cases hs with ⟨dg, _, _, hsame, _⟩ | ⟨hsame, _⟩ | ⟨_, _, _, hsame, _⟩
  · exact hsame.justified (h.handOver dg)
  · exact hsame.justified h
  · exact hsame.justified (justified_erased s)

/-- **From there on every erase is justified**, whatever comes. -/
theorem Justified.erases {s s' : Tftp} (h : Justified s) {es : List Event}
    (hrun : runEvents tftpNext s es = some s') : ErasesJustified s es := by
  induction es generalizing s with
  | nil => exact erasesJustified_nil s
  | cons e es ih =>
    obtain ⟨t, ht, hrest⟩ := Option.bind_eq_some_iff.mp hrun
    refine (erasesJustified_cons ht es).mpr ⟨fun he => ?_, ih (justified_step h ht) hrest⟩
    obtain ⟨_, hout, _⟩ := (tftpPoll_erased _ _).mp he
    exact h.written.resolve_left ((timedOut_iff s).mp hout).1

/-! ## 4. Before the first page -/

/-- **The server before the first page**: it holds what the text has left, its flash is as it was and
    not blank, and its timer counts the ticks since the last datagram. -/
structure BeforePage (held : Held) (silence : Option Nat) (s : Tftp) : Prop where
  range : InRange s.ihex
  holds : Holds s.ihex.dec held
  unwritten : s.spm.log.length = s.mark
  flash : ¬ s.Blank
  started : s.downloadStarted = silence.isSome
  ticks : ∀ n ∈ silence, s.tick = n

section BeforePage

variable {held : Held} {silence : Option Nat} {s s' : Tftp} {e : Event}

/-- A tick, or none. -/
theorem BeforePage.updateLed (h : BeforePage held silence s) (timer : Bool) (hn : silence.all (· ≤ 28) = true) :
    BeforePage held (silence.map (· + timer.toNat)) (updateLed timer s) := by
  obtain ⟨hsame, hstart⟩ := updateLed_same timer s
  refine ⟨hsame.ihex ▸ h.range, hsame.ihex ▸ h.holds, ?_, ?_, ?_, ?_⟩
  · rw [hsame.spm, hsame.mark]
    exact h.unwritten
  · unfold Tftp.Blank
    rw [hsame.spm]
    exact h.flash
  · rw [hstart, Option.isSome_map]
    exact h.started
  · intro n hmem
    obtain ⟨m, hm, rfl⟩ := Option.map_eq_some_iff.mp hmem
    have htick := h.ticks m hm
    have hle : m ≤ 28 := by
      rw [hm] at hn
      exact of_decide_eq_true hn
    rw [updateLed_tick timer (htick ▸ hle), htick]

/-- A datagram that writes nothing. -/
theorem BeforePage.touched {held' : Held} (h : BeforePage held silence s) {t : Tftp} (hr : InRange t.ihex)
    (hh : Holds t.ihex.dec held') (hf : t.spm = s.spm) (hm : t.mark = s.mark) (timer : Bool) :
    BeforePage held' (some timer.toNat) (Bootloader.updateLed timer t.touched) := by
  have htouched : BeforePage held' (some 0) t.touched := by
    refine ⟨hr, hh, ?_, ?_, rfl, fun n hn => ?_⟩
    · show t.spm.log.length = t.mark
      rw [hf, hm]
      exact h.unwritten
    · show ¬ t.Blank
      unfold Tftp.Blank
      rw [hf]
      exact h.flash
    · exact (Option.some.inj hn)
  have hled := htouched.updateLed timer rfl
  rw [Option.map_some, Nat.zero_add] at hled
  exact hled

/-- **A round without a datagram**: the timer has run out exactly if there were more than 28 ticks. -/
theorem BeforePage.idle (h : BeforePage held silence s) (he : e.packet = none) (hs : tftpNext s e = some s') :
    (silence.all (· ≤ 28) = true ∧ (tftpPoll e.packet s).erased = false ∧
      BeforePage held (silence.map (· + e.timer.toNat)) s') ∨
    (silence.all (· ≤ 28) = false ∧ (tftpPoll e.packet s).erased = true) := by
  cases ht : timedOut s with
  | false =>
    left
    have hle : silence.all (· ≤ 28) = true := by
      cases hq : silence with
      | none => rfl
      | some n =>
        have htick := h.ticks n hq
        refine decide_eq_true (Nat.not_lt.mp fun hlt => ?_)
        rw [(timedOut_iff s).mpr ⟨h.flash, htick ▸ hlt⟩] at ht
        exact Bool.noConfusion ht
    have hpoll := tftpPoll_idle ht
    unfold tftpNext at hs
    rw [he, hpoll] at hs
    cases hs
    rw [he, hpoll]
    exact ⟨hle, rfl, h.updateLed e.timer hle⟩
  | true =>
    right
    cases hq : silence with
    | none =>
      -- no datagram yet: the server leaves its loop
      have hd : s.downloadStarted = false := by
        rw [h.started, hq]
        rfl
      unfold tftpNext at hs
      rw [he, tftpPoll_leave ht hd] at hs
      cases hs
    | some n =>
      have hd : s.downloadStarted = true := by
        rw [h.started, hq]
        rfl
      refine ⟨decide_eq_false (Nat.not_le.mpr ?_), (tftpPoll_erased _ _).mpr ⟨he, ht, hd⟩⟩
      rw [← h.ticks n hq]
      exact ((timedOut_iff s).mp ht).2

/-- **A DATA datagram**: it writes the first page or is held back, as its text says. -/
theorem BeforePage.data (h : BeforePage held silence s) {dg : Datagram} (he : e.packet = some dg)
    (hop : dg.opcode = .data) (hs : tftpNext s e = some s') :
    (held.after dg.package = none ∧ Justified s') ∨
    ∃ held', held.after dg.package = some held' ∧ BeforePage held' (some e.timer.toNat) s' := by
  have hcall := callIs h.range s.spm dg.package
  have hback := decProcess_heldBack h.holds s.spm dg.package
  have hnext := tftpNext_packet he hs
  rw [processPacket_data hop] at hnext
  have hihex : (s.handOver dg).ihex = (ihexPackageProcess s.ihex s.spm dg.package).2.1 := handOver_ihex s dg
  have hspm : (s.handOver dg).spm = (decProcess s.ihex.dec s.spm dg.package).2.2 := by
    rw [handOver_spm]
    exact hcall.flash
  cases ha : held.after dg.package with
  | none =>
    rw [ha] at hback
    have hlt : (s.handOver dg).mark < (s.handOver dg).spm.log.length := by
      rw [handOver_mark, hspm, ← h.unwritten]
      exact hback
    have hjust : Justified (s.handOver dg) := ⟨hihex ▸ hcall.range, Nat.le_of_lt hlt, Or.inr hlt⟩
    refine Or.inl ⟨rfl, ?_⟩
    rw [hnext]
    exact (updateLed_same e.timer _).1.justified ((touched_same _).justified hjust)
  | some held' =>
    rw [ha] at hback
    obtain ⟨hf, hh⟩ := hback
    refine Or.inr ⟨held', rfl, ?_⟩
    rw [hnext]
    refine h.touched (hihex ▸ hcall.range) ?_ (hspm.trans hf) (handOver_mark s dg) e.timer
    rw [hihex, hcall.dec]
    exact hh

/-- Any other datagram. -/
theorem BeforePage.other (h : BeforePage held silence s) {dg : Datagram} (he : e.packet = some dg)
    (hop : dg.opcode ≠ .data) (hs : tftpNext s e = some s') : BeforePage held (some e.timer.toNat) s' := by
  obtain ⟨_, hihex, hspm, _, hmark⟩ := processPacket_other hop s
  rw [tftpNext_packet he hs]
  exact h.touched (hihex ▸ h.range) (hihex ▸ h.holds) hspm hmark e.timer

end BeforePage

/-- **The run up to the first page**, event by event. -/
theorem beforePage_run : ∀ (es : List Event) (held : Held) (silence : Option Nat) (s s' : Tftp),
    BeforePage held silence s → runEvents tftpNext s es = some s' →
    (ErasesJustified s es ↔ timely ⟨held, silence⟩ es = true)
  | [], _, _, s, _, _, _ => ⟨fun _ => rfl, fun _ => erasesJustified_nil s⟩
  | e :: es, held, silence, s, s', h, hrun => by
    obtain ⟨t, ht, hrest⟩ := Option.bind_eq_some_iff.mp hrun
    rw [erasesJustified_cons ht]
    cases he : e.packet with
    | none =>
      rw [timely_idle ⟨held, silence⟩ es he, Bool.and_eq_true, ← he]
      rcases h.idle he ht with ⟨hle, hno, hnext⟩ | ⟨hgt, hyes⟩
      · rw [hno, hle, beforePage_run es _ _ t s' hnext hrest]
        simp
      · -- nothing was written, and page 0 is gone
        rw [hyes, hgt, h.unwritten]
        simp
    | some dg =>
      have hfirst : (tftpPoll (some dg) s).erased = true → s.mark < s.spm.log.length := by
        rw [tftpPoll_erased]
        exact fun h => absurd h.1 (Option.some_ne_none dg)
      rw [and_iff_right hfirst, timely_packet ⟨held, silence⟩ es he]
      by_cases hop : dg.opcode = .data
      · rw [Watch.next_data _ he hop]
        rcases h.data he hop ht with ⟨hnone, hjust⟩ | ⟨held', hsome, hnext⟩
        · rw [hnone]
          exact ⟨fun _ => rfl, fun _ => hjust.erases hrest⟩
        · rw [hsome]
          exact beforePage_run es held' _ t s' hnext hrest
      · rw [Watch.next_other _ he hop]
        exact beforePage_run es held _ t s' (h.other he hop ht) hrest

/-- `tftp_main` begins with nothing held and no datagram. -/
theorem beforePage_start {s₀ : Tftp} (h : ¬ s₀.Blank) : BeforePage ⟨[], []⟩ none (tftpStart s₀) where
  range := inRange_init _
  holds := ⟨rfl, rfl, rfl⟩
  unwritten := rfl
  flash := h
  started := rfl
  ticks n hn := absurd hn (Option.not_mem_none n)

/-- **When page 0 is erased without need.** In the run of any events seen by `tftp_main`, every erase
    of page 0 comes after a page the decoder has written since `tftpInit`, exactly if page 0 was
    blank at the start or the datagrams came in time. -/
theorem erases_justified_iff (s₀ s : Tftp) (es : List Event) (hrun : runEvents tftpNext (tftpStart s₀) es = some s) :
    ErasesJustified (tftpStart s₀) es ↔ s₀.Blank ∨ timely .start es = true := by
  by_cases hb : s₀.Blank
  · have hstart : Justified (tftpStart s₀) := ⟨inRange_init _, Nat.le_refl _, Or.inl hb⟩
    exact ⟨fun _ => Or.inl hb, fun _ => hstart.erases hrun⟩
  · rw [beforePage_run es ⟨[], []⟩ none _ s (beforePage_start hb) hrun]
    exact ⟨Or.inr, fun h => h.resolve_left hb⟩

/-! ### A download that breaks off, and one that never began -/

/-- `m` ticks without a datagram. -/
def quiet (m : Nat) : List Event := List.replicate m ⟨none, true⟩

/-- They go by. -/
theorem quiet_run : ∀ (m : Nat) (s : Tftp), s.tick + m ≤ 29 →
    runEvents tftpNext s (quiet m) = some { s with tick := s.tick + m }
  | 0, _, _ => rfl
  | m + 1, s, hm => by
    have htick : s.tick ≤ 28 := by omega
    have ht : timedOut s = false := by
      rw [← Bool.not_eq_true, timedOut_iff]
      exact fun ht => Nat.not_lt.mpr htick ht.2
    have hnext : tftpNext s ⟨none, true⟩ = some { s with tick := s.tick + 1 } := by
      unfold tftpNext
      rw [tftpPoll_idle ht]
      have hmod : (s.tick + 1) % 65536 = s.tick + 1 := Nat.mod_eq_of_lt (by omega)
      simp [updateLed, hmod]
    show (tftpNext s ⟨none, true⟩).bind (fun s' => runEvents tftpNext s' (quiet m)) = _
    rw [hnext, Nat.add_comm m 1, ← Nat.add_assoc]
    exact quiet_run m { s with tick := s.tick + 1 } (by rw [Nat.add_comm m 1, ← Nat.add_assoc] at hm; exact hm)

/-- They count as silence. -/
theorem timely_quiet (held : Held) (es : List Event) : ∀ m k, k + m ≤ 29 →
    timely ⟨held, some k⟩ (quiet m ++ es) = timely ⟨held, some (k + m)⟩ es
  | 0, _, _ => rfl
  | m + 1, k, hk => by
    show timely ⟨held, some k⟩ (⟨none, true⟩ :: (quiet m ++ es)) = _
    have hle : (some k).all (fun n => decide (n ≤ 28)) = true := decide_eq_true (show k ≤ 28 by omega)
    rw [timely_idle ⟨held, some k⟩ _ rfl, hle, Bool.true_and, Option.map_some, Nat.add_comm m 1, ← Nat.add_assoc]
    exact timely_quiet held es m (k + 1) (by omega)

/-- A round with a read request. -/
theorem request_next (s : Tftp) : ∃ s', tftpNext s ⟨some readRequest, false⟩ = some s' ∧ s'.tick = 0 ∧
    s'.downloadStarted = true ∧ s'.ihex = s.ihex ∧ s'.spm = s.spm ∧ s'.mark = s.mark := by
  obtain ⟨hne, hihex, hspm, _, hmark⟩ := processPacket_other readRequest_opcode s
  refine ⟨(processPacket readRequest s).2.touched, ?_, rfl, rfl, hihex, hspm, hmark⟩
  unfold tftpNext
  rw [tftpPoll_packet, if_neg hne]
  rfl

/-- A chip with an application: a flash full of jumps. -/
def jumpFlash : Spm := ⟨fun _ => 0x0C, fun _ => 0xFF, []⟩

/-- A server that has just begun on it. -/
def begunJumps : Tftp := tftpStart (resetTftp jumpFlash)

/-- A read request and `m` ticks. -/
def requestThenQuiet (m : Nat) : List Event := ⟨some readRequest, false⟩ :: quiet m

theorem requestThenQuiet_run {m : Nat} (h : m ≤ 29) : ∃ s : Tftp,
    runEvents tftpNext begunJumps (requestThenQuiet m) = some s ∧ s.tick = m ∧ s.downloadStarted = true ∧
      s.ihex = ihexInit Ihex.zero ∧ s.spm = jumpFlash ∧ s.mark = 0 := by
  obtain ⟨s, hs, htick, hd, hihex, hspm, hmark⟩ := request_next begunJumps
  have hquiet := quiet_run m s (by rw [htick, Nat.zero_add]; exact h)
  refine ⟨{ s with tick := s.tick + m }, ?_, ?_, hd, hihex, hspm, hmark⟩
  · show (tftpNext begunJumps ⟨some readRequest, false⟩).bind _ = _
    rw [hs]
    exact hquiet
  · show s.tick + m = m
    rw [htick, Nat.zero_add]

/-- **An application nobody touched is destroyed**: one read request, and the timeout that would have
    started the application erases its first page. -/
theorem untouched_erased : ∃ s : Tftp,
    runEvents tftpNext begunJumps (requestThenQuiet 29) = some s ∧ s.spm = jumpFlash ∧
    (tftpPoll none s).erased = true ∧ ¬ ErasesJustified begunJumps (requestThenQuiet 29 ++ [⟨none, false⟩]) := by
  obtain ⟨s, hrun, htick, hd, _, hspm, hmark⟩ := requestThenQuiet_run (Nat.le_refl 29)
  have hblank : ¬ s.Blank := by
    unfold Tftp.Blank
    rw [hspm]
    decide
  have herased : (tftpPoll none s).erased = true := by
    rw [tftpPoll_erased, timedOut_iff, htick]
    exact ⟨rfl, ⟨hblank, by decide⟩, hd⟩
  refine ⟨s, hrun, hspm, herased, fun hall => ?_⟩
  have hlt := hall (requestThenQuiet 29) ⟨none, false⟩ [] s rfl hrun herased
  rw [hspm, hmark] at hlt
  exact Nat.lt_irrefl 0 hlt

/-- A full block: the image of 52 bytes, and line ends. -/
def pageBlock : Bytes := (shiftedText ++ List.replicate 512 0x0A).take 512

theorem pageBlock_length : pageBlock.length = 512 := by
  unfold pageBlock
  rw [List.length_take, List.length_append, List.length_replicate]
  exact Nat.min_eq_left (Nat.le_add_left 512 _)

theorem pageBlock_page : Held.after ⟨[], []⟩ pageBlock = none := by
  have hroom : ([] : Bytes).length + pageBlock.length < 592 := by
    rw [pageBlock_length]
    decide
  have hnone : (heldBack 513 0 ⟨[], pageBlock⟩).isNone = true := by decide +kernel
  unfold Held.after
  rw [pushList_append _ _ hroom, List.nil_append, pageBlock_length]
  exact Option.isNone_iff_eq_none.mp hnone

/-- The datagram that brings it. -/
def pageDatagram : Datagram := block 1 pageBlock (Nat.le_of_eq pageBlock_length)

/-- **A round with this datagram**: the page is written, and the server goes on. -/
theorem page_next {s : Tftp} (hihex : s.ihex = ihexInit Ihex.zero) (hspm : s.spm = jumpFlash) : ∃ s',
    tftpNext s ⟨some pageDatagram, false⟩ = some s' ∧ s'.tick = 0 ∧ s'.downloadStarted = true ∧ ¬ s'.Blank := by
  have hop : pageDatagram.opcode = .data := block_opcode 1 _
  have hpk : pageDatagram.package = pageBlock := block_package 1 _
  have hsize : pageDatagram.dataSize = 512 := (block_dataSize 1 _).trans pageBlock_length
  obtain ⟨ha, h0⟩ : (firstLines jumpFlash pageBlock).1 = 1 ∧
      (firstLines jumpFlash pageBlock).2.2.mem 0 = 0x0C := by
    decide +kernel
  have hcall := callIs (inRange_init Ihex.zero) jumpFlash pageBlock
  have hinit : (ihexInit Ihex.zero).dec = ⟨[], [], 0, []⟩ := rfl
  rw [hinit, decProcess_init jumpFlash (by rw [pageBlock_length]; decide)] at hcall
  generalize firstLines jumpFlash pageBlock = a at ha h0 hcall
  rw [← hihex, ← hspm, ← hpk] at hcall
  refine ⟨(s.handOver pageDatagram).touched, ?_, rfl, rfl, ?_⟩
  · have hanswer : ¬ (ihexPackageProcess s.ihex s.spm pageDatagram.package).1 < 0 := by
      rw [hcall.answer, ha]
      decide
    unfold tftpNext
    rw [tftpPoll_packet, processPacket_data hop, if_neg hanswer, hsize]
    rfl
  · unfold Tftp.Blank
    rw [touched_spm, handOver_spm, hcall.flash, h0]
    have hlt := (a.2.2.mem 1).toNat_lt
    simp only [UInt8.toNat_ofNat]
    omega

/-- A download that breaks off after its first page. -/
def brokenOff : List Event := requestThenQuiet 28 ++ ⟨some pageDatagram, false⟩ :: quiet 29

/-- A datagram that completes the first page ends the watch, 28 ticks after the last one. -/
theorem timely_requestThenPage {dg : Datagram} (hop : dg.opcode = .data)
    (hpk : Held.after ⟨[], []⟩ dg.package = none) (timer : Bool) (es : List Event) :
    timely .start (requestThenQuiet 28 ++ ⟨some dg, timer⟩ :: es) = true := by
  unfold requestThenQuiet
  rw [List.cons_append, timely_packet _ _ rfl, Watch.next_other _ rfl readRequest_opcode]
  simp only [Option.all_some, Bool.toNat_false, Watch.start]
  rw [timely_quiet _ _ 28 0 (by decide), timely_packet _ _ rfl, Watch.next_data _ rfl hop]
  simp only [hpk, Option.map_none, Option.all_none]

/-- A round that erases page 0. -/
theorem erase_next {s : Tftp} (hd : s.downloadStarted = true) (hb : ¬ s.Blank) (ht : 28 < s.tick) :
    (tftpPoll none s).erased = true ∧ ∃ s', tftpNext s ⟨none, false⟩ = some s' := by
  have hpoll := tftpPoll_erase ((timedOut_iff s).mpr ⟨hb, ht⟩) hd
  have hnext : tftpNext s ⟨none, false⟩ = some (tftpPoll none s).s := by
    unfold tftpNext
    rw [hpoll]
    rfl
  exact ⟨by rw [hpoll], _, hnext⟩

/-- Its datagrams were in time, so the erase that ends it is justified. -/
theorem erases_justified_brokenOff : ∃ s s' : Tftp,
    runEvents tftpNext begunJumps brokenOff = some s ∧ (tftpPoll none s).erased = true ∧
    runEvents tftpNext begunJumps (brokenOff ++ [⟨none, false⟩]) = some s' ∧
    ErasesJustified begunJumps (brokenOff ++ [⟨none, false⟩]) := by
  obtain ⟨t, ht, _, _, hihex, hspm, _⟩ := requestThenQuiet_run (m := 28) (by decide)
  obtain ⟨u, hu, htick, hd, hblank⟩ := page_next hihex hspm
  have hquiet := quiet_run 29 u (by omega)
  have hrun : runEvents tftpNext begunJumps brokenOff = some { u with tick := u.tick + 29 } := by
    unfold brokenOff
    rw [runEvents_append, ht, Option.bind_some, runEvents, hu, Option.bind_some]
    exact hquiet
  obtain ⟨herased, s', hs'⟩ := erase_next (s := { u with tick := u.tick + 29 }) hd hblank (Nat.le_add_left 29 _)
  have hrun' : runEvents tftpNext begunJumps (brokenOff ++ [⟨none, false⟩]) = some s' := by
    rw [runEvents_append, hrun, Option.bind_some, runEvents, hs']
    rfl
  have hop : pageDatagram.opcode = .data := block_opcode 1 _
  have hpk : Held.after ⟨[], []⟩ pageDatagram.package = none := by
    rw [pageDatagram, block_package]
    exact pageBlock_page
  refine ⟨_, s', hrun, herased, hrun', (erases_justified_iff (resetTftp jumpFlash) s' _ hrun').mpr (Or.inr ?_)⟩
  unfold brokenOff
  rw [List.append_assoc, List.cons_append]
  exact timely_requestThenPage hop hpk false _

end SmartHome.Bootloader
