/-
  Subject:   THE PAGE FIFO COUNTS RIGHT: from `ihex_init` on, at every moment of every call, as long as no
             call has failed.

  How many bytes wait in `g_page_fifo` is never stored. It is computed from two 8-bit positions, and a FIFO
  of 256 bytes that ran over would look empty. It does not run over: fewer than 128 bytes wait when
  `ihex_get_page` is entered, however the call before it was left, a record brings 34 at most, and a page of
  128 is taken out before the next record is read.

  * `Session`, `sessionNext` -- call after call, each of them round by round; `session_call` -- the calls are
    those of Ihex.lean;
  * `Exact` -- the FIFO holds what the queue holds; `Point.Waits` -- how much that is, at each loop;
  * `counted_tick`, `counted_return` -- one round, and the round that ends a call;
  * **`occupancy_exact`** -- the bounds, the count and the write address at every moment reached.
-/
import SmartHome.Bootloader.Progress

namespace SmartHome.Bootloader

open SmartHome.Lib

/-! ## 1. Call after call -/

/-- Between two calls, with what the last one left, or at a moment inside a call. -/
inductive Session where
  | idle (r : Return)
  | busy (m : Moment)

/-- `ihex_package_process` is called, or the loop it stands at makes a round. -/
inductive SessionEvent where
  | call (package : Bytes)
  | tick

def sessionNext : Session → SessionEvent → Option Session
  | .idle r, .call package => some (.busy (enter r.1.2.1 r.1.2.2 r.2 package))
  | .busy m, .tick =>
    match tick m with
    | .inl r => some (.idle r)
    | .inr m' => some (.busy m')
  | _, _ => none

/-- Packages of at most 512 bytes, and no call after one that returned a negative value. -/
def Unfailed : Session → SessionEvent → Prop
  | .idle r, .call package => 0 ≤ r.1.1 ∧ package.length ≤ 512
  | _, _ => True

/-- After `ihex_init`. -/
def Session.start (s : Ihex) (f : Spm) : Session := .idle ((0, ihexInit s, f), [])

/-- A call that ends is a run. -/
theorem session_ends {x : Return ⊕ Moment} {r : Return} (h : Ends tick x r) : ∀ m, x = .inr m →
    Reaches sessionNext Unfailed (.busy m) (.idle r) := by
  induction h with
  | done r => exact fun m hm => by cases hm
  | @more m r h ih =>
    intro m' hm'
    cases hm'
    cases hs : tick m with
    | inl r' =>
      rw [hs] at h
      cases h
      exact .step .tick .start trivial (by simp [sessionNext, hs])
    | inr t =>
      have hstep : Reaches sessionNext Unfailed (.busy m) (.busy t) :=
        .step .tick .start trivial (by simp [sessionNext, hs])
      exact hstep.trans (ih t hs)

/-- **The calls of a session are those of Ihex.lean.** -/
theorem session_call {r : Return} (h : InRange r.1.2.1) (h0 : 0 ≤ r.1.1) {package : Bytes}
    (hlen : package.length ≤ 512) : ∃ queue, Reaches sessionNext Unfailed (.idle r)
      (.idle (ihexPackageProcess r.1.2.1 r.1.2.2 package, queue)) := by
  obtain ⟨queue, hends⟩ := ends_package h r.1.2.2 r.2 package
  exact ⟨queue, (Reaches.step (.call package) .start ⟨h0, hlen⟩ rfl).trans (session_ends hends _ rfl)⟩

/-! ## 2. What the FIFO holds -/

/-- **The FIFO holds the queue**, byte for byte, and the write address is the start of a page. -/
structure Exact (s : Ihex) (queue : Bytes) : Prop where
  range : InRange s
  fifo : s.dec.fifo = queue
  addr : s.writeAddr % 128 = 0

/-- How many bytes wait, at each loop. -/
def Point.Waits (n : Nat) : Point → Prop
  | .doLoop => n < 128
  | .whileLoop pageLen _ => n < 128 ∧ (pageLen = 0 ∨ pageLen = n)
  | .getLine _ pageLen _ => n < 128 ∧ (pageLen = 0 ∨ pageLen = n)
  | .dataLoop line j _ _ => TakenLine line ∧ ∃ i, j = 9 + 2 * i ∧ i ≤ (lineByte line 1).toNat ∧ n < 128 + i
  -- what is left to copy waits, and less than a page will wait behind it
  | .copyLoop page left err => left ≤ n ∧ n ≤ 161 ∧ n < 128 + left ∧
      (err = .fileEnd ∨ page.length + left = 128 ∨ page = [] ∧ left = 0)

/-- **The invariant of a session**, inside a call. -/
structure Counted (m : Moment) : Prop where
  call : InCall m
  exact : Exact m.g.s m.g.queue
  waits : m.point.Waits m.g.queue.length

/-- The 8-bit difference of the positions is the number of waiting bytes. -/
theorem Exact.length {s : Ihex} {queue : Bytes} (h : Exact s queue) :
    (s.fifoHead + 256 - s.fifoTrail) % 256 = queue.length := by
  rw [fifo_length h.range, h.fifo]

/-- A record brings 34 bytes at most. -/
theorem TakenLine.len_le {line : Bytes} (h : TakenLine line) : (lineByte line 1).toNat ≤ 34 := by
  have := h.whole
  have := h.short
  omega

/-- At no loop wait more than 161 bytes. -/
theorem Point.Waits.le {n : Nat} {point : Point} (h : point.Waits n) : n ≤ 161 := by
  cases point with
  | doLoop => exact Nat.le_trans (Nat.le_of_lt h) (by decide)
  | whileLoop | getLine => exact Nat.le_trans (Nat.le_of_lt h.1) (by decide)
  | dataLoop line j checksum pageLen =>
    obtain ⟨hline, i, _, hi, hn⟩ := h
    have := hline.len_le
    omega
  | copyLoop page left err => exact h.2.1

/-! ## 3. One round -/

section Round

variable {s : Ihex} {queue : Bytes}

/-- A byte goes in. -/
theorem Exact.push (h : Exact s queue) (hroom : queue.length + 1 < 256) (d : UInt8) :
    Exact (ihexFifoPush s d) (queue ++ [d]) := by
  obtain ⟨hd, hr⟩ := ihexFifoPush_dec h.range d
  refine ⟨hr, ?_, h.addr⟩
  rw [hd, h.fifo]
  exact if_neg (by omega)

/-- A byte comes out. -/
theorem Exact.pop (h : Exact s queue) (hne : queue ≠ []) :
    Exact { s with fifoTrail := (s.fifoTrail + 1) % 256 } queue.tail := by
  have hhead : s.fifoTrail ≠ s.fifoHead := by
    intro he
    refine hne (h.fifo.symm.trans ?_)
    show window 256 s.pageFifo s.fifoTrail s.fifoHead = []
    rw [he, window_self]
  have hw : window 256 s.pageFifo s.fifoTrail s.fifoHead = _ :=
    window_cons s.pageFifo h.range.fifoTrail h.range.fifoHead hhead
  refine ⟨⟨h.range.head, h.range.trail, h.range.fifoHead, Nat.mod_lt _ (by decide)⟩, ?_, h.addr⟩
  rw [← h.fifo]
  show window 256 s.pageFifo ((s.fifoTrail + 1) % 256) s.fifoHead = (window 256 s.pageFifo s.fifoTrail s.fifoHead).tail
  rw [hw, ← next_eq_mod h.range.fifoTrail]
  rfl

/-- The other positions do not matter. -/
theorem Exact.moved (h : Exact s queue) {t : Ihex} (hr : InRange t) (hd : t.dec.fifo = s.dec.fifo)
    (ha : t.writeAddr = s.writeAddr) : Exact t queue := ⟨hr, hd.trans h.fifo, ha ▸ h.addr⟩

/-- A line that was read and taken. -/
theorem Exact.line {g g' : Globals} (h : Exact g.s g.queue) {line : Bytes} (hr : InRange (g'.take line).s)
    (hdone : LineDone g g') : Exact (g'.take line).s (g'.take line).queue := by
  rcases hdone with ⟨_, rfl⟩ | ⟨_, rfl⟩ <;> exact h.moved hr rfl rfl

theorem lineDone_queue {g g' : Globals} (hdone : LineDone g g') (line : Bytes) :
    (g'.take line).queue = g.queue := by
  rcases hdone with ⟨_, rfl⟩ | ⟨_, rfl⟩ <;> rfl

end Round

/-- Every round keeps the FIFO and the queue in step. -/
theorem exact_tick {m m' : Moment} (h : Counted m) (ht : Tick m m') : Exact m'.g.s m'.g.queue := by
  have hcall := inCall_tick h.call ht
  obtain ⟨_, hexact, hwaits⟩ := h
  cases ht with
  | enterPage g => exact hexact.moved hcall.range rfl rfl
  | callLine g pageLen err => exact hexact
  | char | skip => exact hexact.moved hcall.range rfl rfl
  | blank err => exact hexact
  | data checksum pageLen err hdone hline | fileEnd pageLen err hdone hline | pass pageLen err hdone hline =>
    exact hexact.line hcall.range hdone
  | push d checksum checksum' pageLen hj =>
    have hle := hwaits.le
    exact hexact.push (by omega) d
  | full | more => exact hexact
  | @copy g page b left err =>
    have hleft : left + 1 ≤ g.queue.length := hwaits.1
    exact hexact.pop (List.ne_nil_of_length_pos (Nat.lt_of_lt_of_le (Nat.succ_pos left) hleft))
  | @again g page err f hpage herr =>
    -- only full pages are behind the write address
    have hpage128 : page.length = 128 := by
      rcases hwaits.2.2.2 with he | he | he
      · exact absurd he herr
      · exact he
      · exact absurd hpage (by simp [he.1])
    have haddr : g.s.writeAddr % 128 = 0 := hexact.addr
    refine ⟨hcall.range, hexact.fifo, ?_⟩
    show (g.s.writeAddr + page.length) % 65536 % 128 = 0
    omega

/-- Every round keeps the bounds on how much waits. -/
theorem waits_tick {m m' : Moment} (h : Counted m) (ht : Tick m m') : m'.point.Waits m'.g.queue.length := by
  obtain ⟨_, hexact, hwaits⟩ := h
  cases ht with
  | enterPage g => exact ⟨hwaits, .inl rfl⟩
  | callLine | char | skip => exact hwaits
  | blank err =>
    obtain ⟨hn, _⟩ := hwaits
    exact ⟨Nat.zero_le _, Nat.le_trans (Nat.le_of_lt hn) (by decide), hn, .inr (.inr ⟨rfl, rfl⟩)⟩
  | data checksum pageLen err hdone hline =>
    simp only [lineDone_queue hdone]
    exact ⟨hline, 0, rfl, Nat.zero_le _, hwaits.1⟩
  | @fileEnd g g' line pageLen err hdone hline =>
    simp only [lineDone_queue hdone]
    have hn : g.queue.length < 128 := hwaits.1
    have hp : pageLen = 0 ∨ pageLen = g.queue.length := hwaits.2
    have hcap : (if pageLen > 128 then 128 else pageLen) = pageLen := if_neg (by omega)
    rw [hcap]
    exact ⟨by omega, by omega, by omega, .inl rfl⟩
  | pass pageLen err hdone hline =>
    simp only [lineDone_queue hdone]
    exact hwaits
  | push d checksum checksum' pageLen hj =>
    obtain ⟨hline, i, rfl, _, hn⟩ := hwaits
    refine ⟨hline, i + 1, rfl, by omega, ?_⟩
    rw [List.length_append, List.length_singleton]
    exact Nat.add_lt_add_right hn 1
  | @full g line j checksum pageLen hfull =>
    have hle : g.queue.length ≤ 161 := hwaits.le
    have hfull : 128 ≤ g.queue.length := hexact.length ▸ hfull
    exact ⟨hfull, hle, by simp only; omega, .inr (.inl rfl)⟩
  | @more g line j checksum pageLen hless =>
    have hlen : (g.s.fifoHead + 256 - g.s.fifoTrail) % 256 = g.queue.length := hexact.length
    rw [hlen] at hless ⊢
    exact ⟨hless, .inr rfl⟩
  | @copy g page b left err =>
    obtain ⟨hleft, hle, hlt, hcase⟩ := hwaits
    simp only [List.length_tail] at hleft hle hlt ⊢
    refine ⟨by omega, by omega, by omega, ?_⟩
    rcases hcase with he | he | he
    · exact .inl he
    · exact .inr (.inl (by rw [List.length_append, List.length_singleton]; omega))
    · exact absurd he.2 (Nat.succ_ne_zero left)
  | again f hpage herr =>
    obtain ⟨_, _, hlt, _⟩ := hwaits
    exact hlt

/-- **Every round keeps the count.** -/
theorem counted_tick {m m' : Moment} (h : Counted m) (ht : Tick m m') : Counted m' :=
  ⟨inCall_tick h.call ht, exact_tick h ht, waits_tick h ht⟩

/-! ## 4. The round that ends a call -/

section Return

variable {g : Globals} {page line : Bytes} {err : HexErr} {lineLen pageLen : Nat} {r : Return}

/-- A call ends with the globals as they are. -/
theorem endPackage_inl (h : endPackage g page err = .inl r) : r.1.2.1 = g.s ∧ r.2 = g.queue := by
  unfold endPackage at h
  split at h
  · split at h
    · cases h
      exact ⟨rfl, rfl⟩
    · simp only at h
      split at h
      · cases h
        exact ⟨rfl, rfl⟩
      · cases h
  · split at h
    · cases h
      exact ⟨rfl, rfl⟩
    · cases h
      exact ⟨rfl, rfl⟩

theorem endPage_inl (h : endPage g lineLen pageLen err = .inl r) : r.1.2.1 = g.s ∧ r.2 = g.queue := by
  unfold endPage at h
  simp only at h
  generalize (if lineLen = 0 ∧ pageLen > 0 then HexErr.line else err) = err' at h
  split at h
  · cases h
  · exact endPackage_inl h

/-- A line that ends a call was not taken. -/
theorem afterLine_inl (h : afterLine g lineLen line pageLen err = .inl r) : r.1.2.1 = g.s ∧ r.2 = g.queue := by
  unfold afterLine at h
  split at h
  · exact endPage_inl h
  · rename_i hl0
    split at h
    · exact endPage_inl h
    · split at h
      · exact endPage_inl h
      · simp only at h
        split at h
        · exact endPage_inl h
        · split at h
          · cases h
          · split at h
            · -- the end record gives a page, be it an empty one
              have hcode : HexErr.fileEnd.code ≥ HexErr.code .none := by decide
              simp only [endPage, hl0, false_and, if_false, if_pos hcode] at h
              cases h
            · cases h

/-- A record that ends a call was wrong. -/
theorem afterData_inl {j : Nat} {checksum : UInt8} (hl : line.length ≠ 0)
    (h : afterData g line j checksum pageLen = .inl r) : r.1.1 < 0 := by
  unfold afterData at h
  split at h
  · have hcode : ¬ HexErr.check.code ≥ HexErr.code .none := by decide
    simp only [endPage, hl, false_and, if_false, if_neg hcode] at h
    cases h
    exact Int.negSucc_lt_zero 1
  · simp only at h
    split at h
    · have hcode : HexErr.none.code ≥ HexErr.code .none := by decide
      simp only [endPage, hl, false_and, if_false, if_pos hcode] at h
      cases h
    · cases h

end Return

/-- `ihex_get_line` may have read a byte, nothing else has changed. -/
theorem getLine_inl (h : tick ⟨.getLine line pageLen err, g⟩ = .inl r) :
    (r.1.2.1 = g.s ∨ r.1.2.1 = g.read.s) ∧ r.2 = g.queue := by
  simp only [tick] at h
  split at h
  · obtain ⟨hs, hq⟩ := afterLine_inl h
    exact ⟨.inl hs, hq⟩
  · split at h
    · split at h
      · obtain ⟨hs, hq⟩ := afterLine_inl h
        exact ⟨.inr hs, hq⟩
      · cases h
    · split at h
      · split at h
        · obtain ⟨hs, hq⟩ := afterLine_inl h
          exact ⟨.inr hs, hq⟩
        · cases h
      · split at h
        · cases h
        · obtain ⟨hs, hq⟩ := afterLine_inl h
          exact ⟨.inr hs, hq⟩

/-- **A call that does not fail leaves less than a page waiting.** -/
theorem counted_return {m : Moment} {r : Return} (h : Counted m) (ht : tick m = .inl r) (h0 : 0 ≤ r.1.1) :
    Exact r.1.2.1 r.2 ∧ r.2.length < 128 := by
  obtain ⟨point, g⟩ := m
  obtain ⟨hcall, hexact, hwaits⟩ := h
  have hrange := hcall.range
  cases point with
  | doLoop | whileLoop => cases ht
  | getLine line pageLen err =>
    have hread : InRange g.read.s := ⟨hrange.head, hrange.trail, hrange.fifoHead, hrange.fifoTrail⟩
    obtain ⟨hs, hq⟩ := getLine_inl ht
    rw [hq]
    refine ⟨?_, hwaits.1⟩
    rcases hs with hs | hs
    · rw [hs]
      exact hexact
    · rw [hs]
      exact hexact.moved hread rfl rfl
  | dataLoop line j checksum pageLen =>
    simp only [tick] at ht
    split at ht
    · cases ht
    · have hline := hwaits.1.long
      exact absurd h0 (Int.not_le.mpr (afterData_inl (by omega) ht))
  | copyLoop page left err =>
    cases left with
    | zero =>
      obtain ⟨hs, hq⟩ := endPackage_inl ht
      rw [hs, hq]
      exact ⟨hexact, hwaits.2.2.1⟩
    | succ left => cases ht

/-! ## 5. Every moment -/

/-- The invariant of a session. -/
def Session.Counts : Session → Prop
  | .idle r => 0 ≤ r.1.1 → Exact r.1.2.1 r.2 ∧ r.2.length < 128
  | .busy m => Counted m

theorem counts_start (s : Ihex) (f : Spm) : (Session.start s f).Counts := by
  refine fun _ => ⟨⟨inRange_init s, ?_, rfl⟩, Nat.zero_lt_succ _⟩
  exact window_self 256 s.pageFifo 0

theorem counts_step {x x' : Session} {e : SessionEvent} (h : x.Counts) (hok : Unfailed x e)
    (hs : sessionNext x e = some x') : x'.Counts := by
  cases x with
  | idle r =>
    cases e with
    | tick => cases hs
    | call package =>
      cases hs
      obtain ⟨hexact, hlen⟩ := h hok.1
      have hrange := (ihexPushBack_dec package hexact.range).2
      have hdec := (ihexPushBack_dec package hexact.range).1
      have hfifo : (ihexPushBack r.1.2.1 package).dec.fifo = r.1.2.1.dec.fifo := by
        rw [hdec]
        rfl
      have haddr : (ihexPushBack r.1.2.1 package).dec.writeAddr = r.1.2.1.dec.writeAddr := by
        rw [hdec]
        rfl
      exact ⟨⟨hrange, trivial⟩, hexact.moved hrange hfifo haddr, hlen⟩
  | busy m =>
    cases e with
    | call package => cases hs
    | tick =>
      simp only [sessionNext] at hs
      cases ht : tick m with
      | inl r =>
        rw [ht] at hs
        cases hs
        exact counted_return h ht
      | inr m' =>
        rw [ht] at hs
        cases hs
        exact counted_tick h (tick_inr ht)

/-- **The occupancy is exact**: from `ihex_init` on, at every moment inside a call, as long as no call has
    returned a negative value, fewer than 128 bytes wait when `ihex_get_page` is entered and never more than
    161; the 8-bit difference of the positions is their number, the FIFO holds them, and `g_writeAddr` is
    the start of a page. -/
theorem occupancy_exact (s : Ihex) (f : Spm) {m : Moment}
    (h : Reaches sessionNext Unfailed (Session.start s f) (.busy m)) :
    (m.point = .doLoop → m.g.queue.length < 128) ∧ m.g.queue.length ≤ 161 ∧
      (m.g.s.fifoHead + 256 - m.g.s.fifoTrail) % 256 = m.g.queue.length ∧
      window 256 m.g.s.pageFifo m.g.s.fifoTrail m.g.s.fifoHead = m.g.queue ∧ m.g.s.writeAddr % 128 = 0 := by
  have hcounted : Counted m := h.invariant Session.Counts (counts_start s f)
    fun _ _ _ hx hok hs => counts_step hx hok hs
  obtain ⟨_, hexact, hwaits⟩ := hcounted
  refine ⟨fun hpoint => ?_, hwaits.le, hexact.length, hexact.fifo, hexact.addr⟩
  rw [hpoint] at hwaits
  exact hwaits

/-! ### Two records in two calls -/

instance (x : Session) (e : SessionEvent) : Decidable (Unfailed x e) :=
  match x, e with
  | .idle _, .call _ => inferInstanceAs (Decidable (_ ∧ _))
  | .idle _, .tick => isTrue trivial
  | .busy _, .call _ => isTrue trivial
  | .busy _, .tick => isTrue trivial

/-- How many bytes wait, inside a call. -/
def Session.waiting : Session → Option Nat
  | .idle _ => none
  | .busy m => some m.g.queue.length

/-- A record of four vectors, in a package of its own. -/
def recordPackage (addr : Nat) : Bytes := linesText (hexLines [0x0A] addr [vectors 4])

/-- One record through, and a second call in the middle of the next record. -/
def twoRecords : List SessionEvent :=
  .call (recordPackage 0) :: List.replicate 65 .tick ++ .call (recordPackage 16) :: List.replicate 51 .tick

/-- Five bytes of it wait behind the sixteen of the first call. -/
theorem occupancy_exact_twoRecords : ∃ m : Moment,
    Reaches sessionNext Unfailed (Session.start Ihex.zero erasedFlash) (.busy m) ∧ m.g.queue.length = 21 ∧
    (m.g.s.fifoHead + 256 - m.g.s.fifoTrail) % 256 = 21 ∧
    window 256 m.g.s.pageFifo m.g.s.fifoTrail m.g.s.fifoHead = m.g.queue := by
  have hlen : (runEvents (fun x e => if Unfailed x e then sessionNext x e else none)
      (Session.start Ihex.zero erasedFlash) twoRecords).bind Session.waiting = some 21 := by
    decide +kernel
  obtain ⟨x, hx, hwaiting⟩ := Option.bind_eq_some_iff.mp hlen
  have hrun := Reaches.guarded .start hx
  cases x with
  | idle r => cases hwaiting
  | busy m =>
    have hqueue : m.g.queue.length = 21 := Option.some.inj hwaiting
    obtain ⟨_, _, hcount, hfifo, _⟩ := occupancy_exact Ihex.zero erasedFlash hrun
    exact ⟨m, hrun, hqueue, hcount.trans hqueue, hfifo⟩

end SmartHome.Bootloader
