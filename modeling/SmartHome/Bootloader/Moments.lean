/-
  Subject:   THE DECODER STEP BY STEP: every moment inside `ihex_package_process`, without a bound on its loops.

  Ihex.lean gives what the functions of ihex.c return, and its loops have bounds that the source does not
  have. Here the same statements are the rounds of one machine: it stands at the head of a loop, and one
  tick is one round of it. So there are moments inside a call, and it is a question whether a call ends.

  * `Point` -- the five loops and what is live at their heads; `Globals` -- the globals of ihex.c, the flash,
    and two things the program does not have: the bytes that wait, as an ideal queue would hold them, and
    how many lines had been taken when `ihex_get_page` was last entered;
  * `tick`, `enter` -- the machine; `endPage`, `endPackage`, `afterLine`, `afterData` -- what follows a loop;
  * `ends_getLine`, `ends_dataLoop`, `ends_copyLoop` -- the inner loops end as the functions of Ihex.lean say;
  * **`ends_package`** -- and so does `ihex_package_process`, from every state with its positions in range;
  * `Tick`, `tick_inr` -- what a round that goes on can do, all of it.
-/
import SmartHome.Bootloader.IhexLines

namespace SmartHome.Bootloader

open SmartHome.Lib

/-! ## 1. The machine -/

/-- The head of a loop, with the locals that are live there. -/
inductive Point where
  /-- The loop of `ihex_package_process`: `ihex_get_page` is entered. -/
  | doLoop
  /-- The `while` of `ihex_get_page`: `ihex_get_line` is called. -/
  | whileLoop (pageLen : Nat) (err : HexErr)
  /-- The `while` of `ihex_get_line`, `line` being in the line buffer. -/
  | getLine (line : Bytes) (pageLen : Nat) (err : HexErr)
  /-- The loop over the data of a record. -/
  | dataLoop (line : Bytes) (j : Nat) (checksum : UInt8) (pageLen : Nat)
  /-- The loop that moves `left` more bytes out of the FIFO. -/
  | copyLoop (page : Bytes) (left : Nat) (err : HexErr)

/-- The globals and the flash. `queue`: what was put into the FIFO and not taken out again; `entered`: the
    number of lines taken when `ihex_get_page` was entered. -/
structure Globals where
  s : Ihex
  f : Spm
  queue : Bytes
  entered : Nat

structure Moment where
  point : Point
  g : Globals

/-- What a call leaves: the answer, the globals, the flash; and the queue. -/
abbrev Return := (Int × Ihex × Spm) × Bytes

/-- What `ihex_package_process` does when `ihex_get_page` has returned. -/
def endPackage (g : Globals) (page : Bytes) (err : HexErr) : Return ⊕ Moment :=
  if page.length > 0 then
    if g.s.writeAddr = 0 ∧ validImage (padded page) = false then .inl ((-1, g.s, g.f), g.queue)
    else
      let f := flashPage g.s.writeAddr (padded page) g.f
      if err = .fileEnd then .inl ((1, g.s, f), g.queue)
      else .inr ⟨.doLoop, { g with s := { g.s with writeAddr := (g.s.writeAddr + page.length) % 65536 }, f := f }⟩
  else if err = .line ∨ err = .empty then .inl ((0, g.s, g.f), g.queue)
  else .inl ((-2, g.s, g.f), g.queue)

/-- What `ihex_get_page` does after its `while` loop, up to the loop that fills `page_data`. -/
def endPage (g : Globals) (lineLen pageLen : Nat) (err : HexErr) : Return ⊕ Moment :=
  let err := if lineLen = 0 ∧ pageLen > 0 then HexErr.line else err
  if err.code ≥ HexErr.code .none then .inr ⟨.copyLoop [] (if pageLen > 128 then 128 else pageLen) err, g⟩
  else endPackage g [] err

/-- What `ihex_get_page` does with a line, up to the loop over its data. -/
def afterLine (g : Globals) (lineLen : Nat) (line : Bytes) (pageLen : Nat) (err : HexErr) : Return ⊕ Moment :=
  if lineLen = 0 then endPage g 0 pageLen err
  else if lineLen > 80 then endPage g lineLen pageLen .format
  else if line.getD 0 0 ≠ 0x3A then endPage g lineLen pageLen .format
  else
    let len := lineByte line 1
    if lineLen < 11 ∨ len.toNat * 2 + 11 ≠ lineLen then endPage g lineLen pageLen .line
    else
      let g := { g with s := ihexLineTake g.s line }
      let type := lineByte line 7
      if type = 0x00 then .inr ⟨.dataLoop line 9 (len + lineByte line 3 + lineByte line 5) pageLen, g⟩
      else if type = 0x01 then endPage g lineLen pageLen .fileEnd
      else .inr ⟨.whileLoop pageLen .none, g⟩

/-- What it does after the loop over the data. -/
def afterData (g : Globals) (line : Bytes) (j : Nat) (checksum : UInt8) (pageLen : Nat) : Return ⊕ Moment :=
  if checksum + lineByte line j ≠ 0x00 then endPage g line.length pageLen .check
  else
    let pageLen := (g.s.fifoHead + 256 - g.s.fifoTrail) % 256
    if pageLen ≥ 128 then endPage g line.length pageLen .none
    else .inr ⟨.whileLoop pageLen .none, g⟩

/-- **One round of the loop the program stands at.** -/
def tick (m : Moment) : Return ⊕ Moment :=
  match m.point with
  | .doLoop =>
    .inr ⟨.whileLoop 0 .empty,
      { m.g with s := { m.g.s with readTrail := m.g.s.bufferTrail }, entered := m.g.s.lines.length }⟩
  | .whileLoop pageLen err => .inr ⟨.getLine [] pageLen err, m.g⟩
  | .getLine line pageLen err =>
    if m.g.s.readTrail = m.g.s.bufferHead then afterLine m.g line.length line pageLen err
    else
      let c := m.g.s.ringBuffer m.g.s.readTrail
      let g := { m.g with s := { m.g.s with readTrail := next 592 m.g.s.readTrail } }
      if 0x30 ≤ c ∧ c ≤ 0x66 then
        let line := line ++ [c]
        if line.length ≥ 80 then afterLine g 255 line pageLen err
        else .inr ⟨.getLine line pageLen err, g⟩
      else if c = 0x0A then
        if line.length > 0 then afterLine g line.length line pageLen err
        else .inr ⟨.getLine line pageLen err, g⟩
      else if c = 0x0D then .inr ⟨.getLine line pageLen err, g⟩
      else afterLine g 255 line pageLen err
  | .dataLoop line j checksum pageLen =>
    if j < 9 + 2 * (lineByte line 1).toNat then
      let d := lineByte line j
      .inr ⟨.dataLoop line (j + 2) (checksum + d) pageLen,
        { m.g with s := ihexFifoPush m.g.s d, queue := m.g.queue ++ [d] }⟩
    else afterData m.g line j checksum pageLen
  | .copyLoop page left err =>
    match left with
    | 0 => endPackage m.g page err
    | left + 1 =>
      let b := m.g.s.pageFifo m.g.s.fifoTrail
      .inr ⟨.copyLoop (page ++ [b]) left err,
        { m.g with s := { m.g.s with fifoTrail := (m.g.s.fifoTrail + 1) % 256 }, queue := m.g.queue.tail }⟩

/-- `ihex_package_process` is called: `ihex_push_back`, then the loop. -/
def enter (s : Ihex) (f : Spm) (queue package : Bytes) : Moment :=
  ⟨.doLoop, ⟨ihexPushBack s package, f, queue, s.lines.length⟩⟩

/-! ## 2. The inner loops -/

/-- Going on from `x`, the call ends and leaves `r`. -/
def EndsAs (x : Return ⊕ Moment) (r : Int × Ihex × Spm) : Prop := ∃ queue, Ends tick x (r, queue)

theorem EndsAs.more {m : Moment} {r : Int × Ihex × Spm} (h : EndsAs (tick m) r) : EndsAs (.inr m) r := by
  obtain ⟨queue, h⟩ := h
  exact ⟨queue, .more h⟩

theorem EndsAs.done (r : Int × Ihex × Spm) (queue : Bytes) : EndsAs (.inl (r, queue)) r := ⟨queue, .done _⟩

section Inner

variable {pageLen : Nat} {err : HexErr} {a : Int × Ihex × Spm}

/-- **`ihex_get_line` ends**, with the line and the position Ihex.lean says. -/
theorem ends_getLine : ∀ (n : Nat) (g : Globals) (line : Bytes), g.s.bufferHead < 592 → g.s.readTrail < 592 →
    held 592 g.s.readTrail g.s.bufferHead = n →
    (let r := ihexGetLineLoop g.s.ringBuffer g.s.bufferHead n g.s.readTrail line
     EndsAs (afterLine { g with s := { g.s with readTrail := r.readTrail } } r.lineLen r.line pageLen err) a) →
    EndsAs (.inr ⟨.getLine line pageLen err, g⟩) a
  | 0, g, line, _, hr, hn, h => by
    have hend : g.s.readTrail = g.s.bufferHead := (held_eq_zero hr).mp hn
    refine .more ?_
    simp only [tick]
    rw [if_pos hend]
    exact h
  | n + 1, g, line, hh, hr, hn, h => by
    have hne : g.s.readTrail ≠ g.s.bufferHead := by
      intro e
      rw [(held_eq_zero hr).mpr e] at hn
      omega
    have hn' : held 592 (next 592 g.s.readTrail) g.s.bufferHead = n := by
      have := held_next_trail hr hh hne
      omega
    refine .more ?_
    simp only [tick]
    rw [if_neg hne]
    unfold ihexGetLineLoop at h
    rw [if_neg hne] at h
    simp only at h
    -- the character decides, here as there
    by_cases hc : 0x30 ≤ g.s.ringBuffer g.s.readTrail ∧ g.s.ringBuffer g.s.readTrail ≤ 0x66
    · rw [if_pos hc] at h ⊢
      by_cases hlong : (line ++ [g.s.ringBuffer g.s.readTrail]).length ≥ 80
      · rw [if_pos hlong] at h ⊢
        exact h
      · rw [if_neg hlong] at h ⊢
        exact ends_getLine n _ _ hh (next_lt hr) hn' h
    · rw [if_neg hc] at h ⊢
      by_cases hlf : g.s.ringBuffer g.s.readTrail = 0x0A
      · rw [if_pos hlf] at h ⊢
        by_cases hline : line.length > 0
        · rw [if_pos hline] at h ⊢
          exact h
        · rw [if_neg hline] at h ⊢
          exact ends_getLine n _ _ hh (next_lt hr) hn' h
      · rw [if_neg hlf] at h ⊢
        by_cases hcr : g.s.ringBuffer g.s.readTrail = 0x0D
        · rw [if_pos hcr] at h ⊢
          exact ends_getLine n _ _ hh (next_lt hr) hn' h
        · rw [if_neg hcr] at h ⊢
          exact h

/-- **The loop over the data ends**: `n` rounds are left. -/
theorem ends_dataLoop (line : Bytes) : ∀ (n j : Nat) (g : Globals) (checksum : UInt8),
    j + 2 * n = 9 + 2 * (lineByte line 1).toNat →
    (∀ queue, EndsAs (afterData { g with s := (ihexDataLoop line n j g.s checksum).1, queue := queue } line
      (9 + 2 * (lineByte line 1).toNat) (ihexDataLoop line n j g.s checksum).2 pageLen) a) →
    EndsAs (.inr ⟨.dataLoop line j checksum pageLen, g⟩) a
  | 0, j, g, checksum, hj, h => by
    have hj : j = 9 + 2 * (lineByte line 1).toNat := hj
    refine .more ?_
    simp only [tick]
    rw [if_neg (by omega), hj]
    exact h g.queue
  | n + 1, j, g, checksum, hj, h => by
    refine .more ?_
    simp only [tick]
    rw [if_pos (by omega)]
    exact ends_dataLoop line n (j + 2) _ _ (by omega) h

/-- **The loop that fills the page ends.** -/
theorem ends_copyLoop : ∀ (left : Nat) (g : Globals) (page : Bytes),
    (∀ queue, EndsAs (endPackage { g with s := (ihexFifoTake left g.s).2, queue := queue }
      (page ++ (ihexFifoTake left g.s).1) err) a) →
    EndsAs (.inr ⟨.copyLoop page left err, g⟩) a
  | 0, g, page, h => by
    refine .more ?_
    have h := h g.queue
    simp only [ihexFifoTake, List.append_nil] at h
    exact h
  | left + 1, g, page, h => by
    refine .more ?_
    refine ends_copyLoop left _ _ fun queue => ?_
    have h := h queue
    simp only [ihexFifoTake] at h
    rw [List.append_assoc, List.singleton_append]
    exact h

end Inner

/-! ## 3. The outer loops -/

section Outer

variable {g : Globals} {page : Bytes} {err : HexErr} {lineLen pageLen : Nat}

/-- No page, or the last one. -/
theorem endPackage_stop (n : Nat) (h : page = [] ∨ err = .fileEnd) :
    EndsAs (endPackage g page err) (packageDone n g.f ⟨page, err, g.s⟩) := by
  unfold endPackage packageDone
  split
  · split
    · exact .done _ _
    · rename_i hpage _
      have hend : err = .fileEnd := h.resolve_left fun he => absurd hpage (by simp [he])
      simp only [if_pos hend]
      exact .done _ _
  · split
    · exact .done _ _
    · exact .done _ _

/-- A page that is refused, or written before the loop goes on. -/
theorem endPackage_page {n : Nat} (hpage : page.length > 0) (herr : err ≠ .fileEnd)
    (h : ∀ s f, s = { g.s with writeAddr := (g.s.writeAddr + page.length) % 65536 } →
      EndsAs (.inr ⟨.doLoop, { g with s := s, f := f }⟩) (ihexPackageLoop n s f)) :
    EndsAs (endPackage g page err) (packageDone n g.f ⟨page, err, g.s⟩) := by
  unfold endPackage packageDone
  rw [if_pos hpage, if_pos hpage]
  by_cases hv : g.s.writeAddr = 0 ∧ validImage (padded page) = false
  · rw [if_pos hv, if_pos hv]
    exact .done _ _
  · rw [if_neg hv, if_neg hv, if_neg herr, if_neg herr]
    exact h _ _ rfl

/-- `ihex_get_page` returns an error. -/
theorem endPage_error (n : Nat) (hl : lineLen ≠ 0) (h : err.code < 0) :
    EndsAs (endPage g lineLen pageLen err) (packageDone n g.f (pageDone ⟨g.s, lineLen, pageLen, err⟩)) := by
  have hcode : ¬ err.code ≥ HexErr.code .none := Int.not_le.mpr h
  simp only [endPage, pageDone, hl, false_and, if_false, if_neg hcode]
  exact endPackage_stop n (.inl rfl)

/-- There was no line left. -/
theorem endPage_blank (n : Nat) (herr : err = .empty ∨ err = .none) :
    EndsAs (endPage g 0 pageLen err) (packageDone n g.f (pageDone ⟨g.s, 0, pageLen, err⟩)) := by
  by_cases hp : pageLen > 0
  · have hcode : ¬ HexErr.line.code ≥ HexErr.code .none := by decide
    simp only [endPage, pageDone, hp, and_self, if_true, if_neg hcode]
    exact endPackage_stop n (.inl rfl)
  · obtain rfl : pageLen = 0 := by omega
    rcases herr with rfl | rfl
    · have hcode : ¬ HexErr.empty.code ≥ HexErr.code .none := by decide
      simp only [endPage, pageDone, hp, and_false, if_false, if_neg hcode]
      exact endPackage_stop n (.inl rfl)
    · have hcode : HexErr.none.code ≥ HexErr.code .none := by decide
      simp only [endPage, pageDone, hp, and_false, if_false, if_pos hcode]
      exact ends_copyLoop _ _ _ fun queue => endPackage_stop (g := { g with queue := queue }) n (.inl rfl)

/-- `ihex_get_page` returns the last page, or none. -/
theorem endPage_fileEnd (n : Nat) (hl : lineLen ≠ 0) :
    EndsAs (endPage g lineLen pageLen .fileEnd) (packageDone n g.f (pageDone ⟨g.s, lineLen, pageLen, .fileEnd⟩)) := by
  have hcode : HexErr.fileEnd.code ≥ HexErr.code .none := by decide
  simp only [endPage, pageDone, hl, false_and, if_false, if_pos hcode]
  refine ends_copyLoop _ _ _ fun queue => ?_
  exact endPackage_stop (g := { g with s := (ihexFifoTake _ g.s).2, queue := queue }) n (.inr rfl)

theorem length_ihexFifoTake : ∀ (n : Nat) (s : Ihex), (ihexFifoTake n s).1.length = n
  | 0, _ => rfl
  | n + 1, _ => congrArg (· + 1) (length_ihexFifoTake n _)

/-- It returns a full page. -/
theorem endPage_full {n : Nat} (hl : lineLen ≠ 0) (hp : pageLen ≥ 128)
    (h : ∀ s f queue, s = { (ihexFifoTake 128 g.s).2 with
        writeAddr := ((ihexFifoTake 128 g.s).2.writeAddr + 128) % 65536 } →
      EndsAs (.inr ⟨.doLoop, { g with s := s, f := f, queue := queue }⟩) (ihexPackageLoop n s f)) :
    EndsAs (endPage g lineLen pageLen .none) (packageDone n g.f (pageDone ⟨g.s, lineLen, pageLen, .none⟩)) := by
  have hcode : HexErr.none.code ≥ HexErr.code .none := by decide
  have hcap : (if pageLen > 128 then 128 else pageLen) = 128 := by
    split <;> omega
  simp only [endPage, pageDone, hl, false_and, if_false, if_pos hcode, hcap]
  have hlen : (ihexFifoTake 128 g.s).1.length = 128 := length_ihexFifoTake 128 g.s
  refine ends_copyLoop _ _ _ fun queue => ?_
  rw [List.nil_append]
  refine endPackage_page (g := { g with s := (ihexFifoTake 128 g.s).2, queue := queue }) (by omega) (by decide)
    fun s f hs => h s f queue ?_
  rw [hs, hlen]

end Outer

/-- **The two outer loops end as Ihex.lean says**, for up to `k` unread bytes: `m` rounds are left for
    the inner of them and `n` for the outer, each enough for the unread bytes. -/
def LoopEnds (k : Nat) : Prop :=
  ∀ (g : Globals) (pageLen : Nat) (err : HexErr) (m n : Nat),
    InRange g.s → g.s.readTrail = g.s.bufferTrail → g.s.dec.unread.length ≤ k →
    g.s.dec.unread.length ≤ m → g.s.dec.unread.length ≤ n → (err = .empty ∨ err = .none) →
    EndsAs (.inr ⟨.whileLoop pageLen err, g⟩) (packageDone n g.f (pageDone (ihexGetPageLoop m g.s pageLen err)))

section Taken

variable {k m n : Nat} (ih : LoopEnds k)

include ih

/-- The loop of `ihex_package_process` goes on. -/
theorem loopEnds_do {g : Globals} (h : InRange g.s) (hk : g.s.dec.unread.length ≤ k) (hn : g.s.dec.unread.length ≤ n) :
    EndsAs (.inr ⟨.doLoop, g⟩) (ihexPackageLoop (n + 1) g.s g.f) := by
  refine .more ?_
  rw [ihexPackageLoop_succ, ihexGetPage_eq]
  have hheld : g.s.dec.unread.length = held 592 g.s.bufferTrail g.s.bufferHead := window_length _ _ _ _
  exact ih { g with s := { g.s with readTrail := g.s.bufferTrail }, entered := g.s.lines.length } 0 .empty _ n
    ⟨h.head, h.trail, h.fifoHead, h.fifoTrail⟩ rfl hk (Nat.le_of_eq hheld) hn (.inl rfl)

/-- A data record, from the globals after it was taken. -/
theorem loopEnds_data {g : Globals} {line : Bytes} {pageLen : Nat} (h : InRange g.s)
    (hr : g.s.readTrail = g.s.bufferTrail) (hl : line.length ≠ 0) (hk : g.s.dec.unread.length ≤ k)
    (hm : g.s.dec.unread.length ≤ m) (hn : g.s.dec.unread.length ≤ n) :
    EndsAs (.inr ⟨.dataLoop line 9 (lineByte line 1 + lineByte line 3 + lineByte line 5) pageLen, g⟩)
      (packageDone (n + 1) g.f (pageDone
        (let d := ihexDataLoop line (lineByte line 1).toNat 9 g.s (lineByte line 1 + lineByte line 3 + lineByte line 5)
        if d.2 + lineByte line (9 + 2 * (lineByte line 1).toNat) ≠ 0x00 then ⟨d.1, line.length, pageLen, .check⟩
        else if (d.1.fifoHead + 256 - d.1.fifoTrail) % 256 ≥ 128 then
          ⟨d.1, line.length, (d.1.fifoHead + 256 - d.1.fifoTrail) % 256, .none⟩
        else ihexGetPageLoop m d.1 ((d.1.fifoHead + 256 - d.1.fifoTrail) % 256) .none))) := by
  obtain ⟨hd, _, hd1, hr1, hb1⟩ := ihexDataLoop_spec line (lineByte line 1).toNat 9
    (lineByte line 1 + lineByte line 3 + lineByte line 5) h
  refine ends_dataLoop line (lineByte line 1).toNat 9 g _ rfl fun queue => ?_
  simp only
  generalize ihexDataLoop line (lineByte line 1).toNat 9 g.s
    (lineByte line 1 + lineByte line 3 + lineByte line 5) = d at *
  have hunread : d.1.dec.unread = g.s.dec.unread := by
    rw [hd]
    rfl
  rw [← hunread] at hk hm hn
  unfold afterData
  by_cases hsum : d.2 + lineByte line (9 + 2 * (lineByte line 1).toNat) ≠ 0x00
  · rw [if_pos hsum, if_pos hsum]
    exact endPage_error _ hl (by decide)
  · rw [if_neg hsum, if_neg hsum]
    simp only
    by_cases hfull : (d.1.fifoHead + 256 - d.1.fifoTrail) % 256 ≥ 128
    · rw [if_pos hfull, if_pos hfull]
      refine endPage_full (g := { g with s := d.1, queue := queue }) hl hfull fun s f queue hs => ?_
      have h128 : 128 ≤ d.1.dec.fifo.length := by
        rw [← fifo_length hd1]
        exact hfull
      obtain ⟨_, htake, ht⟩ := ihexFifoTake_spec 128 hd1 h128
      simp only at hs
      generalize (ihexFifoTake 128 d.1).2 = t at *
      have hrest : s.dec.unread = d.1.dec.unread := by
        have hunread : t.dec.unread = (d.1.dec.drop 128).unread := congrArg Dec.unread htake
        rw [hs]
        exact hunread
      rw [← hrest] at hk hn
      exact loopEnds_do ih (g := { g with s := s, f := f, queue := queue })
        (by rw [hs]; exact ⟨ht.head, ht.trail, ht.fifoHead, ht.fifoTrail⟩) hk hn
    · rw [if_neg hfull, if_neg hfull]
      exact ih { g with s := d.1, queue := queue } _ _ m (n + 1) hd1 (by rw [hr1, hb1, hr]) hk hm
        (Nat.le_succ_of_le hn) (.inr rfl)

/-- A line, with `r` as `ihex_get_line` returns it. -/
theorem loopEnds_line {g : Globals} {pageLen : Nat} {err : HexErr} {r : LineRead} (hr : ihexGetLine g.s = r)
    (h : InRange g.s) (htrail : g.s.readTrail = g.s.bufferTrail) (hk : g.s.dec.unread.length ≤ k + 1)
    (hm : g.s.dec.unread.length ≤ m + 1) (hn : g.s.dec.unread.length ≤ n) (herr : err = .empty ∨ err = .none) :
    EndsAs (afterLine { g with s := { g.s with readTrail := r.readTrail } } r.lineLen r.line pageLen err)
      (packageDone n g.f (pageDone (ihexGetPageLoop (m + 1) g.s pageLen err))) := by
  obtain ⟨hg, hlt⟩ := ihexGetLine_readLine h htrail
  unfold afterLine ihexGetPageLoop
  rw [hr] at hg hlt ⊢
  simp only
  by_cases hl0 : r.lineLen = 0
  · rw [if_pos hl0, if_pos hl0]
    exact endPage_blank n herr
  rw [if_neg hl0, if_neg hl0]
  by_cases hl80 : r.lineLen > 80
  · rw [if_pos hl80, if_pos hl80]
    exact endPage_error n hl0 (by decide)
  rw [if_neg hl80, if_neg hl80]
  by_cases hcol : r.line.getD 0 0 ≠ 0x3A
  · rw [if_pos hcol, if_pos hcol]
    exact endPage_error n hl0 (by decide)
  rw [if_neg hcol, if_neg hcol]
  by_cases hlen : r.lineLen < 11 ∨ (lineByte r.line 1).toNat * 2 + 11 ≠ r.lineLen
  · rw [if_pos hlen, if_pos hlen]
    exact endPage_error n hl0 (by decide)
  rw [if_neg hlen, if_neg hlen]
  -- the line is taken: fewer bytes are unread
  have hnext : nextLine g.s.dec.unread =
      .record r.line (window 592 g.s.ringBuffer r.readTrail g.s.bufferHead) := by
    unfold nextLine
    rw [hg]
    simp only
    rw [if_neg hl0, if_neg hl80, if_neg hcol, if_neg hlen]
  have hrest := nextLine_rest_lt hnext
  have hlength : r.line.length = r.lineLen := by
    have hline := readLine_lineLen g.s.dec.unread []
    rw [hg] at hline
    exact (hline (by omega)).symm
  have h2 : InRange (ihexLineTake { g.s with readTrail := r.readTrail } r.line) :=
    ⟨h.head, hlt, h.fifoHead, h.fifoTrail⟩
  have hd2 : (ihexLineTake { g.s with readTrail := r.readTrail } r.line).dec.unread =
      window 592 g.s.ringBuffer r.readTrail g.s.bufferHead := rfl
  have hr2 : (ihexLineTake { g.s with readTrail := r.readTrail } r.line).readTrail =
      (ihexLineTake { g.s with readTrail := r.readTrail } r.line).bufferTrail := rfl
  generalize ihexLineTake { g.s with readTrail := r.readTrail } r.line = s2 at *
  rw [← hd2] at hrest
  by_cases ht0 : lineByte r.line 7 = 0
  · rw [if_pos ht0, if_pos ht0, ← hlength]
    obtain ⟨n, rfl⟩ : ∃ n', n = n' + 1 := ⟨n - 1, by omega⟩
    exact loopEnds_data ih (g := { g with s := s2 }) h2 hr2 (by omega) (by simp only; omega) (by simp only; omega)
      (by simp only; omega)
  · rw [if_neg ht0, if_neg ht0]
    by_cases ht1 : lineByte r.line 7 = 1
    · rw [if_pos ht1, if_pos ht1]
      exact endPage_fileEnd (g := { g with s := s2 }) n hl0
    · rw [if_neg ht1, if_neg ht1]
      exact ih { g with s := s2 } _ _ m n h2 hr2 (by simp only; omega) (by simp only; omega) (by simp only; omega)
        (.inr rfl)

end Taken

/-- With nothing unread the loop of `ihex_get_page` ends at once. -/
theorem loopEnds_nil {g : Globals} {pageLen : Nat} {err : HexErr} (hhead : g.s.readTrail = g.s.bufferHead) (m n : Nat)
    (herr : err = .empty ∨ err = .none) : EndsAs (.inr ⟨.whileLoop pageLen err, g⟩)
      (packageDone n g.f (pageDone (ihexGetPageLoop m g.s pageLen err))) := by
  have hloop : ihexGetPageLoop m g.s pageLen err = ⟨g.s, 0, pageLen, err⟩ := by
    cases m with
    | zero => rfl
    | succ m =>
      have hline : ihexGetLine g.s = ⟨0, [], g.s.readTrail⟩ := by
        unfold ihexGetLine
        rw [hhead]
        have h0 : held 592 g.s.bufferHead g.s.bufferHead = 0 := by simp [held]
        rw [h0]
        rfl
      unfold ihexGetPageLoop
      rw [hline]
      rfl
  rw [hloop]
  refine .more (.more ?_)
  simp only [tick]
  rw [if_pos hhead]
  exact endPage_blank n herr

/-- **The two outer loops end.** -/
theorem loopEnds : ∀ k, LoopEnds k
  | 0 => by
    intro g pageLen err m n h hr hk _ _ herr
    have hheld : held 592 g.s.bufferTrail g.s.bufferHead = 0 := by
      rw [← window_length 592 g.s.ringBuffer]
      exact Nat.le_zero.mp hk
    exact loopEnds_nil (hr.trans ((held_eq_zero h.trail).mp hheld)) m n herr
  | k + 1 => by
    intro g pageLen err m n h hr hk hm hn herr
    cases m with
    | zero =>
      have hheld : held 592 g.s.bufferTrail g.s.bufferHead = 0 := by
        rw [← window_length 592 g.s.ringBuffer]
        exact Nat.le_zero.mp hm
      exact loopEnds_nil (hr.trans ((held_eq_zero h.trail).mp hheld)) 0 n herr
    | succ m =>
      refine .more (ends_getLine _ g [] h.head (hr ▸ h.trail) rfl ?_)
      exact loopEnds_line (loopEnds k) rfl h hr hk hm hn herr

/-- **`ihex_package_process` ends**, with what Ihex.lean says, whatever the rings hold. -/
theorem ends_package {s : Ihex} (h : InRange s) (f : Spm) (queue package : Bytes) :
    EndsAs (.inr (enter s f queue package)) (ihexPackageProcess s f package) := by
  have hlen : (ihexPushBack s package).dec.unread.length =
      held 592 (ihexPushBack s package).bufferTrail (ihexPushBack s package).bufferHead := window_length _ _ _ _
  exact loopEnds_do (loopEnds _) (ihexPushBack_dec package h).2 (Nat.le_refl _) (Nat.le_of_eq hlen)

/-! ## 4. What a round can do -/

/-- One more byte was read. -/
def Globals.read (g : Globals) : Globals := { g with s := { g.s with readTrail := next 592 g.s.readTrail } }

/-- A line was taken. -/
def Globals.take (g : Globals) (line : Bytes) : Globals := { g with s := ihexLineTake g.s line }

/-- `ihex_get_line` has left its loop: at the last byte, or with a line end. -/
def LineDone (g g' : Globals) : Prop :=
  g.s.readTrail = g.s.bufferHead ∧ g' = g ∨ g.s.readTrail ≠ g.s.bufferHead ∧ g' = g.read

/-- The tests a line has to pass before it is taken. -/
structure TakenLine (line : Bytes) : Prop where
  short : line.length ≤ 80
  long : 11 ≤ line.length
  whole : (lineByte line 1).toNat * 2 + 11 = line.length

/-- **A round that goes on**, by the loop it belongs to. -/
inductive Tick : Moment → Moment → Prop where
  | enterPage (g : Globals) : Tick ⟨.doLoop, g⟩
      ⟨.whileLoop 0 .empty, { g with s := { g.s with readTrail := g.s.bufferTrail }, entered := g.s.lines.length }⟩
  | callLine (g : Globals) (pageLen : Nat) (err : HexErr) :
      Tick ⟨.whileLoop pageLen err, g⟩ ⟨.getLine [] pageLen err, g⟩
  | char {g : Globals} (line : Bytes) (c : UInt8) (pageLen : Nat) (err : HexErr)
      (hne : g.s.readTrail ≠ g.s.bufferHead) (hlen : (line ++ [c]).length < 80) :
      Tick ⟨.getLine line pageLen err, g⟩ ⟨.getLine (line ++ [c]) pageLen err, g.read⟩
  | skip {g : Globals} (line : Bytes) (pageLen : Nat) (err : HexErr) (hne : g.s.readTrail ≠ g.s.bufferHead) :
      Tick ⟨.getLine line pageLen err, g⟩ ⟨.getLine line pageLen err, g.read⟩
  | blank {g : Globals} (err : HexErr) : Tick ⟨.getLine [] 0 err, g⟩ ⟨.copyLoop [] 0 err, g⟩
  | data {g g' : Globals} {line : Bytes} (checksum : UInt8) (pageLen : Nat) (err : HexErr)
      (hdone : LineDone g g') (hline : TakenLine line) :
      Tick ⟨.getLine line pageLen err, g⟩ ⟨.dataLoop line 9 checksum pageLen, g'.take line⟩
  | fileEnd {g g' : Globals} {line : Bytes} (pageLen : Nat) (err : HexErr)
      (hdone : LineDone g g') (hline : TakenLine line) :
      Tick ⟨.getLine line pageLen err, g⟩ ⟨.copyLoop [] (if pageLen > 128 then 128 else pageLen) .fileEnd, g'.take line⟩
  | pass {g g' : Globals} {line : Bytes} (pageLen : Nat) (err : HexErr)
      (hdone : LineDone g g') (hline : TakenLine line) :
      Tick ⟨.getLine line pageLen err, g⟩ ⟨.whileLoop pageLen .none, g'.take line⟩
  | push {g : Globals} {line : Bytes} {j : Nat} (d checksum checksum' : UInt8) (pageLen : Nat)
      (hj : j < 9 + 2 * (lineByte line 1).toNat) :
      Tick ⟨.dataLoop line j checksum pageLen, g⟩ ⟨.dataLoop line (j + 2) checksum' pageLen,
        { g with s := ihexFifoPush g.s d, queue := g.queue ++ [d] }⟩
  | full {g : Globals} (line : Bytes) (j : Nat) (checksum : UInt8) (pageLen : Nat)
      (hfull : 128 ≤ (g.s.fifoHead + 256 - g.s.fifoTrail) % 256) :
      Tick ⟨.dataLoop line j checksum pageLen, g⟩ ⟨.copyLoop [] 128 .none, g⟩
  | more {g : Globals} (line : Bytes) (j : Nat) (checksum : UInt8) (pageLen : Nat)
      (hless : (g.s.fifoHead + 256 - g.s.fifoTrail) % 256 < 128) :
      Tick ⟨.dataLoop line j checksum pageLen, g⟩
        ⟨.whileLoop ((g.s.fifoHead + 256 - g.s.fifoTrail) % 256) .none, g⟩
  | copy {g : Globals} (page : Bytes) (b : UInt8) (left : Nat) (err : HexErr) :
      Tick ⟨.copyLoop page (left + 1) err, g⟩ ⟨.copyLoop (page ++ [b]) left err,
        { g with s := { g.s with fifoTrail := (g.s.fifoTrail + 1) % 256 }, queue := g.queue.tail }⟩
  | again {g : Globals} {page : Bytes} {err : HexErr} (f : Spm) (hpage : page.length > 0) (herr : err ≠ .fileEnd) :
      Tick ⟨.copyLoop page 0 err, g⟩
        ⟨.doLoop, { g with s := { g.s with writeAddr := (g.s.writeAddr + page.length) % 65536 }, f := f }⟩

section Inversion

variable {g : Globals} {m : Moment} {page line : Bytes} {err : HexErr} {lineLen pageLen : Nat}

theorem endPackage_inr (h : endPackage g page err = .inr m) : page.length > 0 ∧ err ≠ .fileEnd ∧ ∃ f,
    m = ⟨.doLoop, { g with s := { g.s with writeAddr := (g.s.writeAddr + page.length) % 65536 }, f := f }⟩ := by
  unfold endPackage at h
  split at h
  · rename_i hpage
    split at h
    · cases h
    · simp only at h
      split at h
      · cases h
      · rename_i herr
        cases h
        exact ⟨hpage, herr, _, rfl⟩
  · split at h
    · cases h
    · cases h

theorem endPage_inr (h : endPage g lineLen pageLen err = .inr m) : 0 ≤ err.code ∧ (lineLen = 0 → pageLen = 0) ∧
    m = ⟨.copyLoop [] (if pageLen > 128 then 128 else pageLen) err, g⟩ := by
  unfold endPage at h
  simp only at h
  by_cases hline : lineLen = 0 ∧ pageLen > 0
  · have hcode : ¬ HexErr.line.code ≥ HexErr.code .none := by decide
    rw [if_pos hline, if_neg hcode] at h
    exact absurd (endPackage_inr h).1 (by decide)
  · rw [if_neg hline] at h
    by_cases hcode : err.code ≥ HexErr.code .none
    · rw [if_pos hcode] at h
      cases h
      exact ⟨hcode, fun h0 => Nat.eq_zero_of_not_pos fun hp => hline ⟨h0, hp⟩, rfl⟩
    · rw [if_neg hcode] at h
      exact absurd (endPackage_inr h).1 (by decide)

/-- No error gives a page. -/
theorem endPage_ne_inr (herr : err.code < 0) : endPage g lineLen pageLen err ≠ .inr m := fun h =>
  absurd (endPage_inr h).1 (Int.not_le.mpr herr)

theorem afterLine_ne_inr : afterLine g 255 line pageLen err ≠ .inr m := by
  have hformat : afterLine g 255 line pageLen err = endPage g 255 pageLen .format := rfl
  rw [hformat]
  exact endPage_ne_inr (by decide)

/-- What is done with a line that `ihex_get_line` returns. -/
theorem afterLine_inr {g' : Globals} (hdone : LineDone g g') (hempty : line = [] → g' = g)
    (h : afterLine g' line.length line pageLen err = .inr m) : Tick ⟨.getLine line pageLen err, g⟩ m := by
  unfold afterLine at h
  by_cases hl0 : line.length = 0
  · rw [if_pos hl0] at h
    obtain ⟨_, hp, rfl⟩ := endPage_inr h
    obtain rfl := hp rfl
    obtain rfl := List.length_eq_zero_iff.mp hl0
    rw [hempty rfl]
    exact .blank err
  rw [if_neg hl0] at h
  by_cases hl80 : line.length > 80
  · rw [if_pos hl80] at h
    exact absurd h (endPage_ne_inr (by decide))
  rw [if_neg hl80] at h
  by_cases hcol : line.getD 0 0 ≠ 0x3A
  · rw [if_pos hcol] at h
    exact absurd h (endPage_ne_inr (by decide))
  rw [if_neg hcol] at h
  simp only at h
  by_cases hlen : line.length < 11 ∨ (lineByte line 1).toNat * 2 + 11 ≠ line.length
  · rw [if_pos hlen] at h
    exact absurd h (endPage_ne_inr (by decide))
  rw [if_neg hlen] at h
  have hline : TakenLine line := ⟨by omega, by omega, by omega⟩
  by_cases ht0 : lineByte line 7 = 0
  · rw [if_pos ht0] at h
    cases h
    exact .data _ _ _ hdone hline
  rw [if_neg ht0] at h
  by_cases ht1 : lineByte line 7 = 1
  · rw [if_pos ht1] at h
    obtain ⟨_, _, rfl⟩ := endPage_inr h
    exact .fileEnd _ _ hdone hline
  · rw [if_neg ht1] at h
    cases h
    exact .pass _ _ hdone hline

theorem afterData_inr {j : Nat} {checksum : UInt8} (h : afterData g line j checksum pageLen = .inr m) :
    Tick ⟨.dataLoop line j checksum pageLen, g⟩ m := by
  unfold afterData at h
  by_cases hsum : checksum + lineByte line j ≠ 0x00
  · rw [if_pos hsum] at h
    exact absurd h (endPage_ne_inr (by decide))
  rw [if_neg hsum] at h
  simp only at h
  by_cases hfull : (g.s.fifoHead + 256 - g.s.fifoTrail) % 256 ≥ 128
  · rw [if_pos hfull] at h
    obtain ⟨_, _, rfl⟩ := endPage_inr h
    have hcap : (if (g.s.fifoHead + 256 - g.s.fifoTrail) % 256 > 128 then 128
        else (g.s.fifoHead + 256 - g.s.fifoTrail) % 256) = 128 := by
      split <;> omega
    rw [hcap]
    exact .full _ _ _ _ hfull
  · rw [if_neg hfull] at h
    cases h
    exact .more _ _ _ _ (by omega)

/-- A round of `ihex_get_line`. -/
theorem getLine_inr (h : tick ⟨.getLine line pageLen err, g⟩ = .inr m) : Tick ⟨.getLine line pageLen err, g⟩ m := by
  simp only [tick] at h
  by_cases hend : g.s.readTrail = g.s.bufferHead
  · rw [if_pos hend] at h
    exact afterLine_inr (.inl ⟨hend, rfl⟩) (fun _ => rfl) h
  rw [if_neg hend] at h
  by_cases hc : 0x30 ≤ g.s.ringBuffer g.s.readTrail ∧ g.s.ringBuffer g.s.readTrail ≤ 0x66
  · rw [if_pos hc] at h
    by_cases hlong : (line ++ [g.s.ringBuffer g.s.readTrail]).length ≥ 80
    · rw [if_pos hlong] at h
      exact absurd h afterLine_ne_inr
    · rw [if_neg hlong] at h
      cases h
      exact .char line _ pageLen err hend (by omega)
  rw [if_neg hc] at h
  by_cases hlf : g.s.ringBuffer g.s.readTrail = 0x0A
  · rw [if_pos hlf] at h
    by_cases hline : line.length > 0
    · rw [if_pos hline] at h
      exact afterLine_inr (.inr ⟨hend, rfl⟩) (fun he => absurd hline (by simp [he])) h
    · rw [if_neg hline] at h
      cases h
      exact .skip line pageLen err hend
  rw [if_neg hlf] at h
  by_cases hcr : g.s.ringBuffer g.s.readTrail = 0x0D
  · rw [if_pos hcr] at h
    cases h
    exact .skip line pageLen err hend
  · rw [if_neg hcr] at h
    exact absurd h afterLine_ne_inr

/-- **Every round that goes on is one of these.** -/
theorem tick_inr {m m' : Moment} (h : tick m = .inr m') : Tick m m' := by
  obtain ⟨point, g⟩ := m
  cases point with
  | doLoop =>
    cases h
    exact .enterPage g
  | whileLoop pageLen err =>
    cases h
    exact .callLine g pageLen err
  | getLine line pageLen err => exact getLine_inr h
  | dataLoop line j checksum pageLen =>
    simp only [tick] at h
    by_cases hj : j < 9 + 2 * (lineByte line 1).toNat
    · rw [if_pos hj] at h
      cases h
      exact .push _ _ _ _ hj
    · rw [if_neg hj] at h
      exact afterData_inr h
  | copyLoop page left err =>
    cases left with
    | zero =>
      obtain ⟨hpage, herr, f, rfl⟩ := endPackage_inr h
      exact .again f hpage herr
    | succ left =>
      cases h
      exact .copy page _ left err

end Inversion

end SmartHome.Bootloader
