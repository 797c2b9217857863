/-
  Subject:   ihex.c IS THE LINE MACHINE. Every function of Ihex.lean, read through `Ihex.dec`.

  * `ihexPushBack_dec` -- a package into the ring;
  * `ihexGetLineLoop_readLine` -- one line off the ring;
  * `ihexDataLoop_spec`, `ihexFifoTake_spec` -- bytes into and out of the FIFO;
  * `LoopIs`, `pageLoop_lines` -- the two nested loops, by induction on the unread bytes: `loopIs_succ` is
    one round of the inner loop, `loopIs_data` its data record, `loopIs_full` a full page;
  * **`ihexPackageProcess_dec`** -- `ihex_package_process` is `decProcess`; `callIs` says so part by part.
-/
import SmartHome.Bootloader.LineMachine

namespace SmartHome.Bootloader

open SmartHome.Lib

/-! ## 1. The ring -/

theorem ihexPushByte_dec {s : Ihex} (h : InRange s) (b : UInt8) :
    (ihexPushByte s b).dec = { s.dec with unread := pushed 592 s.dec.unread b } ∧
      InRange (ihexPushByte s b) := by
  refine ⟨?_, ⟨next_lt h.head, h.trail, h.fifoHead, h.fifoTrail⟩⟩
  simp only [Ihex.dec, ihexPushByte]
  rw [window_push _ h.trail h.head]

/-- **A package goes into the ring as into the list**, also when the ring runs over. -/
theorem ihexPushBack_dec : ∀ (package : Bytes) {s : Ihex}, InRange s →
    (ihexPushBack s package).dec = s.dec.feed package ∧ InRange (ihexPushBack s package)
  | [], _, h => ⟨rfl, h⟩
  | b :: bs, s, h => by
    obtain ⟨hd, hr⟩ := ihexPushByte_dec h b
    obtain ⟨hd', hr'⟩ := ihexPushBack_dec bs hr
    refine ⟨?_, hr'⟩
    show (ihexPushBack (ihexPushByte s b) bs).dec = _
    rw [hd', hd]
    rfl

/-! ## 2. One line -/

/-- **`ihex_get_line` reads a line off the window.** -/
theorem ihexGetLineLoop_readLine {ring : Nat → UInt8} {head : Nat} (hh : head < 592) :
    ∀ (n r : Nat) (line : Bytes), r < 592 → held 592 r head = n →
      readLine line (window 592 ring r head) =
        ((ihexGetLineLoop ring head n r line).lineLen, (ihexGetLineLoop ring head n r line).line,
          window 592 ring (ihexGetLineLoop ring head n r line).readTrail head) ∧
      (ihexGetLineLoop ring head n r line).readTrail < 592
  | 0, r, line, hr, hn => by
    have e : r = head := (held_eq_zero hr).mp hn
    subst e
    simp [ihexGetLineLoop, readLine, hr]
  | n + 1, r, line, hr, hn => by
    have hne : r ≠ head := by
      intro e
      rw [(held_eq_zero hr).mpr e] at hn
      omega
    have hn' : held 592 (next 592 r) head = n := by
      have := held_next_trail hr hh hne
      omega
    have hr' := next_lt hr
    rw [window_cons ring hr hh hne]
    unfold readLine ihexGetLineLoop
    rw [if_neg hne]
    simp only
    split
    · split
      · exact ⟨rfl, hr'⟩
      · exact ihexGetLineLoop_readLine hh n _ _ hr' hn'
    · split
      · split
        · exact ⟨rfl, hr'⟩
        · exact ihexGetLineLoop_readLine hh n _ _ hr' hn'
      · split
        · exact ihexGetLineLoop_readLine hh n _ _ hr' hn'
        · exact ⟨rfl, hr'⟩

theorem ihexGetLine_readLine {s : Ihex} (h : InRange s) (hr : s.readTrail = s.bufferTrail) :
    readLine [] s.dec.unread = ((ihexGetLine s).lineLen, (ihexGetLine s).line,
        window 592 s.ringBuffer (ihexGetLine s).readTrail s.bufferHead) ∧ (ihexGetLine s).readTrail < 592 := by
  unfold ihexGetLine
  rw [hr]
  exact ihexGetLineLoop_readLine h.head _ _ [] h.trail rfl

/-! ## 3. The FIFO -/

theorem ihexFifoPush_dec {s : Ihex} (h : InRange s) (b : UInt8) :
    (ihexFifoPush s b).dec = { s.dec with fifo := pushed 256 s.dec.fifo b } ∧
      InRange (ihexFifoPush s b) := by
  refine ⟨?_, ⟨h.head, h.trail, Nat.mod_lt _ (by omega), h.fifoTrail⟩⟩
  simp only [Ihex.dec, ihexFifoPush]
  rw [← next_eq_mod h.fifoHead, window_push _ h.fifoTrail h.fifoHead]

/-- The data loop pushes the bytes it reads and adds them up. -/
theorem ihexDataLoop_spec (line : Bytes) : ∀ (n j : Nat) {s : Ihex} (checksum : UInt8), InRange s →
    (ihexDataLoop line n j s checksum).1.dec =
        s.dec.push ((List.range n).map fun i => lineByte line (j + 2 * i)) ∧
      (ihexDataLoop line n j s checksum).2 =
        ((List.range n).map fun i => lineByte line (j + 2 * i)).foldl (· + ·) checksum ∧
      InRange (ihexDataLoop line n j s checksum).1 ∧
      (ihexDataLoop line n j s checksum).1.readTrail = s.readTrail ∧
      (ihexDataLoop line n j s checksum).1.bufferTrail = s.bufferTrail
  | 0, _, _, _, h => ⟨rfl, rfl, h, rfl, rfl⟩
  | n + 1, j, s, checksum, h => by
    obtain ⟨hd, hr⟩ := ihexFifoPush_dec h (lineByte line j)
    obtain ⟨ih1, ih2, ih3, ih4, ih5⟩ :=
      ihexDataLoop_spec line n (j + 2) (checksum + lineByte line j) hr
    have hl : (List.range (n + 1)).map (fun i => lineByte line (j + 2 * i)) =
        lineByte line j :: (List.range n).map (fun i => lineByte line (j + 2 + 2 * i)) := by
      rw [List.range_succ_eq_map, List.map_cons, List.map_map]
      congr 1
      refine List.map_congr_left fun i _ => ?_
      show lineByte line (j + 2 * (i + 1)) = _
      congr 1
      omega
    rw [hl]
    refine ⟨?_, ?_, ih3, ih4, ih5⟩
    · show (ihexDataLoop line n (j + 2) _ _).1.dec = _
      rw [ih1, hd]
      rfl
    · exact ih2

/-- The unread bytes of a decoder in range fit the ring. -/
theorem InRange.unread_lt {s : Ihex} (h : InRange s) : s.dec.unread.length < 592 := by
  show (window 592 s.ringBuffer s.bufferTrail s.bufferHead).length < 592
  rw [window_length]
  exact held_lt h.trail h.head

/-- The waiting bytes of a decoder in range fit the FIFO. -/
theorem InRange.fifo_lt {s : Ihex} (h : InRange s) : s.dec.fifo.length < 256 := by
  show (window 256 s.pageFifo s.fifoTrail s.fifoHead).length < 256
  rw [window_length]
  exact held_lt h.fifoTrail h.fifoHead

/-- The wrapping 8-bit subtraction counts the waiting bytes. -/
theorem fifo_length {s : Ihex} (h : InRange s) :
    (s.fifoHead + 256 - s.fifoTrail) % 256 = s.dec.fifo.length := by
  simp only [Ihex.dec, window_length]
  rw [held_eq_mod h.fifoTrail h.fifoHead]

/-- Moving `n` waiting bytes out of the FIFO. -/
theorem ihexFifoTake_spec : ∀ (n : Nat) {s : Ihex}, InRange s → n ≤ s.dec.fifo.length →
    (ihexFifoTake n s).1 = s.dec.fifo.take n ∧ (ihexFifoTake n s).2.dec = s.dec.drop n ∧
      InRange (ihexFifoTake n s).2
  | 0, _, h, _ => ⟨by simp [ihexFifoTake], by simp [ihexFifoTake, Dec.drop], h⟩
  | n + 1, s, h, hn => by
    have hne : s.fifoTrail ≠ s.fifoHead := by
      intro e
      simp [Ihex.dec, e] at hn
    have hw := window_cons s.pageFifo h.fifoTrail h.fifoHead hne
    rw [next_eq_mod h.fifoTrail] at hw
    have hr : InRange { s with fifoTrail := (s.fifoTrail + 1) % 256 } :=
      ⟨h.head, h.trail, h.fifoHead, Nat.mod_lt _ (by omega)⟩
    have hlen : n ≤ (Ihex.dec { s with fifoTrail := (s.fifoTrail + 1) % 256 }).fifo.length := by
      simp only [Ihex.dec] at hn ⊢
      rw [hw] at hn
      simpa using hn
    obtain ⟨ih1, ih2, ih3⟩ := ihexFifoTake_spec n hr hlen
    refine ⟨?_, ?_, ih3⟩
    · show _ :: (ihexFifoTake n _).1 = _
      rw [ih1]
      simp only [Ihex.dec]
      rw [hw, List.take_succ_cons]
    · show (ihexFifoTake n _).2.dec = _
      rw [ih2]
      simp only [Ihex.dec, Dec.drop]
      rw [hw, List.drop_succ_cons]

/-! ## 4. The two nested loops -/

/-- What `ihex_get_page` does after its `while` loop. -/
def pageDone (r : PageLoop) : PageRead :=
  let err := if r.lineLen = 0 ∧ r.pageLen > 0 then HexErr.line else r.err
  if err.code ≥ HexErr.code .none then
    let p := ihexFifoTake (if r.pageLen > 128 then 128 else r.pageLen) r.s
    ⟨p.1, err, p.2⟩
  else ⟨[], err, r.s⟩

theorem ihexGetPage_eq (s : Ihex) : ihexGetPage s = pageDone (ihexGetPageLoop (held 592 s.bufferTrail s.bufferHead)
      { s with readTrail := s.bufferTrail } 0 .empty) := rfl

/-- What `ihex_package_process` does with a page, `n` rounds being left. -/
def packageDone (n : Nat) (f : Spm) (r : PageRead) : Int × Ihex × Spm :=
  if r.page.length > 0 then
    if r.s.writeAddr = 0 ∧ validImage (padded r.page) = false then (-1, r.s, f)
    else
      let f := flashPage r.s.writeAddr (padded r.page) f
      if r.err = .fileEnd then (1, r.s, f)
      else ihexPackageLoop n { r.s with writeAddr := (r.s.writeAddr + r.page.length) % 65536 } f
  else if r.err = .line ∨ r.err = .empty then (0, r.s, f)
  else (-2, r.s, f)

theorem ihexPackageLoop_succ (n : Nat) (s : Ihex) (f : Spm) :
    ihexPackageLoop (n + 1) s f = packageDone n f (ihexGetPage s) := rfl

/-- The globals a call leaves read as the machine's answer, positions in range. -/
def Refines (r : Int × Ihex × Spm) (a : Answer) : Prop :=
  (r.1, r.2.1.dec, r.2.2) = a ∧ InRange r.2.1

variable {s : Ihex} {f : Spm} {n lineLen pageLen : Nat} {err : HexErr}

/-- No line left. -/
theorem done_blank (h : InRange s) (herr : err = .empty ∨ err = .none) :
    Refines (packageDone n f (pageDone ⟨s, 0, pageLen, err⟩))
      (if pageLen > 0 ∨ err = .empty then 0 else -2, s.dec, f) := by
  by_cases hp : pageLen > 0
  · simp [pageDone, hp, HexErr.code, packageDone, Refines, h]
  · have h0 : pageLen = 0 := by omega
    subst h0
    rcases herr with rfl | rfl
    · simp [pageDone, HexErr.code, packageDone, Refines, h]
    · simp [pageDone, HexErr.code, packageDone, Refines, h, ihexFifoTake]

/-- A line that is refused, or a record whose checksum is wrong. -/
theorem done_error (h : InRange s) (hl : lineLen ≠ 0) (herr : err = .format ∨ err = .check) :
    Refines (packageDone n f (pageDone ⟨s, lineLen, pageLen, err⟩)) (-2, s.dec, f) := by
  rcases herr with rfl | rfl <;> simp [pageDone, hl, HexErr.code, packageDone, Refines, h]

/-- A record that is not all there. -/
theorem done_line (h : InRange s) (hl : lineLen ≠ 0) :
    Refines (packageDone n f (pageDone ⟨s, lineLen, pageLen, .line⟩)) (0, s.dec, f) := by
  simp [pageDone, hl, HexErr.code, packageDone, Refines, h]

/-- The end record. -/
theorem done_fileEnd (h : InRange s) (hl : lineLen ≠ 0) (hp : pageLen ≤ s.dec.fifo.length) (h128 : pageLen < 128) :
    Refines (packageDone n f (pageDone ⟨s, lineLen, pageLen, .fileEnd⟩)) (endStep s.dec f pageLen) := by
  obtain ⟨h1, h2, h3⟩ := ihexFifoTake_spec pageLen h hp
  have hw : (ihexFifoTake pageLen s).2.writeAddr = s.writeAddr := congrArg Dec.writeAddr h2
  have hlen : (s.dec.fifo.take pageLen).length = pageLen := by
    rw [List.length_take]
    omega
  have hpage : pageDone ⟨s, lineLen, pageLen, .fileEnd⟩ =
      ⟨s.dec.fifo.take pageLen, .fileEnd, (ihexFifoTake pageLen s).2⟩ := by
    have hcap : ¬ pageLen > 128 := by omega
    simp [pageDone, hl, HexErr.code, hcap, h1]
  rw [hpage]
  unfold packageDone endStep
  simp only [hlen, hw]
  by_cases h0 : pageLen = 0
  · subst h0
    rw [if_neg (by omega), if_neg (by simp), if_pos rfl]
    exact ⟨by rw [h2]; simp [Dec.drop], h3⟩
  · rw [if_pos (by omega), if_neg h0]
    by_cases hv : s.dec.refused pageLen
    · rw [if_pos hv]
      have hv' : s.writeAddr = 0 ∧ validImage (padded (s.dec.fifo.take pageLen)) = false := hv
      rw [if_pos hv']
      exact ⟨by rw [h2], h3⟩
    · rw [if_neg hv]
      have hv' : ¬ (s.writeAddr = 0 ∧ validImage (padded (s.dec.fifo.take pageLen)) = false) := hv
      rw [if_neg hv', if_pos trivial]
      exact ⟨by rw [h2]; rfl, h3⟩

/-- A full page: it is refused, or written and the outer loop goes on. -/
theorem done_full (h : InRange s) (hl : lineLen ≠ 0) (hp : 128 ≤ s.dec.fifo.length) :
    packageDone n f (pageDone ⟨s, lineLen, s.dec.fifo.length, .none⟩) =
      if s.dec.refused 128 then (-1, (ihexFifoTake 128 s).2, f) else ihexPackageLoop n
        { (ihexFifoTake 128 s).2 with writeAddr := (s.writeAddr + 128) % 65536 } (s.dec.flash 128 f) := by
  obtain ⟨h1, h2, h3⟩ := ihexFifoTake_spec 128 h hp
  have hw : (ihexFifoTake 128 s).2.writeAddr = s.writeAddr := congrArg Dec.writeAddr h2
  have hcap : (if s.dec.fifo.length > 128 then 128 else s.dec.fifo.length) = 128 := by
    split <;> omega
  have hpage : pageDone ⟨s, lineLen, s.dec.fifo.length, .none⟩ =
      ⟨s.dec.fifo.take 128, .none, (ihexFifoTake 128 s).2⟩ := by
    simp [pageDone, hl, hcap, h1]
  have hlen : (s.dec.fifo.take 128).length = 128 := by
    rw [List.length_take]
    omega
  rw [hpage]
  unfold packageDone
  simp only [hlen, hw]
  rw [if_pos (by omega)]
  rfl

/-- With nothing unread the inner loop ends at once. -/
theorem pageLoop_nil (h : InRange s) (hr : s.readTrail = s.bufferTrail) (hu : s.dec.unread = [])
    (m q : Nat) (herr : err = .empty ∨ err = .none) :
    Refines (packageDone n f (pageDone (ihexGetPageLoop m s pageLen err)))
      (lineLoop (q + 1) ⟨s.dec, f, pageLen, err⟩) := by
  have hnx : nextLine s.dec.unread = .blank := by
    rw [hu]
    rfl
  have hstep : lineStep ⟨s.dec, f, pageLen, err⟩ =
      .inl (if pageLen > 0 ∨ err = .empty then 0 else -2, s.dec, f) := by
    simp [lineStep, hnx]
  have hlast : ∃ r, ihexGetPageLoop m s pageLen err = ⟨{ s with readTrail := r }, 0, pageLen, err⟩ := by
    cases m with
    | zero => exact ⟨s.readTrail, rfl⟩
    | succ m =>
      obtain ⟨hg, _⟩ := ihexGetLine_readLine h hr
      rw [hu] at hg
      have hl : (ihexGetLine s).lineLen = 0 := (congrArg Prod.fst hg).symm
      exact ⟨(ihexGetLine s).readTrail, by simp [ihexGetPageLoop, hl]⟩
  obtain ⟨r, hloop⟩ := hlast
  rw [hloop]
  unfold lineLoop
  rw [loop_stop q hstep]
  exact done_blank (s := { s with readTrail := r }) ⟨h.head, h.trail, h.fifoHead, h.fifoTrail⟩ herr

/-- **The nested loops are the line machine**, for up to `k` unread bytes: `m` rounds left in the inner
    loop, `n` in the outer, `q` lines for the machine, each enough for the unread bytes. -/
def LoopIs (k : Nat) : Prop :=
  ∀ (s : Ihex) (f : Spm) (pageLen : Nat) (err : HexErr) (m n q : Nat),
    InRange s → s.readTrail = s.bufferTrail → s.dec.unread.length ≤ k →
    s.dec.unread.length ≤ m → s.dec.unread.length ≤ n → s.dec.unread.length < q →
    pageLen ≤ s.dec.fifo.length → pageLen < 128 → (err = .empty ∨ err = .none) →
    Refines (packageDone n f (pageDone (ihexGetPageLoop m s pageLen err)))
      (lineLoop q ⟨s.dec, f, pageLen, err⟩)

section Taken

variable {k m n q : Nat} (ih : LoopIs k)

include ih

/-- A full page is refused, or it is written and the outer loop starts over on what is left. -/
theorem loopIs_full {s : Ihex} (f : Spm) {lineLen : Nat} (h : InRange s) (hl : lineLen ≠ 0)
    (hfull : 128 ≤ s.dec.fifo.length) (hk : s.dec.unread.length ≤ k) (hn : s.dec.unread.length ≤ n)
    (hq : s.dec.unread.length < q) :
    Refines (packageDone (n + 1) f (pageDone ⟨s, lineLen, s.dec.fifo.length, .none⟩))
      (if s.dec.refused 128 then (-1, s.dec.drop 128, f)
        else lineLoop q ⟨{ s.dec.drop 128 with writeAddr := (s.dec.writeAddr + 128) % 65536 },
          s.dec.flash 128 f, 0, .empty⟩) := by
  rw [done_full h hl hfull]
  obtain ⟨_, hd, ht⟩ := ihexFifoTake_spec 128 h hfull
  generalize (ihexFifoTake 128 s).2 = t at *
  by_cases hv : s.dec.refused 128
  · rw [if_pos hv, if_pos hv]
    exact ⟨by rw [hd], ht⟩
  · rw [if_neg hv, if_neg hv, ihexPackageLoop_succ, ihexGetPage_eq]
    have hnew : Ihex.dec { t with
          writeAddr := (s.writeAddr + 128) % 65536
          readTrail := t.bufferTrail } =
        { s.dec.drop 128 with writeAddr := (s.dec.writeAddr + 128) % 65536 } := by
      rw [← hd]
      rfl
    have hheld : held 592 t.bufferTrail t.bufferHead = s.dec.unread.length := by
      have hlen := congrArg (fun d : Dec => d.unread.length) hd
      simpa [Ihex.dec] using hlen
    have hih := ih { t with
        writeAddr := (s.writeAddr + 128) % 65536
        readTrail := t.bufferTrail } (s.dec.flash 128 f) 0 .empty (held 592 t.bufferTrail t.bufferHead) n q
      ⟨ht.head, ht.trail, ht.fifoHead, ht.fifoTrail⟩ rfl
    rw [hnew] at hih
    exact hih hk (Nat.le_of_eq hheld.symm) hn hq (Nat.zero_le _) (by omega) (Or.inl rfl)

/-- A data record, from the state `s` after it was taken. -/
theorem loopIs_data {s : Ihex} (f : Spm) {line : Bytes} {lineLen pageLen : Nat} (h : InRange s)
    (hr : s.readTrail = s.bufferTrail) (hl : lineLen ≠ 0) (hk : s.dec.unread.length ≤ k)
    (hm : s.dec.unread.length ≤ m) (hn : s.dec.unread.length ≤ n) (hq : s.dec.unread.length < q) {p : Pending}
    (hstep : lineStep p = dataStep s.dec f line) :
    Refines (packageDone (n + 1) f (pageDone
      (let d := ihexDataLoop line (lineByte line 1).toNat 9 s (lineByte line 1 + lineByte line 3 + lineByte line 5)
      if d.2 + lineByte line (9 + 2 * (lineByte line 1).toNat) ≠ 0x00 then ⟨d.1, lineLen, pageLen, .check⟩
      else if (d.1.fifoHead + 256 - d.1.fifoTrail) % 256 ≥ 128 then
        ⟨d.1, lineLen, (d.1.fifoHead + 256 - d.1.fifoTrail) % 256, .none⟩
      else ihexGetPageLoop m d.1 ((d.1.fifoHead + 256 - d.1.fifoTrail) % 256) .none)))
      (lineLoop (q + 1) p) := by
  obtain ⟨hd, hck, hd1, hr1, hb1⟩ := ihexDataLoop_spec line (lineByte line 1).toNat 9
    (lineByte line 1 + lineByte line 3 + lineByte line 5) h
  simp only
  generalize ihexDataLoop line (lineByte line 1).toNat 9 s
    (lineByte line 1 + lineByte line 3 + lineByte line 5) = d at *
  have hdata : d.1.dec = s.dec.push (recData line) := hd
  have hunread : d.1.dec.unread = s.dec.unread := by
    rw [hdata]
    rfl
  rw [← hunread] at hk hm hn hq
  have hsum : d.2 + lineByte line (9 + 2 * (lineByte line 1).toNat) = recSum line := by
    rw [hck]
    rfl
  rw [hsum, fifo_length hd1]
  unfold dataStep at hstep
  simp only [← hdata] at hstep
  unfold lineLoop
  by_cases hs0 : recSum line ≠ 0
  · rw [if_pos hs0] at hstep ⊢
    rw [loop_stop q hstep]
    exact done_error hd1 hl (Or.inr rfl)
  rw [if_neg hs0] at hstep ⊢
  by_cases hfull : d.1.dec.fifo.length < 128
  · rw [if_pos hfull] at hstep
    rw [if_neg (by omega), loop_more q hstep]
    exact ih d.1 f _ _ m (n + 1) q hd1 (by rw [hr1, hb1, hr]) hk hm (Nat.le_succ_of_le hn) hq (Nat.le_refl _) hfull
      (Or.inr rfl)
  · rw [if_neg hfull] at hstep
    rw [if_pos (by omega)]
    have hpage := loopIs_full ih f hd1 hl (by omega) hk hn hq
    by_cases hv : d.1.dec.refused 128
    · rw [if_pos hv] at hstep hpage
      rw [loop_stop q hstep]
      exact hpage
    · rw [if_neg hv] at hstep hpage
      rw [loop_more q hstep]
      exact hpage

end Taken

/-- One round of the inner loop: the tests, then what the line is. -/
theorem loopIs_succ {k : Nat} (ih : LoopIs k) : LoopIs (k + 1) := by
  intro s f pageLen err m n q h hr hk hm hn hq hp h128 herr
  obtain ⟨q, rfl⟩ : ∃ q', q = q' + 1 := ⟨q - 1, by omega⟩
  by_cases hu : s.dec.unread = []
  · exact pageLoop_nil h hr hu m q herr
  have hpos : 0 < s.dec.unread.length := List.length_pos_iff.mpr hu
  obtain ⟨m, rfl⟩ : ∃ m', m = m' + 1 := ⟨m - 1, by omega⟩
  obtain ⟨n, rfl⟩ : ∃ n', n = n' + 1 := ⟨n - 1, by omega⟩
  obtain ⟨hg, hlt⟩ := ihexGetLine_readLine h hr
  -- the state after `ihex_get_line`, before anything is taken
  have h1 : InRange { s with readTrail := (ihexGetLine s).readTrail } :=
    ⟨h.head, h.trail, h.fifoHead, h.fifoTrail⟩
  have hnext : nextLine s.dec.unread =
      if (ihexGetLine s).lineLen = 0 then .blank
      else if (ihexGetLine s).lineLen > 80 then .bad
      else if (ihexGetLine s).line.getD 0 0 ≠ 0x3A then .bad
      else if (ihexGetLine s).lineLen < 11 ∨
          (lineByte (ihexGetLine s).line 1).toNat * 2 + 11 ≠ (ihexGetLine s).lineLen then .incomplete
      else .record (ihexGetLine s).line
        (window 592 s.ringBuffer (ihexGetLine s).readTrail s.bufferHead) := by
    unfold nextLine
    rw [hg]
  unfold ihexGetPageLoop
  simp only
  by_cases hl0 : (ihexGetLine s).lineLen = 0
  · rw [if_pos hl0] at hnext ⊢
    rw [lineLoop, loop_stop q (by simp only [lineStep, hnext]; rfl)]
    exact done_blank h1 herr
  rw [if_neg hl0] at hnext ⊢
  by_cases hl80 : (ihexGetLine s).lineLen > 80
  · rw [if_pos hl80] at hnext ⊢
    rw [lineLoop, loop_stop q (by simp only [lineStep, hnext]; rfl)]
    exact done_error h1 hl0 (Or.inl rfl)
  rw [if_neg hl80] at hnext ⊢
  by_cases hcol : (ihexGetLine s).line.getD 0 0 ≠ 0x3A
  · rw [if_pos hcol] at hnext ⊢
    rw [lineLoop, loop_stop q (by simp only [lineStep, hnext]; rfl)]
    exact done_error h1 hl0 (Or.inl rfl)
  rw [if_neg hcol] at hnext ⊢
  by_cases hlen : (ihexGetLine s).lineLen < 11 ∨
      (lineByte (ihexGetLine s).line 1).toNat * 2 + 11 ≠ (ihexGetLine s).lineLen
  · rw [if_pos hlen] at hnext ⊢
    rw [lineLoop, loop_stop q (by simp only [lineStep, hnext]; rfl)]
    exact done_line h1 hl0
  rw [if_neg hlen] at hnext ⊢
  have hrest := nextLine_rest_lt hnext
  -- the line is taken: the trail moves behind it
  have h2 : InRange (ihexLineTake { s with readTrail := (ihexGetLine s).readTrail }
      (ihexGetLine s).line) := ⟨h.head, hlt, h.fifoHead, h.fifoTrail⟩
  have hd2 : (ihexLineTake { s with readTrail := (ihexGetLine s).readTrail }
      (ihexGetLine s).line).dec = s.dec.take (ihexGetLine s).line
        (window 592 s.ringBuffer (ihexGetLine s).readTrail s.bufferHead) := rfl
  have hr2 : (ihexLineTake { s with readTrail := (ihexGetLine s).readTrail }
      (ihexGetLine s).line).readTrail = (ihexLineTake { s with readTrail :=
        (ihexGetLine s).readTrail } (ihexGetLine s).line).bufferTrail := rfl
  generalize (ihexGetLine s).line = line at *
  generalize ihexLineTake { s with readTrail := (ihexGetLine s).readTrail } line = s2 at *
  have hk2 : s2.dec.unread.length < s.dec.unread.length := by
    rw [hd2]
    exact hrest
  have hp2 : pageLen ≤ s2.dec.fifo.length := by
    rw [hd2]
    exact hp
  by_cases ht0 : lineByte line 7 = 0
  · rw [if_pos ht0]
    have hstep : lineStep ⟨s.dec, f, pageLen, err⟩ = dataStep s2.dec f line := by
      simp [lineStep, hnext, recType, ht0, hd2]
    exact loopIs_data ih f h2 hr2 hl0 (by omega) (by omega) (by omega) (by omega) hstep
  · rw [if_neg ht0]
    by_cases ht1 : lineByte line 7 = 1
    · rw [if_pos ht1]
      have hstep : lineStep ⟨s.dec, f, pageLen, err⟩ = .inl (endStep s2.dec f pageLen) := by
        simp [lineStep, hnext, recType, ht1, hd2]
      rw [lineLoop, loop_stop q hstep]
      exact done_fileEnd h2 hl0 hp2 h128
    · rw [if_neg ht1]
      have hstep : lineStep ⟨s.dec, f, pageLen, err⟩ = .inr ⟨s2.dec, f, pageLen, .none⟩ := by
        simp [lineStep, hnext, recType, ht0, ht1, hd2]
      rw [lineLoop, loop_more q hstep]
      exact ih s2 f _ _ m (n + 1) q h2 hr2 (by omega) (by omega) (by omega) (by omega) hp2 h128 (Or.inr rfl)

/-- **The nested loops are the line machine.** -/
theorem pageLoop_lines : ∀ k, LoopIs k
  | 0 => by
    intro s f pageLen err m n q h hr hk _ _ hq _ _ herr
    obtain ⟨q, rfl⟩ : ∃ q', q = q' + 1 := ⟨q - 1, by omega⟩
    exact pageLoop_nil h hr (List.length_eq_zero_iff.mp (by omega)) m q herr
  | k + 1 => loopIs_succ (pageLoop_lines k)

/-- **`ihex_package_process` is the line machine**, whatever the rings hold. -/
theorem ihexPackageProcess_dec {s : Ihex} (h : InRange s) (f : Spm) (package : Bytes) :
    Refines (ihexPackageProcess s f package) (decProcess s.dec f package) := by
  obtain ⟨hd, hr⟩ := ihexPushBack_dec package h
  unfold ihexPackageProcess decProcess
  simp only
  rw [ihexPackageLoop_succ, ihexGetPage_eq, ← hd]
  have hlen : held 592 (ihexPushBack s package).bufferTrail (ihexPushBack s package).bufferHead =
      (ihexPushBack s package).dec.unread.length := by
    simp [Ihex.dec]
  rw [hlen]
  exact pageLoop_lines _ { ihexPushBack s package with
      readTrail := (ihexPushBack s package).bufferTrail } f 0 .empty _ _ _
    ⟨hr.head, hr.trail, hr.fifoHead, hr.fifoTrail⟩ rfl (Nat.le_refl _) (Nat.le_refl _)
    (Nat.le_refl _) (Nat.lt_succ_self _) (Nat.zero_le _) (by omega) (Or.inl rfl)

/-- One call of `ihex_package_process`, part by part. -/
structure CallIs (r : Int × Ihex × Spm) (a : Answer) : Prop where
  answer : r.1 = a.1
  dec : r.2.1.dec = a.2.1
  flash : r.2.2 = a.2.2
  range : InRange r.2.1

theorem callIs {s : Ihex} (h : InRange s) (f : Spm) (package : Bytes) :
    CallIs (ihexPackageProcess s f package) (decProcess s.dec f package) := by
  obtain ⟨he, hr⟩ := ihexPackageProcess_dec h f package
  -- only the pair counts: neither call is to be unfolded
  generalize ihexPackageProcess s f package = r at he hr ⊢
  generalize decProcess s.dec f package = a at he ⊢
  cases he
  exact ⟨rfl, rfl, rfl, hr⟩

/-- The lines taken are those of the line machine. -/
theorem CallIs.lines {r : Int × Ihex × Spm} {a : Answer} (h : CallIs r a) : r.2.1.lines = a.2.1.lines :=
  congrArg Dec.lines h.dec

end SmartHome.Bootloader
