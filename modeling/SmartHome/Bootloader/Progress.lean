/-
  Subject:   DECODING ENDS, whatever is in the rings: what every loop of the decoder gets on with.

  No loop of ihex.c counts its rounds by what is left to read. The loop of `ihex_package_process` goes on
  as long as there are pages, the one of `ihex_get_page` goes back to `g_buffer_trail` each time it is
  entered. What they have in common is the read position: it only moves towards `g_buffer_head`. A line
  without a line end is the one thing that is taken without another byte being read, and it is not empty.

  * `unread` -- the bytes from the read position up to `g_buffer_head`;
  * `weight` -- what every round lowers: the unread bytes, then the loops from the inside out;
  * `InCall`, `inCall_tick`, `weight_tick` -- the invariant of a call and its rounds;
  * **`decoding_ends`** -- every call ends, every loop that goes on has moved the read position, and a page
    is made only after a line was taken.
-/
import SmartHome.Bootloader.Calls
import SmartHome.Bootloader.Moments

namespace SmartHome.Bootloader

open SmartHome.Lib

/-! ## 1. What a round lowers -/

/-- The loops of the decoder. -/
inductive LoopName where
  | package
  | page
  | line
  | data
  | copy
  deriving DecidableEq

/-- The loop the program stands at. -/
def Moment.loop (m : Moment) : LoopName :=
  match m.point with
  | .doLoop => .package
  | .whileLoop _ _ => .page
  | .getLine _ _ _ => .line
  | .dataLoop _ _ _ _ => .data
  | .copyLoop _ _ _ => .copy

/-- The bytes from the read position to `g_buffer_head`; `ihex_get_page` begins at `g_buffer_trail`. -/
def Moment.unread (m : Moment) : Nat :=
  match m.point with
  | .doLoop => held 592 m.g.s.bufferTrail m.g.s.bufferHead
  | _ => held 592 m.g.s.readTrail m.g.s.bufferHead

/-- A line has been begun. -/
def Point.begun : Point → Nat
  | .getLine line _ _ => if line = [] then 0 else 1
  | _ => 0

/-- The order of the loops as long as no byte is read. -/
def Point.rank : Point → Nat
  | .copyLoop page left _ => if page = [] ∧ left = 0 then 0 else 4 + left
  | .getLine _ _ _ => 1
  | .whileLoop _ _ => 2
  | .doLoop => 3
  | .dataLoop line j _ _ => 200 + (9 + 2 * (lineByte line 1).toNat - j)

/-- What every round lowers. -/
def Moment.weight (m : Moment) : Nat := 1000 * (2 * m.unread + m.point.begun) + m.point.rank

/-- What holds at a loop, besides the positions being in range: where the read position is, and whether a
    line was taken since `ihex_get_page` was entered. -/
def Point.Place (g : Globals) : Point → Prop
  | .doLoop => True
  | .whileLoop _ _ => g.s.readTrail < 592 ∧ g.entered ≤ g.s.lines.length
  | .getLine _ _ _ => g.s.readTrail < 592 ∧ g.entered ≤ g.s.lines.length
  | .dataLoop _ _ _ _ => g.s.readTrail = g.s.bufferTrail ∧ g.entered < g.s.lines.length
  | .copyLoop page left _ => left ≤ 128 ∧
      (page = [] ∧ left = 0 ∨ g.s.readTrail = g.s.bufferTrail ∧ g.entered < g.s.lines.length)

/-- **The invariant of a call.** -/
structure InCall (m : Moment) : Prop where
  range : InRange m.g.s
  place : m.point.Place m.g

/-! ## 2. One round -/

section Round

variable {g g' : Globals} {line : Bytes}

/-- Where the read position is when a line is complete. -/
theorem lineDone_spec (h : InRange g.s) (hr : g.s.readTrail < 592) (hdone : LineDone g g') :
    InRange g'.s ∧ g'.s.readTrail < 592 ∧ g'.entered = g.entered ∧ g'.s.lines = g.s.lines ∧
      held 592 g'.s.readTrail g'.s.bufferHead ≤ held 592 g.s.readTrail g.s.bufferHead := by
  rcases hdone with ⟨_, rfl⟩ | ⟨hne, rfl⟩
  · exact ⟨h, hr, rfl, rfl, Nat.le_refl _⟩
  · have hmove := held_next_trail hr h.head hne
    refine ⟨⟨h.head, h.trail, h.fifoHead, h.fifoTrail⟩, next_lt hr, rfl, rfl, ?_⟩
    show held 592 (next 592 g.s.readTrail) g.s.bufferHead ≤ _
    omega

/-- A line that was taken: the trail stands where the next one begins. -/
theorem take_spec (h : InRange g.s) (hr : g.s.readTrail < 592) (he : g.entered ≤ g.s.lines.length)
    (hdone : LineDone g g') : InRange (g'.take line).s ∧ (g'.take line).s.readTrail = (g'.take line).s.bufferTrail ∧
      (g'.take line).s.readTrail < 592 ∧ (g'.take line).entered < (g'.take line).s.lines.length := by
  obtain ⟨h', hr', he', hl', _⟩ := lineDone_spec h hr hdone
  refine ⟨⟨h'.head, hr', h'.fifoHead, h'.fifoTrail⟩, rfl, hr', ?_⟩
  show g'.entered < (g'.s.lines ++ [line]).length
  rw [he', hl', List.length_append, List.length_singleton]
  omega

/-- **Every round keeps the invariant.** -/
theorem inCall_tick {m m' : Moment} (h : InCall m) (ht : Tick m m') : InCall m' := by
  obtain ⟨hrange, hplace⟩ := h
  cases ht with
  | enterPage g => exact ⟨⟨hrange.head, hrange.trail, hrange.fifoHead, hrange.fifoTrail⟩, hrange.trail, Nat.le_refl _⟩
  | callLine g pageLen err => exact ⟨hrange, hplace⟩
  | char line c pageLen err hne hlen | skip line pageLen err hne =>
    exact ⟨⟨hrange.head, hrange.trail, hrange.fifoHead, hrange.fifoTrail⟩, next_lt hplace.1, hplace.2⟩
  | blank err => exact ⟨hrange, Nat.zero_le _, .inl ⟨rfl, rfl⟩⟩
  | data checksum pageLen err hdone hline =>
    obtain ⟨h', htrail, _, htaken⟩ := take_spec hrange hplace.1 hplace.2 hdone
    exact ⟨h', htrail, htaken⟩
  | fileEnd pageLen err hdone hline =>
    obtain ⟨h', htrail, _, htaken⟩ := take_spec hrange hplace.1 hplace.2 hdone
    refine ⟨h', ?_, .inr ⟨htrail, htaken⟩⟩
    split <;> omega
  | pass pageLen err hdone hline =>
    obtain ⟨h', _, hr', htaken⟩ := take_spec hrange hplace.1 hplace.2 hdone
    exact ⟨h', hr', Nat.le_of_lt htaken⟩
  | push d checksum checksum' pageLen hj =>
    exact ⟨⟨hrange.head, hrange.trail, Nat.mod_lt _ (by decide), hrange.fifoTrail⟩, hplace⟩
  | full line j checksum pageLen hfull => exact ⟨hrange, Nat.le_refl _, .inr hplace⟩
  | more line j checksum pageLen hless =>
    exact ⟨hrange, Nat.lt_of_le_of_lt (Nat.le_of_eq hplace.1) hrange.trail, Nat.le_of_lt hplace.2⟩
  | copy page b left err =>
    obtain ⟨hleft, hnone | hsome⟩ := hplace
    · exact absurd hnone.2 (Nat.succ_ne_zero left)
    · exact ⟨⟨hrange.head, hrange.trail, hrange.fifoHead, Nat.mod_lt _ (by decide)⟩, by omega, .inr hsome⟩
  | again f hpage herr => exact ⟨⟨hrange.head, hrange.trail, hrange.fifoHead, hrange.fifoTrail⟩, trivial⟩

/-- A line that was begun and is complete leaves less, whatever comes of it. -/
theorem weight_done {point : Point} {pageLen : Nat} {err : HexErr} (h : InRange g.s) (hr : g.s.readTrail < 592)
    (hdone : LineDone g g') (hline : TakenLine line) (hnext : Moment.unread ⟨point, g'.take line⟩ =
      held 592 g'.s.readTrail g'.s.bufferHead) (hbegun : point.begun = 0) (hrank : point.rank < 1000) :
    Moment.weight ⟨point, g'.take line⟩ < Moment.weight ⟨.getLine line pageLen err, g⟩ := by
  obtain ⟨_, _, _, _, hle⟩ := lineDone_spec h hr hdone
  have hne : line ≠ [] := fun he => absurd hline.long (by simp [he])
  have hbegun' : (Point.getLine line pageLen err).begun = 1 := if_neg hne
  have hunread : Moment.unread ⟨.getLine line pageLen err, g⟩ = held 592 g.s.readTrail g.s.bufferHead := rfl
  unfold Moment.weight
  simp only [hnext, hbegun, hbegun', hunread, Point.rank] at hrank ⊢
  omega

theorem begun_le (point : Point) : point.begun ≤ 1 := by
  cases point with
  | getLine line pageLen err =>
    simp only [Point.begun]
    split <;> omega
  | _ => exact Nat.zero_le 1

theorem rank_copyLoop_le (page : Bytes) (left : Nat) (err : HexErr) :
    (Point.copyLoop page left err).rank ≤ 4 + left := by
  simp only [Point.rank]
  split <;> omega

/-- A byte that is read is one byte less. -/
theorem unread_read {line line' : Bytes} {pageLen : Nat} {err : HexErr} (h : InRange g.s)
    (hr : g.s.readTrail < 592) (hne : g.s.readTrail ≠ g.s.bufferHead) :
    Moment.unread ⟨.getLine line' pageLen err, g.read⟩ + 1 = Moment.unread ⟨.getLine line pageLen err, g⟩ :=
  (held_next_trail hr h.head hne).symm

theorem weight_read {line line' : Bytes} {pageLen : Nat} {err : HexErr} (h : InRange g.s)
    (hr : g.s.readTrail < 592) (hne : g.s.readTrail ≠ g.s.bufferHead) :
    Moment.weight ⟨.getLine line' pageLen err, g.read⟩ < Moment.weight ⟨.getLine line pageLen err, g⟩ := by
  have hread : Moment.unread ⟨.getLine line' pageLen err, g.read⟩ + 1 = Moment.unread ⟨.getLine line pageLen err, g⟩ :=
    unread_read h hr hne
  have hbegun := begun_le (.getLine line' pageLen err)
  unfold Moment.weight
  simp only [Point.rank]
  omega

/-- **Every round lowers the weight.** -/
theorem weight_tick {m m' : Moment} (h : InCall m) (ht : Tick m m') : m'.weight < m.weight := by
  obtain ⟨hrange, hplace⟩ := h
  cases ht with
  | enterPage | callLine => exact Nat.lt_succ_self _
  | char line c pageLen err hne hlen | skip line pageLen err hne => exact weight_read hrange hplace.1 hne
  | blank err => exact Nat.lt_succ_self _
  | @data g g' line checksum pageLen err hdone hline =>
    refine weight_done hrange hplace.1 hdone hline rfl rfl ?_
    have hbyte := UInt8.toNat_lt (lineByte line 1)
    simp only [Point.rank]
    omega
  | fileEnd pageLen err hdone hline =>
    refine weight_done hrange hplace.1 hdone hline rfl rfl ?_
    refine Nat.lt_of_le_of_lt (rank_copyLoop_le _ _ _) ?_
    split <;> omega
  | pass pageLen err hdone hline =>
    refine weight_done hrange hplace.1 hdone hline rfl rfl ?_
    simp only [Point.rank]
    omega
  | push d checksum checksum' pageLen hj =>
    refine Nat.add_lt_add_left ?_ _
    simp only [Point.rank]
    omega
  | full line j checksum pageLen hfull =>
    refine Nat.add_lt_add_left (Nat.lt_of_le_of_lt (rank_copyLoop_le _ _ _) ?_) _
    simp only [Point.rank]
    omega
  | more line j checksum pageLen hless =>
    refine Nat.add_lt_add_left ?_ _
    simp only [Point.rank]
    omega
  | copy page b left err =>
    refine Nat.add_lt_add_left (Nat.lt_of_le_of_lt (rank_copyLoop_le _ _ _) ?_) _
    simp only [Point.rank, Nat.succ_ne_zero, and_false, if_false]
    omega
  | @again g page err f hpage herr =>
    obtain ⟨_, hnone | hsome⟩ := hplace
    · exact absurd hpage (by simp [hnone.1])
    · have hne : page ≠ [] := fun he => absurd hpage (by simp [he])
      have hunread : held 592 g.s.bufferTrail g.s.bufferHead = held 592 g.s.readTrail g.s.bufferHead := by
        rw [hsome.1]
      have hrank : (Point.copyLoop page 0 err).rank = 4 := if_neg fun he => hne he.1
      show 1000 * (2 * held 592 g.s.bufferTrail g.s.bufferHead + 0) + 3 <
        1000 * (2 * held 592 g.s.readTrail g.s.bufferHead + 0) + (Point.copyLoop page 0 err).rank
      omega

end Round

/-! ## 3. A call -/

/-- **What a call gets on with**: a loop that goes on has moved the read position towards `g_buffer_head`,
    by one byte in `ihex_get_line`; and a page is made only after a line was taken. -/
structure Proceeds (m₀ : Moment) : Prop where
  line : ∀ m m', Visits tick m₀ m → tick m = .inr m' → m.loop = .line → m'.loop = .line → m'.unread + 1 = m.unread
  page : ∀ m t m', Visits tick m₀ m → tick m = .inr t → Visits tick t m' → m.loop = .page → m'.loop = .page →
    m'.unread < m.unread
  package : ∀ m t m', Visits tick m₀ m → tick m = .inr t → Visits tick t m' → m.loop = .package → m'.loop = .package →
    m'.unread < m.unread
  taken : ∀ m page left err, Visits tick m₀ m → m.point = .copyLoop page left err → 0 < page.length + left →
    m.g.entered < m.g.s.lines.length

section Call

variable {m₀ m m' t : Moment}

theorem inCall_visits (h : InCall m₀) (hv : Visits tick m₀ m) : InCall m :=
  hv.invariant InCall h fun _ _ hm hs => inCall_tick hm (tick_inr hs)

/-- What is passed later weighs less. -/
theorem weight_visits (h : InCall m) (hs : tick m = .inr t) (hv : Visits tick t m') : m'.weight < m.weight :=
  hv.lt InCall Moment.weight h (fun _ _ hm hs => inCall_tick hm (tick_inr hs))
    (fun _ _ hm hs => weight_tick hm (tick_inr hs)) hs

/-- At the heads of the two outer loops the weight tells the unread bytes. -/
theorem weight_head {k : Nat} (hm : m.point.begun = 0 ∧ m.point.rank = k) (hm' : m'.point.begun = 0 ∧ m'.point.rank = k)
    (h : m'.weight < m.weight) : m'.unread < m.unread := by
  unfold Moment.weight at h
  rw [hm.1, hm.2, hm'.1, hm'.2] at h
  omega

theorem head_page (h : m.loop = .page) : m.point.begun = 0 ∧ m.point.rank = 2 := by
  obtain ⟨point, g⟩ := m
  cases point with
  | whileLoop pageLen err => exact ⟨rfl, rfl⟩
  | _ => cases h

theorem head_package (h : m.loop = .package) : m.point.begun = 0 ∧ m.point.rank = 3 := by
  obtain ⟨point, g⟩ := m
  cases point with
  | doLoop => exact ⟨rfl, rfl⟩
  | _ => cases h

/-- A round of `ihex_get_line` that goes on has read one byte. -/
theorem unread_line (h : InCall m) (ht : Tick m m') (hm : m.loop = .line) (hm' : m'.loop = .line) :
    m'.unread + 1 = m.unread := by
  obtain ⟨hrange, hplace⟩ := h
  cases ht with
  | char line c pageLen err hne hlen | skip line pageLen err hne => exact unread_read hrange hplace.1 hne
  | callLine g pageLen err => cases hm
  | _ => cases hm'

theorem proceeds (h : InCall m₀) : Proceeds m₀ where
  line _ _ hv hs := unread_line (inCall_visits h hv) (tick_inr hs)
  page _ _ _ hv hs hv' hm hm' := weight_head (head_page hm) (head_page hm') (weight_visits (inCall_visits h hv) hs hv')
  package _ _ _ hv hs hv' hm hm' :=
    weight_head (head_package hm) (head_package hm') (weight_visits (inCall_visits h hv) hs hv')
  taken m page left err hv hpoint hpos := by
    have hplace := (inCall_visits h hv).place
    rw [hpoint] at hplace
    rcases hplace.2 with hnone | hsome
    · exact absurd hpos (by simp [hnone.1, hnone.2])
    · exact hsome.2

end Call

/-- **Decoding ends**: from every state with its positions in range, overrun rings and earlier errors
    included, a call of `ihex_package_process` on any package comes to its answer, and on the way every loop
    gets on. -/
theorem decoding_ends {s : Ihex} (h : InRange s) (f : Spm) (queue package : Bytes) :
    EndsAs (.inr (enter s f queue package)) (ihexPackageProcess s f package) ∧ Proceeds (enter s f queue package) :=
  ⟨ends_package h f queue package, proceeds ⟨(ihexPushBack_dec package h).2, trivial⟩⟩

/-- From a ring that 700 colons have overrun. -/
theorem decoding_ends_overrun :
    let s := ihexPushBack Ihex.zero (List.replicate 700 0x3A)
    InRange s ∧ EndsAs (.inr (enter s erasedFlash [] [0x0A])) (ihexPackageProcess s erasedFlash [0x0A]) ∧
      Proceeds (enter s erasedFlash [] [0x0A]) := by
  intro s
  have hs : InRange s := (ihexPushBack_dec _ inRange_zero).2
  exact ⟨hs, decoding_ends hs erasedFlash [] [0x0A]⟩

end SmartHome.Bootloader
