/-
  Subject:   WHETHER A PACKAGE FITS INTO THE RING, for arbitrary bytes.

  `ihex_push_back` does not look at `g_buffer_trail`: a package that is longer than what is free goes
  over unread bytes. The ring is 80 bytes longer than a package, which is enough for a line that is
  not all there, and for nothing else. A call that answers 0 has stopped at such a line or at line
  ends, and takes nothing of them: line ends without a line, or a line that came to its end and is
  no record, stay at the front of the ring, and everything that comes behind them stays as well.

  * `takeRecords`, `records`, `restOf` -- the records at the front of a text, and what is behind them;
  * `decProcess_records` -- a call that answers 0 takes these records and leaves what is behind them;
  * `behind` -- what the packages leave, call after call;
  * **`room_iff`** -- every package finds room exactly if what is behind the records leaves it room;
  * `blankPackages_overrun` -- 512 line ends, twice.
-/
import SmartHome.Bootloader.Calls

namespace SmartHome.Bootloader

open SmartHome.Lib

/-! ## 1. The records of a text -/

/-- At most `n` records off the front of a text, and what is behind them. -/
def takeRecords : Nat → Bytes → List Bytes × Bytes
  | 0, u => ([], u)
  | n + 1, u =>
    match nextLine u with
    | .record line rest => (line :: (takeRecords n rest).1, (takeRecords n rest).2)
    | _ => ([], u)

/-- All records at the front of a text: each takes a character at least. -/
def records (u : Bytes) : List Bytes := (takeRecords u.length u).1

/-- What is behind them: line ends, a line that is not all there, or a line that is no record and
    all that follows it. -/
def restOf (u : Bytes) : Bytes := (takeRecords u.length u).2

/-- A text that does not begin with a record. -/
def NoRecord (u : Bytes) : Prop := ∀ line rest, nextLine u ≠ .record line rest

theorem takeRecords_none {u : Bytes} (h : NoRecord u) (n : Nat) : takeRecords n u = ([], u) := by
  cases n with
  | zero => rfl
  | succ n =>
    unfold takeRecords
    cases hl : nextLine u with
    | record line rest => exact absurd hl (h line rest)
    | blank | bad | incomplete => rfl

theorem takeRecords_record {u line rest : Bytes} (h : nextLine u = .record line rest) (n : Nat) :
    takeRecords (n + 1) u = (line :: (takeRecords n rest).1, (takeRecords n rest).2) := by
  rw [takeRecords, h]

/-- Any bound that is no shorter than the text gives all of them. -/
theorem takeRecords_enough : ∀ (n m : Nat) (u : Bytes), u.length ≤ n → u.length ≤ m →
    takeRecords n u = takeRecords m u
  | n, m, u, hn, hm => by
    by_cases hr : NoRecord u
    · rw [takeRecords_none hr, takeRecords_none hr]
    · obtain ⟨line, rest, hl⟩ : ∃ line rest, nextLine u = .record line rest := by
        simpa [NoRecord] using hr
      have hlt := nextLine_rest_lt hl
      cases n with
      | zero => exact absurd hlt (by omega)
      | succ n =>
        cases m with
        | zero => exact absurd hlt (by omega)
        | succ m =>
          rw [takeRecords_record hl, takeRecords_record hl,
            takeRecords_enough n m rest (by omega) (by omega)]

theorem records_none {u : Bytes} (h : NoRecord u) : records u = [] ∧ restOf u = u := by
  unfold records restOf
  rw [takeRecords_none h]
  exact ⟨rfl, rfl⟩

theorem records_record {u line rest : Bytes} (h : nextLine u = .record line rest) :
    records u = line :: records rest ∧ restOf u = restOf rest := by
  have hlt := nextLine_rest_lt h
  obtain ⟨m, hm⟩ : ∃ m, u.length = m + 1 := Nat.exists_eq_succ_of_ne_zero (by omega)
  unfold records restOf
  rw [hm, takeRecords_record h, takeRecords_enough m rest.length rest (by omega) (Nat.le_refl _)]
  exact ⟨rfl, rfl⟩

/-! ## 2. What a call takes -/

/-- A record that ends a call is not answered 0. -/
theorem lineStep_record_ne_zero {p : Pending} {a : Answer} {line rest : Bytes}
    (hl : nextLine p.d.unread = .record line rest) (h : lineStep p = .inl a) : a.1 ≠ 0 := by
  by_cases h0 : recType line = 0
  · rw [lineStep_data hl h0] at h
    unfold dataStep at h
    simp only at h
    split at h
    · cases h
      exact Int.neg_ne_zero.mpr (by decide)
    · split at h
      · cases h
      · split at h
        · cases h
          exact Int.neg_ne_zero.mpr (by decide)
        · cases h
  · by_cases h1 : recType line = 1
    · rw [lineStep_end hl h1] at h
      cases h
      unfold endStep
      split
      · exact Int.neg_ne_zero.mpr (by decide)
      · split
        · exact Int.neg_ne_zero.mpr (by decide)
        · exact Int.one_ne_zero
    · rw [lineStep_pass hl h0 h1] at h
      cases h

/-- A line that ends a call with answer 0 is no record, and nothing of it is taken. -/
theorem lineStep_zero {p : Pending} {a : Answer} (h : lineStep p = .inl a) (h0 : a.1 = 0) :
    a.2 = (p.d, p.f) ∧ NoRecord p.d.unread := by
  refine ⟨?_, fun line rest hl => lineStep_record_ne_zero hl h h0⟩
  rcases lineStep_stop h with ⟨_, hdf⟩ | ⟨line, rest, hl, _⟩
  · exact hdf
  · exact absurd h0 (lineStep_record_ne_zero hl h)

/-- **A call that answers 0** has taken the records at the front of the ring and nothing else. -/
theorem decProcess_records (d : Dec) (f : Spm) (package : Bytes) (h0 : (decProcess d f package).1 = 0) :
    (decProcess d f package).2.1.lines = d.lines ++ records (d.feed package).unread ∧
      (decProcess d f package).2.1.unread = restOf (d.feed package).unread := by
  -- what was taken and what is still to be taken are the records of the ring, line after line
  refine decProcess_rule
    (fun p => p.d.lines ++ records p.d.unread = d.lines ++ records (d.feed package).unread ∧
      restOf p.d.unread = restOf (d.feed package).unread)
    (fun a => a.1 = 0 → a.2.1.lines = d.lines ++ records (d.feed package).unread ∧
      a.2.1.unread = restOf (d.feed package).unread) ?_ ?_ d f package ⟨rfl, rfl⟩ h0
  · rintro p p' ⟨hlines, hrest⟩ hs
    obtain ⟨line, rest, hl, hcase⟩ := lineStep_more hs
    obtain ⟨hr, hr'⟩ := records_record hl
    have hnext : (p.d.lines ++ [line]) ++ records rest = d.lines ++ records (d.feed package).unread ∧
        restOf rest = restOf (d.feed package).unread := by
      rw [List.append_assoc, List.singleton_append, ← hr, ← hr']
      exact ⟨hlines, hrest⟩
    rcases hcase with ⟨_, _, _, rfl⟩ | ⟨_, _, _, _, rfl⟩ | ⟨_, _, rfl⟩ <;> exact hnext
  · rintro p a ⟨hlines, hrest⟩ hs ha
    obtain ⟨hdf, hnone⟩ := lineStep_zero hs ha
    obtain ⟨hr, hr'⟩ := records_none hnone
    rw [hr, List.append_nil] at hlines
    rw [hr'] at hrest
    rw [hdf]
    exact ⟨hlines, hrest⟩

/-! ## 3. Package after package -/

/-- What the first `j` packages leave behind their records when each is read with what the ones
    before it have left. -/
def behind (pk : Nat → Bytes) : Nat → Bytes
  | 0 => []
  | j + 1 => restOf (behind pk j ++ pk j)

/-- Call `j + 1` finds room: what is unread and the package fit below 592. -/
def RoomAt (pk : Nat → Bytes) (s : Ihex) (f : Spm) (j : Nat) : Prop :=
  let ring := (ihexCalls pk (ihexInit s) f j).2.1
  held 592 ring.bufferTrail ring.bufferHead + (pk j).length < 592

/-- The first `j` calls have answered 0. -/
def ZeroBefore (pk : Nat → Bytes) (s : Ihex) (f : Spm) (j : Nat) : Prop :=
  ∀ i, i < j → (ihexCalls pk (ihexInit s) f (i + 1)).1 = 0

section Series

variable {pk : Nat → Bytes} {s : Ihex} {f : Spm}

theorem ZeroBefore.mono {i j : Nat} (h : ZeroBefore pk s f j) (hij : i ≤ j) : ZeroBefore pk s f i :=
  fun k hk => h k (Nat.lt_of_lt_of_le hk hij)

/-- The bytes between the two positions of the ring, in the line machine. -/
theorem held_unread (j : Nat) :
    held 592 (ihexCalls pk (ihexInit s) f j).2.1.bufferTrail (ihexCalls pk (ihexInit s) f j).2.1.bufferHead =
      (decCalls pk (ihexInit s).dec f j).2.1.unread.length := by
  rw [← ihexCalls_decoder]
  exact (window_length _ _ _ _).symm

/-- **As long as there was room, the ring holds what is behind the records.** -/
theorem unread_behind : ∀ j, ZeroBefore pk s f j → (∀ i, i < j → RoomAt pk s f i) →
    (decCalls pk (ihexInit s).dec f j).2.1.unread = behind pk j
  | 0, _, _ => by simp [decCalls, Ihex.dec, ihexInit, behind]
  | j + 1, h0, hroom => by
    have ih := unread_behind j (h0.mono (Nat.le_succ j)) fun i hi => hroom i (Nat.lt_succ_of_lt hi)
    have hr := hroom j (Nat.lt_succ_self j)
    have hz := h0 j (Nat.lt_succ_self j)
    unfold RoomAt at hr
    simp only [held_unread] at hr
    rw [ihexCalls_answer] at hz
    have hfeed : ((decCalls pk (ihexInit s).dec f j).2.1.feed (pk j)).unread = behind pk j ++ pk j := by
      rw [← ih]
      exact pushList_append _ _ hr
    have hu := (decProcess_records _ _ (pk j) hz).2
    rw [hfeed] at hu
    exact hu

/-- Whether a call finds room, when those before it did. -/
theorem roomAt_iff {j : Nat} (h0 : ZeroBefore pk s f j) (hroom : ∀ i, i < j → RoomAt pk s f i) :
    RoomAt pk s f j ↔ (behind pk j).length + (pk j).length < 592 := by
  unfold RoomAt
  simp only [held_unread]
  rw [unread_behind j h0 hroom]

end Series

/-- **Every package finds room exactly if what is behind the records leaves it room**: for arbitrary
    packages, from `ihex_init` on, as long as every earlier call has answered 0. -/
theorem room_iff (pk : Nat → Bytes) (s : Ihex) (f : Spm) :
    (∀ j, ZeroBefore pk s f j → RoomAt pk s f j) ↔
      ∀ j, ZeroBefore pk s f j → (behind pk j).length + (pk j).length < 592 := by
  refine ⟨fun h j h0 => ?_, fun h j => ?_⟩
  · exact (roomAt_iff h0 fun i hi => h i (h0.mono (Nat.le_of_lt hi))).mp (h j h0)
  · induction j using Nat.strongRecOn with
    | ind j ih =>
      intro h0
      exact (roomAt_iff h0 fun i hi => ih i hi (h0.mono (Nat.le_of_lt hi))).mpr (h j h0)

/-- Two packages of 512 line ends: the first call answers 0 and takes nothing, and the second package
    goes over what the first one left. -/
theorem blankPackages_overrun :
    let pk : Nat → Bytes := fun _ => List.replicate 512 0x0A
    (∀ j, (pk j).length ≤ 512) ∧ ZeroBefore pk Ihex.zero erasedFlash 1 ∧ ¬ RoomAt pk Ihex.zero erasedFlash 1 := by
  intro pk
  have hzero : (decCalls pk (ihexInit Ihex.zero).dec erasedFlash 1).1 = 0 := by decide +kernel
  have hheld : (decCalls pk (ihexInit Ihex.zero).dec erasedFlash 1).2.1.unread.length = 512 := by decide +kernel
  have hlen : ∀ j, (pk j).length = 512 := fun _ => List.length_replicate
  refine ⟨fun j => Nat.le_of_eq (hlen j), fun i hi => ?_, fun h => ?_⟩
  · rw [Nat.lt_one_iff.mp hi, ihexCalls_answer]
    exact hzero
  · unfold RoomAt at h
    simp only [held_unread] at h
    rw [hheld, hlen 1] at h
    exact absurd h (by decide)

end SmartHome.Bootloader
