/-
  Subject:   WHAT EARLIER PACKAGES LEAVE IN THE DECODER, and how it shows.

  Between two calls the decoder holds unread characters, waiting bytes and a write address. A call
  depends on these three and on nothing else; and each of the three can be told from outside, by the
  sign of the answers and the pages written.

  * `writesSince` -- the pages written between two states of the flash, address and content;
  * `Dec.Same`, **`decProcess_same`** -- decoders that hold the same answer alike and write alike;
  * `bangs` -- a character no line has: it stops the decoder for good (`decProcess_bad`), and enough of
    it empties the ring (`decProcess_wiped`);
  * `decProcess_bangs` -- characters that are all read before a row of bangs are all read without it;
    `decProcess_quiet` -- and then they have left bytes in the FIFO;
  * `decProcess_firstPage` -- the first page written is at the write address and begins with the
    waiting bytes; **`probe_empty`** -- two short files tell whether there are any.
-/
import SmartHome.Bootloader.Continued
import SmartHome.Bootloader.SelfProtection

namespace SmartHome.Bootloader

open SmartHome.Lib

/-! ## 1. Pages written -/

/-- The page writes among page operations, address and content. -/
def pageWrites (ops : List SpmOp) : List (Nat × Bytes) :=
  ops.filterMap fun op =>
    match op with
    | .erase _ => none
    | .write addr page => some (addr, page)

/-- The pages written between two states of the flash. -/
def writesSince (f f' : Spm) : List (Nat × Bytes) := pageWrites (newOps f f')

theorem writesSince_self (f : Spm) : writesSince f f = [] := by
  unfold writesSince newOps
  rw [List.drop_length]
  rfl

theorem newOps_log {f f' : Spm} {ops : List SpmOp} (h : f'.log = f.log ++ ops) : newOps f f' = ops := by
  unfold newOps
  rw [h, List.drop_left]

/-- One more page. -/
theorem writesSince_flashPage {f g : Spm} (h : f.log <+: g.log) {addr : Nat} (ha : addr % 128 = 0)
    (page : Nat → UInt8) :
    writesSince f (flashPage addr page g) = writesSince f g ++ [(addr, (List.range 128).map page)] := by
  obtain ⟨ops, hops⟩ := h
  have hnew : (flashPage addr page g).log =
      f.log ++ (ops ++ [.erase addr, .write addr ((List.range 128).map page)]) := by
    rw [flashPage_log ha, ← hops, List.append_assoc]
  unfold writesSince
  rw [newOps_log hnew, newOps_log hops.symm]
  exact List.filterMap_append ..

/-- **A call that writes no page leaves the flash as it is.** -/
theorem decProcess_unwritten (d : Dec) (f : Spm) (package : Bytes) :
    (decProcess d f package).2.2 = f ∨ writesSince f (decProcess d f package).2.2 ≠ [] := by
  have hkeeps := decProcess_keeps (L := fun _ => True) (K := fun g => f.log <+: g.log ∧ (g = f ∨ writesSince f g ≠ []))
    (d := d) (fun _ _ h => h) ?_ package trivial ⟨List.prefix_rfl, Or.inl rfl⟩
  · exact hkeeps.2.2
  · rintro addr page g ⟨⟨ops, hops⟩, _⟩
    obtain ⟨p, hp⟩ := flashPage_log_addr addr page g
    rw [← hops, List.append_assoc] at hp
    refine ⟨hp ▸ List.prefix_append _ _, Or.inr ?_⟩
    unfold writesSince
    rw [newOps_log hp]
    simp [pageWrites]

/-! ## 2. What a call depends on -/

/-- **Decoders that hold the same**; what lines they have taken does not count. -/
structure Dec.Same (d d' : Dec) : Prop where
  unread : d.unread = d'.unread
  fifo : d.fifo = d'.fifo
  writeAddr : d.writeAddr = d'.writeAddr

/-- The same page operations since `f` and since `f'`. -/
def SameOps (f f' g g' : Spm) : Prop := ∃ ops, g.log = f.log ++ ops ∧ g'.log = f'.log ++ ops

theorem SameOps.newOps {f f' g g' : Spm} (h : SameOps f f' g g') : newOps f g = newOps f' g' := by
  obtain ⟨ops, hg, hg'⟩ := h
  rw [newOps_log hg, newOps_log hg']

structure SamePending (f f' : Spm) (p p' : Pending) : Prop where
  dec : p.d.Same p'.d
  pageLen : p.pageLen = p'.pageLen
  err : p.err = p'.err
  aligned : p.d.writeAddr % 128 = 0
  ops : SameOps f f' p.f p'.f

structure SameAnswer (f f' : Spm) (a a' : Answer) : Prop where
  answer : a.1 = a'.1
  dec : a.2.1.Same a'.2.1
  ops : SameOps f f' a.2.2 a'.2.2

section Same

variable {d d' : Dec} {f f' g g' : Spm}

theorem Dec.Same.refused (h : d.Same d') (n : Nat) : d.refused n ↔ d'.refused n := by
  unfold Dec.refused
  rw [h.fifo, h.writeAddr]

theorem Dec.Same.take (h : d.Same d') (line rest : Bytes) : (d.take line rest).Same (d'.take line rest) :=
  ⟨rfl, h.fifo, h.writeAddr⟩

theorem Dec.Same.push (h : d.Same d') (data : Bytes) : (d.push data).Same (d'.push data) :=
  ⟨h.unread, congrArg (pushList 256 · data) h.fifo, h.writeAddr⟩

theorem Dec.Same.drop (h : d.Same d') (n : Nat) : (d.drop n).Same (d'.drop n) :=
  ⟨h.unread, congrArg (List.drop n) h.fifo, h.writeAddr⟩

theorem SameOps.flash (ho : SameOps f f' g g') (h : d.Same d') (ha : d.writeAddr % 128 = 0) (n : Nat) :
    SameOps f f' (d.flash n g) (d'.flash n g') := by
  obtain ⟨ops, hg, hg'⟩ := ho
  unfold Dec.flash
  rw [← h.fifo, ← h.writeAddr]
  refine ⟨ops ++ [.erase d.writeAddr, .write d.writeAddr ((List.range 128).map (padded (d.fifo.take n)))], ?_, ?_⟩
  · rw [flashPage_log ha, hg, List.append_assoc]
  · rw [flashPage_log ha, hg', List.append_assoc]

theorem dataStep_same (h : d.Same d') (ha : d.writeAddr % 128 = 0) (ho : SameOps f f' g g') (line : Bytes) :
    Sum.LiftRel (SameAnswer f f') (SamePending f f') (dataStep d g line) (dataStep d' g' line) := by
  have hp := h.push (recData line)
  unfold dataStep
  simp only [← hp.fifo, ← hp.refused]
  split
  · exact .inl ⟨rfl, hp, ho⟩
  · split
    · exact .inr ⟨hp, rfl, rfl, ha, ho⟩
    · split
      · exact .inl ⟨rfl, hp.drop 128, ho⟩
      · refine .inr ⟨⟨hp.unread, (hp.drop 128).fifo, congrArg (fun a => (a + 128) % 65536) hp.writeAddr⟩, rfl, rfl,
          ?_, ho.flash hp ha 128⟩
        show (d.writeAddr + 128) % 65536 % 128 = 0
        omega

theorem endStep_same (h : d.Same d') (ha : d.writeAddr % 128 = 0) (ho : SameOps f f' g g') (pageLen : Nat) :
    SameAnswer f f' (endStep d g pageLen) (endStep d' g' pageLen) := by
  unfold endStep
  simp only [← h.refused]
  split
  · exact ⟨rfl, h, ho⟩
  · split
    · exact ⟨rfl, h.drop pageLen, ho⟩
    · exact ⟨rfl, h.drop pageLen, ho.flash h ha pageLen⟩

theorem lineStep_same {p p' : Pending} (h : SamePending f f' p p') :
    Sum.LiftRel (SameAnswer f f') (SamePending f f') (lineStep p) (lineStep p') := by
  unfold lineStep
  rw [← h.dec.unread, ← h.pageLen, ← h.err]
  cases nextLine p.d.unread with
  | blank | bad | incomplete => exact .inl ⟨rfl, h.dec, h.ops⟩
  | record line rest =>
    have ht := h.dec.take line rest
    simp only
    split
    · exact dataStep_same ht h.aligned h.ops line
    · split
      · exact .inl (endStep_same ht h.aligned h.ops p.pageLen)
      · exact .inr ⟨ht, rfl, rfl, h.aligned, h.ops⟩

/-- **Decoders that hold the same answer alike, write alike and hold the same again**, whatever is in
    the flash. -/
theorem decProcess_same (h : d.Same d') (ha : d.writeAddr % 128 = 0) (f f' : Spm) (package : Bytes) :
    SameAnswer f f' (decProcess d f package) (decProcess d' f' package) := by
  have hfeed : (d.feed package).Same (d'.feed package) :=
    ⟨congrArg (pushList 592 · package) h.unread, h.fifo, h.writeAddr⟩
  unfold decProcess lineLoop
  rw [← hfeed.unread]
  refine loop_relate (R := SamePending f f') (fun p p' hp => ⟨rfl, hp.dec, hp.ops⟩) (fun p p' hp => lineStep_same hp)
    _ _ _ ⟨hfeed, rfl, rfl, ha, [], ?_, ?_⟩
  · exact (List.append_nil _).symm
  · exact (List.append_nil _).symm

end Same

/-! ## 3. A character no line has -/

/-- A row of `!`: the decoder reads no line from it and does not drop it. -/
def bangs (n : Nat) : Bytes := List.replicate n 0x21

@[simp] theorem bangs_length (n : Nat) : (bangs n).length = n := List.length_replicate

theorem bangs_append (n m : Nat) : bangs n ++ bangs m = bangs (n + m) := List.replicate_append_replicate

theorem nextLine_bang (z : Bytes) : nextLine (0x21 :: z) = .bad := rfl

/-- A text that begins with no line stops the call and stays. -/
theorem decProcess_bad {d : Dec} {package : Bytes} (f : Spm) (h : nextLine (d.feed package).unread = .bad) :
    decProcess d f package = (-2, d.feed package, f) := loop_stop _ (lineStep_bad h)

/-- Nothing to read. -/
theorem decProcess_blank {d : Dec} {package : Bytes} (f : Spm) (h : (d.feed package).unread = []) :
    decProcess d f package = (0, d.feed package, f) := by
  refine loop_stop _ (lineStep_blank ?_)
  rw [h]
  rfl

/-- **A package that meets the trail of the ring** leaves the decoder with what comes behind. -/
theorem decProcess_wiped {d : Dec} {xs : Bytes} (f : Spm) (hd : d.unread.length < 592)
    (h : d.unread.length + xs.length = 592) (ys : Bytes) :
    decProcess d f (xs ++ ys) = decProcess { d with unread := [] } f ys := by
  have hfeed : d.feed (xs ++ ys) = Dec.feed { d with unread := [] } ys :=
    Dec.ext (pushList_full hd h ys) rfl rfl rfl
  unfold decProcess
  rw [hfeed]

/-- Enough bangs empty the ring, and the call finds nothing to read. -/
theorem decProcess_wiped_bangs {d : Dec} (f : Spm) {n : Nat} (hd : d.unread.length < 592)
    (h : d.unread.length + n = 592) : (decProcess d f (bangs n)).1 = 0 := by
  have hwiped := decProcess_wiped f hd (by rw [bangs_length]; exact h : d.unread.length + (bangs n).length = 592) []
  rw [List.append_nil] at hwiped
  rw [hwiped, decProcess_blank f rfl]

/-- Behind bangs they only add to them. -/
theorem decProcess_more_bangs {d : Dec} {m n : Nat} (f : Spm) (hd : d.unread = bangs m) (h : m + (n + 1) < 592) :
    decProcess d f (bangs (n + 1)) = (-2, { d with unread := bangs (m + (n + 1)) }, f) := by
  have hfeed : d.feed (bangs (n + 1)) = { d with unread := bangs (m + (n + 1)) } := by
    unfold Dec.feed
    rw [hd, pushList_append _ _ (by rw [bangs_length, bangs_length]; exact h), bangs_append]
  rw [← hfeed]
  refine decProcess_bad f ?_
  rw [hfeed]
  exact nextLine_bang (bangs (m + n))

/-- A line that ends before a bang is the same line without it. -/
theorem readLine_bang (z : Bytes) : ∀ (v line : Bytes), (readLine line (v ++ 0x21 :: z)).1 = 255 ∨
    readLine line (v ++ 0x21 :: z) =
      ((readLine line v).1, (readLine line v).2.1, (readLine line v).2.2 ++ 0x21 :: z)
  | [], _ => Or.inl rfl
  | c :: v, line => by
    rw [List.cons_append, readLine, readLine]
    split
    · split
      · exact Or.inl rfl
      · exact readLine_bang z v _
    · split
      · split
        · exact Or.inr rfl
        · exact readLine_bang z v _
      · split
        · exact readLine_bang z v _
        · exact Or.inl rfl

theorem nextLine_before_bang {v z line rest : Bytes} (h : nextLine (v ++ 0x21 :: z) = .record line rest) :
    ∃ v', rest = v' ++ 0x21 :: z ∧ nextLine v = .record line v' := by
  obtain ⟨hr, hshort, _⟩ := nextLine_record h
  rcases readLine_bang z v [] with hbad | he
  · rw [hr] at hbad
    exact absurd hbad (Nat.ne_of_lt (Nat.lt_of_le_of_lt hshort (by decide)))
  · rw [hr] at he
    obtain ⟨h1, h2⟩ := Prod.mk.inj he
    obtain ⟨h2, h3⟩ := Prod.mk.inj h2
    refine ⟨(readLine [] v).2.2, h3, nextLine_of_readLine (nextLine_isRecord h) ?_⟩
    rw [h1, h2]

/-- The decoder with `z` behind its unread characters. -/
def Dec.behind (d : Dec) (z : Bytes) : Dec := { d with unread := d.unread ++ z }

def Answer.behind (a : Answer) (z : Bytes) : Answer := (a.1, a.2.1.behind z, a.2.2)

def Pending.behind (p : Pending) (z : Bytes) : Pending := { p with d := p.d.behind z }

theorem dataStep_behind (d : Dec) (f : Spm) (line z : Bytes) :
    dataStep (d.behind z) f line = Sum.map (Answer.behind · z) (Pending.behind · z) (dataStep d f line) := by
  have hfifo : ((d.behind z).push (recData line)).fifo = (d.push (recData line)).fifo := rfl
  have hrefused : ((d.behind z).push (recData line)).refused 128 ↔ (d.push (recData line)).refused 128 := Iff.rfl
  unfold dataStep
  simp only [hfifo, hrefused]
  split
  · rfl
  · split
    · rfl
    · split
      · rfl
      · rfl

theorem endStep_behind (d : Dec) (f : Spm) (pageLen : Nat) (z : Bytes) :
    endStep (d.behind z) f pageLen = Answer.behind (endStep d f pageLen) z := by
  have hrefused : (d.behind z).refused pageLen ↔ d.refused pageLen := Iff.rfl
  unfold endStep
  simp only [hrefused]
  split
  · rfl
  · split
    · rfl
    · rfl

/-- A record is taken whatever stands behind it. -/
theorem lineStep_behind {p : Pending} {z line rest : Bytes} (h : nextLine p.d.unread = .record line rest)
    (hz : nextLine (p.d.unread ++ z) = .record line (rest ++ z)) :
    lineStep (p.behind z) = Sum.map (Answer.behind · z) (Pending.behind · z) (lineStep p) := by
  have hz' : nextLine (p.behind z).d.unread = .record line (rest ++ z) := hz
  have htake : (p.behind z).d.take line (rest ++ z) = (p.d.take line rest).behind z := rfl
  by_cases h0 : recType line = 0
  · rw [lineStep_data h h0, lineStep_data hz' h0, htake]
    exact dataStep_behind _ _ _ _
  · by_cases h1 : recType line = 1
    · rw [lineStep_end h h1, lineStep_end hz' h1, htake]
      exact congrArg Sum.inl (endStep_behind _ _ _ _)
    · rw [lineStep_pass h h0 h1, lineStep_pass hz' h0 h1]
      rfl

/-- A line that is no record ends the call and leaves everything as it is. -/
theorem lineStep_none {p : Pending} (h : ¬ ∃ line rest, nextLine p.d.unread = .record line rest) :
    ∃ answer, lineStep p = .inl (answer, p.d, p.f) := by
  cases hn : nextLine p.d.unread with
  | blank => exact ⟨_, lineStep_blank hn⟩
  | bad => exact ⟨_, lineStep_bad hn⟩
  | incomplete => exact ⟨_, lineStep_incomplete hn⟩
  | record line rest => exact absurd ⟨line, rest, hn⟩ h

theorem lineStep_stop_unread {p : Pending} {a : Answer} (h : lineStep p = .inl a) :
    a.2.1.unread.length ≤ p.d.unread.length := by
  rcases lineStep_stop h with ⟨_, hdf⟩ | ⟨line, rest, hn, hcase⟩
  · exact Nat.le_of_eq (by rw [hdf])
  · have hlt := Nat.le_of_lt (nextLine_rest_lt hn)
    rcases hcase with ⟨_, _, rfl⟩ | ⟨_, _, _, _, rfl⟩ | ⟨_, rfl⟩
    · exact hlt
    · exact hlt
    · unfold endStep
      split
      · exact hlt
      · split
        · exact hlt
        · exact hlt

/-- **Characters in front of a bang**: what the decoder leaves of them is unread still. If it leaves
    none, it has read them as it reads them alone. -/
theorem lineLoop_bang (z : Bytes) : ∀ (n m : Nat) (p : Pending), (p.d.unread ++ 0x21 :: z).length < n →
    p.d.unread.length < m → ∃ v, v.length ≤ p.d.unread.length ∧
      (lineLoop n (p.behind (0x21 :: z))).2.1.unread = v ++ 0x21 :: z ∧
      (v = [] → (lineLoop n (p.behind (0x21 :: z))).2 = (Answer.behind (lineLoop m p) (0x21 :: z)).2)
  | 0, _, _, hn, _ => absurd hn (Nat.not_lt_zero _)
  | _, 0, _, _, hm => absurd hm (Nat.not_lt_zero _)
  | n + 1, m + 1, p, hn, hm => by
    unfold lineLoop
    by_cases hz : ∃ line rest, nextLine (p.d.unread ++ 0x21 :: z) = .record line rest
    · -- a record in front of the bang: both loops take it
      obtain ⟨line, rest, hz⟩ := hz
      obtain ⟨v', rfl, hv⟩ := nextLine_before_bang hz
      have hstep := lineStep_behind hv hz
      cases hp : lineStep p with
      | inl a =>
        rw [hp] at hstep
        rw [loop_stop n hstep, loop_stop m hp]
        exact ⟨a.2.1.unread, lineStep_stop_unread hp, rfl, fun _ => rfl⟩
      | inr p' =>
        rw [hp] at hstep
        have hlt := lineStep_lt hp
        rw [List.length_append] at hn
        obtain ⟨v, hle, hun, hall⟩ := lineLoop_bang z n m p' (by rw [List.length_append]; omega) (by omega)
        rw [loop_more n hstep, loop_more m hp]
        exact ⟨v, Nat.le_trans hle (Nat.le_of_lt hlt), hun, hall⟩
    · -- the call ends here, with the bang; alone it ends here too if there is nothing before it
      obtain ⟨x, hstop⟩ := lineStep_none (p := p.behind (0x21 :: z)) hz
      rw [loop_stop n hstop]
      refine ⟨p.d.unread, Nat.le_refl _, rfl, fun hnil => ?_⟩
      have hblank : nextLine p.d.unread = .blank := by
        rw [hnil]
        rfl
      rw [loop_stop m (lineStep_blank hblank)]
      rfl

/-- The same for a package of bangs, over a short text. -/
theorem decProcess_bangs {d : Dec} (f : Spm) {n : Nat} (h : d.unread.length + (n + 1) < 592) :
    ∃ v, v.length ≤ d.unread.length ∧ (decProcess d f (bangs (n + 1))).2.1.unread = v ++ bangs (n + 1) ∧
      (v = [] → (decProcess d f []).2.1.unread = [] ∧
        (decProcess d f []).2.1.fifo = (decProcess d f (bangs (n + 1))).2.1.fifo ∧
        (decProcess d f []).2.1.writeAddr = (decProcess d f (bangs (n + 1))).2.1.writeAddr ∧
        (decProcess d f []).2.2 = (decProcess d f (bangs (n + 1))).2.2) := by
  have hfeed : d.feed (bangs (n + 1)) = d.behind (bangs (n + 1)) :=
    Dec.ext (pushList_append _ _ (by rw [bangs_length]; exact h)) rfl rfl rfl
  obtain ⟨v, hle, hun, hall⟩ := lineLoop_bang (bangs n) ((d.feed (bangs (n + 1))).unread.length + 1)
    (d.unread.length + 1) ⟨d, f, 0, .empty⟩ (by rw [hfeed]; exact Nat.lt_succ_self _) (Nat.lt_succ_self _)
  have hdec : decProcess d f (bangs (n + 1)) =
      lineLoop ((d.feed (bangs (n + 1))).unread.length + 1) (Pending.behind ⟨d, f, 0, .empty⟩ (0x21 :: bangs n)) := by
    unfold decProcess
    rw [hfeed]
    rfl
  have halone : decProcess d f [] = lineLoop (d.unread.length + 1) ⟨d, f, 0, .empty⟩ := rfl
  rw [← hdec, ← halone] at hall
  rw [← hdec] at hun
  refine ⟨v, hle, hun, fun hnil => ?_⟩
  have hpair := hall hnil
  have hd : (decProcess d f (bangs (n + 1))).2.1 = (decProcess d f []).2.1.behind (0x21 :: bangs n) :=
    congrArg Prod.fst hpair
  refine ⟨?_, ?_, ?_, ?_⟩
  · rw [hd, hnil] at hun
    exact List.append_cancel_right hun
  · rw [hd]
    rfl
  · rw [hd]
    rfl
  · rw [hpair]
    rfl

/-! ## 4. Characters that are all read -/

/-- What holds between two lines: `page_len` counts the waiting bytes if it counts any; `EMPTY` stands
    at the beginning of the call and behind a written page. -/
structure Tracked (d : Dec) (f : Spm) (p : Pending) : Prop where
  pageLen : p.pageLen = 0 ∨ p.pageLen = p.d.fifo.length
  grows : f.log.length ≤ p.f.log.length
  err : p.err = .empty → p.pageLen = 0 ∧ (p.d.unread = d.unread ∨ f.log.length < p.f.log.length)

theorem tracked_more {d : Dec} {f : Spm} {p p' : Pending} (h : Tracked d f p) (hs : lineStep p = .inr p') :
    Tracked d f p' := by
  obtain ⟨line, rest, _, hcase⟩ := lineStep_more hs
  rcases hcase with ⟨_, _, _, rfl⟩ | ⟨_, _, _, _, rfl⟩ | ⟨_, _, rfl⟩
  · exact ⟨Or.inr rfl, h.grows, fun he => HexErr.noConfusion he⟩
  · have hgrow : f.log.length < (((p.d.take line rest).push (recData line)).flash 128 p.f).log.length :=
      Nat.lt_of_le_of_lt h.grows (flashPage_grows _ _ p.f)
    exact ⟨Or.inl rfl, Nat.le_of_lt hgrow, fun _ => ⟨rfl, Or.inr hgrow⟩⟩
  · exact ⟨h.pageLen, h.grows, fun he => HexErr.noConfusion he⟩

/-- **A call that reads all its characters, does not fail and writes nothing** had none to read, or
    leaves bytes waiting. -/
theorem decProcess_quiet {d : Dec} {f : Spm} (h0 : ¬ (decProcess d f []).1 < 0) (hf : (decProcess d f []).2.2 = f)
    (hu : (decProcess d f []).2.1.unread = []) : d.unread = [] ∨ (decProcess d f []).2.1.fifo ≠ [] := by
  have hrule := decProcess_rule (Tracked d f)
    (fun a => ¬ a.1 < 0 → a.2.2 = f → a.2.1.unread = [] → d.unread = [] ∨ a.2.1.fifo ≠ [])
    (fun p p' hI hs => tracked_more hI hs) ?_ d f [] ⟨Or.inl rfl, Nat.le_refl _, fun _ => ⟨rfl, Or.inl rfl⟩⟩
  · exact hrule h0 hf hu
  · intro p a hI hs ha hflash hun
    rcases lineStep_stop hs with ⟨_, hdf⟩ | ⟨line, rest, _, hcase⟩
    · rw [hdf] at hun hflash ⊢
      have hpf : p.f = f := hflash
      have hblank : nextLine p.d.unread = .blank := by
        rw [hun]
        rfl
      rw [lineStep_blank hblank, Sum.inl.injEq] at hs
      rw [← hs] at ha
      have hwhy : p.pageLen > 0 ∨ p.err = .empty := by
        by_contra hno
        simp only [if_neg hno] at ha
        exact ha (by decide)
      rcases hwhy with hpos | hempty
      · right
        intro hnil
        rcases hI.pageLen with hz | hlen
        · omega
        · rw [hlen, hnil] at hpos
          exact absurd hpos (Nat.lt_irrefl 0)
      · left
        rcases (hI.err hempty).2 with hsame | hgrow
        · exact hsame.symm.trans hun
        · rw [hpf] at hgrow
          exact absurd hgrow (Nat.lt_irrefl _)
    · -- a record that ends a call fails it, or is the end record and a page is written
      rcases hcase with ⟨_, _, rfl⟩ | ⟨_, _, _, _, rfl⟩ | ⟨_, rfl⟩
      · exact absurd ha (by simp)
      · exact absurd ha (by simp)
      · unfold endStep at ha hflash
        split at ha
        · exact absurd ha (by simp)
        · rename_i hz
          rw [if_neg hz] at hflash
          split at ha
          · exact absurd ha (by simp)
          · rename_i hv
            rw [if_neg hv] at hflash
            have hgrow := Nat.lt_of_le_of_lt hI.grows (flashPage_grows (p.d.take line rest).writeAddr
              (padded ((p.d.take line rest).fifo.take p.pageLen)) p.f)
            have hsame : flashPage (p.d.take line rest).writeAddr
              (padded ((p.d.take line rest).fifo.take p.pageLen)) p.f = f := hflash
            rw [hsame] at hgrow
            exact absurd hgrow (Nat.lt_irrefl _)

/-! ## 5. The first page -/

/-- **The first page written since `f`** is at `addr` and begins with `q`. -/
structure FirstPage (f : Spm) (addr : Nat) (q : Bytes) (g : Spm) : Prop where
  grows : f.log <+: g.log
  first : ∃ page rest, writesSince f g = (addr, page) :: rest ∧ q <+: page

/-- Nothing is written so far; the waiting bytes begin with `q`. -/
structure FirstOpen (f : Spm) (addr : Nat) (q : Bytes) (p : Pending) : Prop where
  flash : p.f = f
  addr : p.d.writeAddr = addr
  begins : q <+: p.d.fifo
  short : p.d.fifo.length < 128
  pageLen : p.pageLen = 0 ∨ p.pageLen = p.d.fifo.length

section First

variable {f : Spm} {addr : Nat} {q : Bytes}

/-- A page filled up with 0xFF begins with the bytes it was filled from. -/
theorem prefix_page {bytes : Bytes} (hq : q.length ≤ 128) (h : q <+: bytes) :
    q <+: (List.range 128).map (padded bytes) := by
  obtain ⟨more, rfl⟩ := h
  refine List.prefix_iff_eq_take.mpr (List.ext_getElem ?_ fun i hi hi' => ?_)
  · rw [List.length_take, List.length_map, List.length_range, Nat.min_eq_left hq]
  · rw [List.getElem_take, List.getElem_map, List.getElem_range]
    unfold padded
    rw [List.getD_eq_getElem _ _ (by rw [List.length_append]; omega), List.getElem_append_left hi]

theorem firstPage_flash {d : Dec} {n : Nat} (ha : addr % 128 = 0) (hq : q.length ≤ 128) (haddr : d.writeAddr = addr)
    (h : q <+: d.fifo.take n) : FirstPage f addr q (d.flash n f) := by
  unfold Dec.flash
  rw [haddr]
  refine ⟨?_, _, [], ?_, prefix_page hq h⟩
  · rw [flashPage_log ha]
    exact List.prefix_append _ _
  · rw [writesSince_flashPage List.prefix_rfl ha, writesSince_self]
    rfl

theorem FirstPage.flash {g : Spm} (h : FirstPage f addr q g) (a : Nat) (page : Nat → UInt8) :
    FirstPage f addr q (flashPage a page g) := by
  obtain ⟨⟨ops, hops⟩, pg, rest, hw, hpre⟩ := h
  obtain ⟨p, hp⟩ := flashPage_log_addr a page g
  rw [← hops, List.append_assoc] at hp
  refine ⟨hp ▸ List.prefix_append _ _, pg, rest ++ [(a, p)], ?_, hpre⟩
  unfold writesSince at hw ⊢
  rw [newOps_log hops.symm] at hw
  have happ : pageWrites (ops ++ [.erase a, .write a p]) = pageWrites ops ++ [(a, p)] := List.filterMap_append ..
  rw [newOps_log hp, happ, hw]
  rfl

/-- A data record that leaves `q` in front fills the first page or leaves it open. -/
theorem firstOpen_data {p p' : Pending} {line rest : Bytes} (ha : addr % 128 = 0) (hq : q.length ≤ 128)
    (hflash : p.f = f) (haddr : p.d.writeAddr = addr) (hn : nextLine p.d.unread = .record line rest)
    (h0 : recType line = 0) (hbegins : q <+: pushList 256 p.d.fifo (recData line)) (hs : lineStep p = .inr p') :
    FirstPage f addr q p'.f ∨ FirstOpen f addr q p' := by
  obtain ⟨line', rest', hn', hcase⟩ := lineStep_more hs
  rw [hn] at hn'
  cases hn'
  rcases hcase with ⟨_, _, hlt, rfl⟩ | ⟨_, _, _, _, rfl⟩ | ⟨h0', _⟩
  · exact Or.inr ⟨hflash, haddr, hbegins, hlt, Or.inr rfl⟩
  · left
    rw [← hflash]
    exact firstPage_flash ha hq haddr (List.prefix_take_iff.mpr ⟨hbegins, hq⟩)
  · exact absurd h0 h0'

theorem firstOpen_more {p p' : Pending} (h : FirstOpen f addr q p) (ha : addr % 128 = 0) (hq : q.length ≤ 128)
    (hs : lineStep p = .inr p') : FirstPage f addr q p'.f ∨ FirstOpen f addr q p' := by
  obtain ⟨line, rest, hn, hcase⟩ := lineStep_more hs
  have hle := (nextLine_isRecord hn).data_le
  have hshort := h.short
  have hbegins : q <+: pushList 256 p.d.fifo (recData line) := by
    rw [pushList_append _ _ (by omega)]
    exact h.begins.trans (List.prefix_append _ _)
  by_cases h0 : recType line = 0
  · exact firstOpen_data ha hq h.flash h.addr hn h0 hbegins hs
  · rcases hcase with ⟨h0', _⟩ | ⟨h0', _⟩ | ⟨_, _, rfl⟩
    · exact absurd h0' h0
    · exact absurd h0' h0
    · exact Or.inr ⟨h.flash, h.addr, h.begins, h.short, h.pageLen⟩

theorem firstOpen_stop {p : Pending} {a : Answer} (h : FirstOpen f addr q p) (ha : addr % 128 = 0) (hq : q.length ≤ 128)
    (hs : lineStep p = .inl a) : a.2.2 = f ∨ FirstPage f addr q a.2.2 := by
  rcases lineStep_stop hs with ⟨_, hdf⟩ | ⟨line, rest, _, hcase⟩
  · rw [hdf]
    exact Or.inl h.flash
  · rcases hcase with ⟨_, _, rfl⟩ | ⟨_, _, _, _, rfl⟩ | ⟨_, rfl⟩
    · exact Or.inl h.flash
    · exact Or.inl h.flash
    · unfold endStep
      split
      · exact Or.inl h.flash
      · rename_i hz
        split
        · exact Or.inl h.flash
        · right
          have hlen := h.pageLen.resolve_left hz
          rw [← h.flash]
          refine firstPage_flash ha hq h.addr ?_
          rw [hlen]
          show q <+: p.d.fifo.take p.d.fifo.length
          rw [List.take_length]
          exact h.begins

theorem FirstPage.line {p : Pending} (h : FirstPage f addr q p.f) :
    (∀ p', lineStep p = .inr p' → FirstPage f addr q p'.f) ∧
      (∀ a, lineStep p = .inl a → FirstPage f addr q a.2.2) := by
  have hkeeps := lineStep_keeps (L := fun _ => True) (K := FirstPage f addr q) (fun _ _ h => h)
    (fun a page _ hg => hg.flash a page) (p := p) trivial h
  exact ⟨fun p' hs => (hkeeps.1 p' hs).2, fun a hs => (hkeeps.2 a hs).2⟩

end First

/-- **A text that begins with a data record of no bytes**: it writes nothing, or its first page is at the
    write address and begins with what waited. The record sends off a page that was waiting, so that
    no byte of it is lost when the FIFO runs over. -/
theorem decProcess_firstPage {d : Dec} {package line rest : Bytes} (f : Spm) (ha : d.writeAddr % 128 = 0)
    (hn : nextLine (d.feed package).unread = .record line rest) (h0 : recType line = 0) (hdata : recData line = []) :
    (decProcess d f package).2.2 = f ∨ FirstPage f d.writeAddr (d.fifo.take 3) (decProcess d f package).2.2 := by
  have hq : (d.fifo.take 3).length ≤ 128 := by
    rw [List.length_take]
    omega
  refine decProcess_rule
    (fun p => FirstPage f d.writeAddr (d.fifo.take 3) p.f ∨ FirstOpen f d.writeAddr (d.fifo.take 3) p ∨
      p = ⟨d.feed package, f, 0, .empty⟩)
    (fun a => a.2.2 = f ∨ FirstPage f d.writeAddr (d.fifo.take 3) a.2.2) ?_ ?_ d f package (Or.inr (Or.inr rfl))
  · intro p p' hI hs
    rcases hI with hfirst | hopen | rfl
    · exact Or.inl (hfirst.line.1 p' hs)
    · rcases firstOpen_more hopen ha hq hs with h | h
      · exact Or.inl h
      · exact Or.inr (Or.inl h)
    · have hbegins : d.fifo.take 3 <+: pushList 256 d.fifo (recData line) := by
        rw [hdata]
        exact List.take_prefix 3 _
      rcases firstOpen_data ha hq rfl rfl hn h0 hbegins hs with h | h
      · exact Or.inl h
      · exact Or.inr (Or.inl h)
  · intro p a hI hs
    rcases hI with hfirst | hopen | rfl
    · exact Or.inr (hfirst.line.2 a hs)
    · exact firstOpen_stop hopen ha hq hs
    · rcases lineStep_stop hs with ⟨_, hdf⟩ | ⟨line', rest', hn', hcase⟩
      · rw [hdf]
        exact Or.inl rfl
      · rw [hn] at hn'
        cases hn'
        rcases hcase with ⟨_, _, rfl⟩ | ⟨_, _, _, _, rfl⟩ | ⟨h1, _⟩
        · exact Or.inl rfl
        · exact Or.inl rfl
        · rw [h0] at h1
          exact absurd h1 (by decide)

/-! ## 6. Two short files -/

/-- A file of one page: a data record of no bytes, then 13 vectors, the first one a jump to `b`. -/
def probe (b : UInt8) : Bytes :=
  linesText (hexLines [0x0A] 0 [[], [0x0C, 0x94, b, 0x00] ++ vectors 6, vectors 6]) ++ (endText ++ [0x0A])

theorem probe_length (b : UInt8) : (probe b).length = 152 := by
  have htext : ∀ addr data, (hexLine addr data [0x0A]).text.length = 2 * data.length + 11 := fun addr data =>
    hexText_length (hexLine_isDataText addr data [0x0A]).hexText
  have hvectors : (vectors 6).length = 24 := by decide
  have heol : ∀ addr data, (hexLine addr data [0x0A]).eol.length = 1 := fun _ _ => rfl
  have hend : endText.length = 11 := rfl
  simp only [probe, hexLines, linesText_cons, linesText_nil, List.length_append, List.length_cons, List.length_nil,
    htext, heol, hvectors, hend]

/-- It begins with the record of no bytes. -/
theorem probe_nextLine (b : UInt8) : ∃ line rest, nextLine (probe b) = .record line rest ∧ recType line = 0 ∧
    recData line = [] := by
  have htext := hexLine_isDataText 0 [] [0x0A]
  have hrec := hexText_isRecord htext.hexText (Nat.zero_le _)
  obtain ⟨rest, _, hn, _⟩ := nextLine_whole (z := []) (R := []) (fun c hc => absurd hc List.not_mem_nil) hrec
    (Or.inl rfl) (List.append_nil _)
  exact ⟨_, rest, hn, hexText_recType htext.hexText, hexText_recData htext.hexText (Nat.zero_le _)⟩

/-- An empty decoder, as `ihex_init` leaves it. -/
def Dec.init : Dec := ⟨[], [], 0, []⟩

/-- The run of a file behind the waiting bytes `q`. -/
theorem probe_run (q : Bytes) (b : UInt8) : decProcess ⟨[], q, 0, []⟩ erasedFlash (probe b) =
    lineLoop 153 ⟨⟨probe b, q, 0, []⟩, erasedFlash, 0, .empty⟩ := by
  have hrun : decProcess ⟨[], q, 0, []⟩ erasedFlash (probe b) =
      lineLoop ((probe b).length + 1) ⟨⟨probe b, q, 0, []⟩, erasedFlash, 0, .empty⟩ :=
    decProcess_first rfl erasedFlash (by rw [probe_length]; decide)
  rw [probe_length] at hrun
  exact hrun

/-- What the two files do to an empty decoder: each writes its page at address 0. -/
theorem probe_init : ∀ b ∈ [(0 : UInt8), 1], ¬ (decProcess Dec.init erasedFlash (probe b)).1 < 0 ∧
      (writesSince erasedFlash (decProcess Dec.init erasedFlash (probe b)).2.2).map (fun w => (w.1, w.2.take 3)) =
        [(0, [0x0C, 0x94, b])] := by
  intro b hb
  unfold Dec.init
  rw [probe_run]
  revert b
  decide +kernel

/-- With one or two bytes of the first vector in front they are no image. -/
theorem probe_shifted : ∀ q ∈ [[(0x0C : UInt8)], [0x0C, 0x94]],
    (decProcess ⟨[], q, 0, []⟩ erasedFlash (probe 0)).1 < 0 := by
  intro q hq
  rw [probe_run]
  revert q
  decide +kernel

section Probe

variable {d : Dec} {f : Spm} (hu : d.unread = []) (ha : d.writeAddr % 128 = 0)

include hu ha

/-- A file that writes what it writes from an empty decoder: the write address is 0, and the waiting
    bytes begin as the file does. -/
theorem probe_first {b : UInt8} (hb : b ∈ [(0 : UInt8), 1]) (hw : writesSince f (decProcess d f (probe b)).2.2 =
      writesSince erasedFlash (decProcess Dec.init erasedFlash (probe b)).2.2) :
    d.writeAddr = 0 ∧ d.fifo.take 3 <+: [0x0C, 0x94, b] := by
  have hinit := (probe_init b hb).2
  rw [← hw] at hinit
  obtain ⟨line, rest, hn, h0, hdata⟩ := probe_nextLine b
  have hfeed : (d.feed (probe b)).unread = probe b :=
    congrArg Dec.unread (feed_first hu (by rw [probe_length]; decide))
  rw [← hfeed] at hn
  rcases decProcess_firstPage f ha hn h0 hdata with hf | hfirst
  · rw [hf, writesSince_self] at hinit
    exact absurd hinit (List.cons_ne_nil _ _).symm
  · obtain ⟨page, more, hpage, hbegins⟩ := hfirst.first
    rw [hpage, List.map_cons] at hinit
    obtain ⟨haddr, htake⟩ := Prod.mk.inj (List.head_eq_of_cons_eq hinit)
    refine ⟨haddr, ?_⟩
    rw [← htake]
    exact List.prefix_take_iff.mpr ⟨hbegins, by rw [List.length_take]; omega⟩

/-- **Two files that are answered and written as from an empty decoder** show that no byte waits and
    that the write address is 0. -/
theorem probe_empty (hans : ¬ (decProcess d f (probe 0)).1 < 0)
    (hw : ∀ b ∈ [(0 : UInt8), 1], writesSince f (decProcess d f (probe b)).2.2 =
      writesSince erasedFlash (decProcess Dec.init erasedFlash (probe b)).2.2) :
    d.fifo = [] ∧ d.writeAddr = 0 := by
  obtain ⟨haddr, h0⟩ := probe_first hu ha (b := 0) (by decide) (hw 0 (by decide))
  obtain ⟨_, h1⟩ := probe_first hu ha (b := 1) (by decide) (hw 1 (by decide))
  refine ⟨?_, haddr⟩
  have hother : ∀ q ∈ [[(0x0C : UInt8)], [0x0C, 0x94]], d.fifo ≠ q := by
    intro q hq he
    have hsame : d.Same ⟨[], q, 0, []⟩ := ⟨hu, he, haddr⟩
    rw [(decProcess_same hsame ha f erasedFlash (probe 0)).answer] at hans
    exact hans (probe_shifted q hq)
  rcases hfifo : d.fifo with _ | ⟨x, _ | ⟨y, _ | ⟨z, more⟩⟩⟩
  · rfl
  · rw [hfifo] at h0
    rw [hfifo, (List.cons_prefix_cons.mp h0).1] at hother
    exact absurd rfl (hother _ (by decide))
  · rw [hfifo] at h0
    obtain ⟨hx, h0⟩ := List.cons_prefix_cons.mp h0
    rw [hfifo, hx, (List.cons_prefix_cons.mp h0).1] at hother
    exact absurd rfl (hother _ (by decide))
  · -- the two files differ in their third byte, and `z` would be both
    rw [hfifo] at h0 h1
    have hz0 : x = 0x0C ∧ y = 0x94 ∧ z = 0 := by simpa using h0
    have hz1 : x = 0x0C ∧ y = 0x94 ∧ z = 1 := by simpa using h1
    exact absurd (hz0.2.2.symm.trans hz1.2.2) (by decide)

end Probe

end SmartHome.Bootloader
