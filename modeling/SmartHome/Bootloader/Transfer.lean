/-
  Subject:   WHOLE TRANSFERS OVER TFTP: when control goes to the application, what an error leaves
             behind.

  The server decides by the length of a datagram that a transfer is complete, and the decoder's
  answer 1 does not matter to it; and after a negative answer it goes on as before. The conditions
  below are what a run must keep to for the two promises to hold all the same.

  * `Server`, `server_run` -- what holds in every run, whatever comes in;
  * `EndsWell`, **`handOver_whole`** -- a short DATA datagram that brings the end of the file hands
    over a whole application;
  * `Harmless`, **`errors_final`** -- DATA datagrams after an error that neither fill a page nor pass
    for a last one leave the error final, and no byte of a bad record is ever written.
-/
import SmartHome.Bootloader.Continued
import SmartHome.Bootloader.Tftp

namespace SmartHome.Bootloader

open SmartHome.Lib

-- what a call does is looked up in its lemmas, never computed
attribute [local irreducible] ihexPackageProcess decProcess

/-! ## 1. Answers so far -/

/-- Some answer since `tftpInit` was negative. -/
def Tftp.Failed (s : Tftp) : Prop := ∃ a ∈ s.answers, a < 0

/-- Some answer since `tftpInit` was 1: the file has ended. -/
def Tftp.Ended (s : Tftp) : Prop := 1 ∈ s.answers

/-- What the ring will say once the package of `dg` has come in. -/
def Tftp.scan (s : Tftp) (dg : Datagram) : Scan := s.ihex.dec.scan dg.package

section Answers

variable {s s' : Tftp} {dg : Datagram}

theorem failed_handOver : (s.handOver dg).Failed ↔ s.Failed ∨ (ihexPackageProcess s.ihex s.spm dg.package).1 < 0 := by
  unfold Tftp.Failed
  rw [handOver_answers]
  simp [or_and_right, exists_or]

theorem ended_handOver : (s.handOver dg).Ended ↔ s.Ended ∨ (ihexPackageProcess s.ihex s.spm dg.package).1 = 1 := by
  unfold Tftp.Ended
  rw [handOver_answers, List.mem_append, List.mem_singleton]
  exact or_congr_right eq_comm

theorem SameFlash.failed (h : SameFlash s s') : s'.Failed ↔ s.Failed := by
  unfold Tftp.Failed
  rw [h.answers]

theorem SameFlash.ended (h : SameFlash s s') : s'.Ended ↔ s.Ended := by
  unfold Tftp.Ended
  rw [h.answers]

theorem not_failed_init (s : Tftp) : ¬ (tftpInit s).Failed := by
  rintro ⟨a, ha, _⟩
  exact absurd ha List.not_mem_nil

theorem not_ended_init (s : Tftp) : ¬ (tftpInit s).Ended := List.not_mem_nil

end Answers

/-! ## 2. The file in the flash -/

/-- No good data behind an end record. -/
def NoDataAfterEnd (lines : List Bytes) : Prop :=
  ∀ before line after, lines = before ++ line :: after → recType line = 1 → goodData after = []

/-- **The file is in the flash**: an end record was decoded, no byte waits, and every byte of the
    records is where it belongs, unless a page 256 pages further on went to the same place. -/
structure FileWritten (s : Tftp) : Prop where
  ended : ∃ l ∈ s.ihex.lines, recType l = 1
  empty : s.ihex.dec.fifo = []
  written : ∀ i, i < (goodData s.ihex.lines).length → (goodData s.ihex.lines).length / 128 < i / 128 + 256 →
    s.spm.mem (i % 0x8000) = (goodData s.ihex.lines).getD i 0xFF

theorem SameFlash.fileWritten {s s' : Tftp} (h : SameFlash s s') : FileWritten s' ↔ FileWritten s := by
  constructor
  · rintro ⟨he, hf, hw⟩
    rw [h.ihex] at he hf hw
    rw [h.spm] at hw
    exact ⟨he, hf, hw⟩
  · rintro ⟨he, hf, hw⟩
    rw [← h.ihex] at he hf hw
    rw [← h.spm] at hw
    exact ⟨he, hf, hw⟩

section Written

variable {s : Tftp} {dg : Datagram}

/-- The answer 1 of a clean decoder. -/
theorem fileWritten_whole {f₀ : Spm} (hr : InRange s.ihex) (hc : Clean f₀ s.ihex.dec s.spm)
    (h1 : (ihexPackageProcess s.ihex s.spm dg.package).1 = 1) : FileWritten (s.handOver dg) := by
  have hcall := callIs hr s.spm dg.package
  rw [hcall.answer] at h1
  have hw := (decProcess_clean hc dg.package).whole h1
  have hgood := goodData_of_accepted hw.accepted
  refine ⟨?_, ?_, ?_⟩
  · obtain ⟨before, line, hlines, hend, _⟩ := hw.ended
    refine ⟨line, ?_, hend⟩
    rw [handOver_ihex, hcall.lines, hlines]
    exact List.mem_append_right _ List.mem_cons_self
  · rw [handOver_ihex, hcall.dec]
    exact hw.fifo
  · intro i hi hlast
    rw [handOver_ihex, hcall.lines, hgood] at hi hlast ⊢
    rw [handOver_spm, hcall.flash]
    exact hw.mem (Nat.div_le_div_right (Nat.le_of_lt hi)) hlast

/-- A call on a file that is in the flash, with no good data: it stays there. -/
theorem fileWritten_idle (hr : InRange s.ihex) (hw : FileWritten s)
    (h0 : 0 ≤ (ihexPackageProcess s.ihex s.spm dg.package).1)
    (hg : goodData (s.handOver dg).ihex.lines = goodData s.ihex.lines) : FileWritten (s.handOver dg) := by
  have hcall := callIs hr s.spm dg.package
  rw [hcall.answer] at h0
  have hlines : (s.handOver dg).ihex.lines = (decProcess s.ihex.dec s.spm dg.package).2.1.lines := by
    rw [handOver_ihex]
    exact hcall.lines
  rcases decProcess_idle s.spm dg.package hw.empty with ha | hlt | ⟨hf, hfifo, _⟩
  · exact absurd ha (Int.not_lt.mpr h0)
  · rw [← hlines, hg] at hlt
    exact absurd hlt (Nat.lt_irrefl _)
  · refine ⟨?_, ?_, ?_⟩
    · obtain ⟨l, hl, h1⟩ := hw.ended
      refine ⟨l, ?_, h1⟩
      rw [hlines]
      exact (decProcess_grows s.ihex.dec s.spm dg.package).1.subset hl
    · rw [handOver_ihex, hcall.dec]
      exact hfifo
    · rw [hg, handOver_spm, hcall.flash, hf]
      exact hw.written

end Written

theorem NoDataAfterEnd.of_append {lines more : List Bytes} (h : NoDataAfterEnd (lines ++ more)) :
    NoDataAfterEnd lines := by
  intro before line after he h1
  have hall : goodData (after ++ more) = [] := h before line (after ++ more) (by rw [he]; simp) h1
  exact List.prefix_nil.mp (hall ▸ goodData_mono (List.prefix_append after more))

/-- Lines behind an end record with no data. -/
theorem NoDataAfterEnd.goodData_append {lines more : List Bytes} (h : NoDataAfterEnd (lines ++ more))
    (he : ∃ l ∈ lines, recType l = 1) : goodData (lines ++ more) = goodData lines := by
  obtain ⟨l, hl, h1⟩ := he
  obtain ⟨before, after, rfl⟩ := List.append_of_mem hl
  have hall : goodData (after ++ more) = [] := h before l (after ++ more) (by simp) h1
  have happ : ∀ xs ys : List Bytes, goodData (xs ++ ys) = goodData xs ++ goodData ys := by
    intro xs ys
    unfold goodData dataOf
    rw [List.filter_append, List.flatMap_append]
  rw [happ] at hall
  have hmore : goodData more = [] := (List.append_eq_nil_iff.mp hall).2
  rw [happ, hmore, List.append_nil]

/-! ## 3. What holds in every run -/

/-- The first word of the flash is erased. -/
def Tftp.Blank (s : Tftp) : Prop := (s.spm.mem 0).toNat + 256 * (s.spm.mem 1).toNat = 0xFFFF

/-- Then there is no timeout. -/
theorem Tftp.Blank.timedOut {s : Tftp} (h : s.Blank) : timedOut s = false := if_pos h

/-- **What holds in every run**: without an error the decoder is clean until the file has ended, and
    then the file is in the flash as long as no data follows; and before the first datagram since
    `tftpInit` nothing was written, or page 0 has been erased. -/
structure Server (s : Tftp) : Prop where
  range : InRange s.ihex
  clean : ¬ s.Failed → ¬ s.Ended → ∃ f₀, Clean f₀ s.ihex.dec s.spm
  whole : ¬ s.Failed → s.Ended → NoDataAfterEnd s.ihex.lines → FileWritten s
  waits : s.downloadStarted = false → s.spm.log = [] ∨ s.Blank
  marked : s.mark ≤ s.spm.log.length

theorem server_init {s : Tftp} (h : s.spm.log = [] ∨ s.Blank) : Server (tftpInit s) where
  range := inRange_init s.ihex
  clean _ _ := ⟨s.spm, clean_init s.ihex s.spm⟩
  whole _ he := absurd he (not_ended_init s)
  waits _ := h
  marked := Nat.le_refl _

/-- A round that leaves decoder and flash alone. -/
theorem server_same {s s' : Tftp} (h : Server s) (hsame : SameFlash s s')
    (hd : s'.downloadStarted = false → s.downloadStarted = false) : Server s' where
  range := by
    rw [hsame.ihex]
    exact h.range
  clean hf he := by
    rw [hsame.ihex, hsame.spm]
    exact h.clean (fun hf' => hf (hsame.failed.mpr hf')) (fun he' => he (hsame.ended.mpr he'))
  whole hf he hno := by
    rw [hsame.ihex] at hno
    exact hsame.fileWritten.mpr
      (h.whole (fun hf' => hf (hsame.failed.mpr hf')) (hsame.ended.mp he) hno)
  waits hs := by
    unfold Tftp.Blank
    rw [hsame.spm]
    exact h.waits (hd hs)
  marked := by
    rw [hsame.mark, hsame.spm]
    exact h.marked

/-- **A DATA datagram.** -/
theorem server_data {s s' : Tftp} {dg : Datagram} (h : Server s) (hsame : SameFlash (s.handOver dg) s')
    (hd : s'.downloadStarted = true) : Server s' := by
  have hcall := callIs h.range s.spm dg.package
  have hlines : (s.handOver dg).ihex.lines = (decProcess s.ihex.dec s.spm dg.package).2.1.lines := by
    rw [handOver_ihex]
    exact hcall.lines
  refine ⟨?_, fun hf he => ?_, fun hf he hno => ?_, fun hs => ?_, ?_⟩
  · rw [hsame.ihex, handOver_ihex]
    exact hcall.range
  · rw [hsame.failed, failed_handOver, not_or] at hf
    rw [hsame.ended, ended_handOver, not_or] at he
    obtain ⟨f₀, hc⟩ := h.clean hf.1 he.1
    have hdone := decProcess_clean hc dg.package
    have h0 : (decProcess s.ihex.dec s.spm dg.package).1 = 0 := by
      rw [hcall.answer] at hf he
      have := hdone.answer
      omega
    refine ⟨f₀, ?_⟩
    rw [hsame.ihex, hsame.spm, handOver_ihex, handOver_spm, hcall.dec, hcall.flash]
    exact hdone.clean h0
  · rw [hsame.fileWritten]
    rw [hsame.failed, failed_handOver, not_or] at hf
    rw [hsame.ended, ended_handOver] at he
    rw [hsame.ihex] at hno
    by_cases hended : s.Ended
    · -- the file had ended, and this call has brought no data
      obtain ⟨more, hmore⟩ := (decProcess_grows s.ihex.dec s.spm dg.package).1
      have hlines' : (s.handOver dg).ihex.lines = s.ihex.lines ++ more := hlines.trans hmore.symm
      rw [hlines'] at hno
      have hw := h.whole hf.1 hended hno.of_append
      refine fileWritten_idle h.range hw (Int.not_lt.mp hf.2) ?_
      rw [hlines']
      exact hno.goodData_append hw.ended
    · obtain ⟨f₀, hc⟩ := h.clean hf.1 hended
      exact fileWritten_whole h.range hc (he.resolve_left hended)
  · rw [hd] at hs
    exact Bool.noConfusion hs
  · rw [hsame.mark, hsame.spm, handOver_mark, handOver_spm, hcall.flash]
    exact Nat.le_trans h.marked (decProcess_grows s.ihex.dec s.spm dg.package).2.length_le

/-- **One round.** -/
theorem server_step {s s' : Tftp} {e : Event} (h : Server s) (hs : tftpNext s e = some s') : Server s' := by
  rcases tftpNext_cases hs with ⟨dg, _, _, hsame, hd⟩ | ⟨hsame, _, hd⟩ | ⟨_, _, _, hsame, _⟩
  · exact server_data h hsame hd
  · refine server_same h hsame fun hf => ?_
    rw [hd, Bool.or_eq_false_iff] at hf
    exact hf.1
  · -- page 0 was erased and `tftpInit` has run
    have hblank : Tftp.Blank { s with downloadStarted := false, spm := bootPageErase 0 s.spm } := by
      simp [Tftp.Blank, bootPageErase, pageNo]
    exact server_same (server_init (Or.inr hblank)) hsame fun _ => rfl

/-- **Every run.** -/
theorem server_run {ok : Tftp → Event → Prop} {s₀ s : Tftp} (hlog : s₀.spm.log = [])
    (h : Reaches tftpNext ok (tftpStart s₀) s) : Server s := by
  have hstart : Server (tftpStart s₀) := server_init (Or.inl hlog)
  exact Reaches.invariant Server hstart (fun _ _ _ hI _ hs => server_step hI hs) h

/-! ## 4. Control goes to the application -/

/-- **The datagram that passes for the last one is it.** A DATA datagram of less than 512 bytes comes
    only if the decoder will answer it with an error (a defect in its text, a first page that is no
    image), or without an error so far, with the end of the file, or after it and without data. -/
def EndsWell (s : Tftp) (packet : Option Datagram) : Prop :=
  ∀ dg, packet = some dg → dg.opcode = .data → dg.dataSize < 512 →
    (s.scan dg).verdict = .failed ∨ s.ihex.dec.Refuses dg.package ∨
    (¬ s.Failed ∧ ¬ s.Ended ∧ (s.scan dg).verdict = .ended) ∨
    (¬ s.Failed ∧ s.Ended ∧ NoDataAfterEnd s.ihex.lines ∧ (s.scan dg).data = [])

/-- **What a hand-over promises**: the flash is as `tftp_main` found it or holds the whole file, and
    FINAL_ACK answers a file whose end record was decoded. -/
def HandOverOk (s : Tftp) (packet : Option Datagram) : Prop :=
  (tftpPoll packet s).ret = 0 →
    ((tftpPoll packet s).s.spm.log = [] ∨ FileWritten (tftpPoll packet s).s) ∧
    ((tftpPoll packet s).response = some .finalAck → ∃ l ∈ (tftpPoll packet s).s.ihex.lines, recType l = 1)

/-- A short DATA datagram that ends well and is not refused leaves the whole file in the flash. -/
theorem handOver_fileWritten {s : Tftp} {packet : Option Datagram} (h : Server s) (hend : EndsWell s packet)
    {dg : Datagram} (hp : packet = some dg) (hop : dg.opcode = .data) (hshort : dg.dataSize < 512)
    (h0 : 0 ≤ (ihexPackageProcess s.ihex s.spm dg.package).1) : FileWritten (s.handOver dg) := by
  have hcall := callIs h.range s.spm dg.package
  have hanswer := h0
  rw [hcall.answer] at hanswer
  obtain ⟨m, _, _, hcase⟩ := decProcess_scan s.ihex.dec s.spm dg.package h.range.fifo_lt
  rcases hend dg hp hop hshort with hv | hv | ⟨hf, he, hv⟩ | ⟨hf, he, hno, hdata⟩
  · exact absurd (decProcess_failed s.spm h.range.fifo_lt hv) (Int.not_lt.mpr hanswer)
  · rw [(decProcess_refuses s.spm hv).2] at hanswer
    exact absurd hanswer (by decide)
  · -- the end record: answer 1, or -1
    obtain ⟨f₀, hc⟩ := h.clean hf he
    rcases hcase with ⟨_, ha, _⟩ | ⟨_, ha, _⟩
    · refine fileWritten_whole h.range hc ?_
      unfold Tftp.scan at hv
      rw [hcall.answer, ha, hv]
      rfl
    · rw [ha] at hanswer
      exact absurd hanswer (by decide)
  · -- the file had ended
    rcases hcase with ⟨_, _, hg⟩ | ⟨_, ha, _⟩
    · refine fileWritten_idle h.range (h.whole hf he hno) h0 ?_
      unfold Tftp.scan at hdata
      rw [handOver_ihex, hcall.lines, hg, hdata, List.append_nil]
      rfl
    · rw [ha] at hanswer
      exact absurd hanswer (by decide)

/-- **Hand-over only to a whole application.** In every run, a poll whose datagram ends well hands
    over only a flash that is untouched or holds the whole file, and never acknowledges a truncated
    one. A timeout hands over an untouched flash whatever came before. -/
theorem handOver_whole (s₀ s : Tftp) (packet : Option Datagram) (hlog : s₀.spm.log = [])
    (h : Reaches tftpNext (fun _ _ => True) (tftpStart s₀) s) (hend : EndsWell s packet) :
    HandOverOk s packet := by
  have hs := server_run hlog h
  intro hret
  rcases tftpPoll_zero hret with ⟨dg, hp, hop, hshort, h0, hpoll⟩ | ⟨hp, ht, hd, hpoll⟩
  · have hw := (touched_same _).fileWritten.mpr (handOver_fileWritten hs hend hp hop hshort h0)
    rw [hpoll]
    exact ⟨Or.inr hw, fun _ => hw.ended⟩
  · refine ⟨Or.inl ?_, fun hfinal => ?_⟩
    · rw [hpoll]
      rcases hs.waits hd with hl | hblank
      · exact hl
      · rw [hblank.timedOut] at ht
        exact Bool.noConfusion ht
    · rw [hp, tftpPoll_leave ht hd] at hfinal
      exact absurd hfinal (Option.some_ne_none _).symm

/-! ### A file of one datagram, and half of one -/

/-- A server that has just begun, over an erased flash. -/
def begun : Tftp := tftpStart (resetTftp erasedFlash)

/-- A read request, which the server refuses. -/
def readRequest : Datagram := ⟨fun _ => 0, [0, 1], fun _ => 0, by decide⟩

theorem readRequest_opcode : readRequest.opcode ≠ .data := by decide

/-- Block `n` of a transfer, from address 0.0.0.0. -/
def block (n : Nat) (data : Bytes) (h : data.length ≤ 512) : Datagram :=
  dataDatagram (fun _ => 0) (fun _ => 0) n data h

theorem block_opcode (n : Nat) {data : Bytes} (h : data.length ≤ 512) : (block n data h).opcode = .data :=
  dataDatagram_opcode _ _ n data h

theorem block_package (n : Nat) {data : Bytes} (h : data.length ≤ 512) : (block n data h).package = data :=
  dataDatagram_package _ _ n data h

theorem block_dataSize (n : Nat) {data : Bytes} (h : data.length ≤ 512) :
    (block n data h).dataSize = data.length := dataDatagram_dataSize _ _ n data h

/-- The first call of a server that has begun. -/
theorem begun_call {text : Bytes} (h : text.length ≤ 512) {a : Answer} (ha : firstLines erasedFlash text = a) :
    CallIs (ihexPackageProcess begun.ihex begun.spm text) a := by
  have hcall := callIs (inRange_init Ihex.zero) erasedFlash text
  have hinit : (ihexInit Ihex.zero).dec = ⟨[], [], 0, []⟩ := rfl
  rw [hinit, decProcess_init erasedFlash (Nat.lt_of_le_of_lt h (by decide)), ha] at hcall
  exact hcall

/-- A short DATA datagram the decoder does not refuse is answered with FINAL_ACK. -/
theorem poll_final {s : Tftp} {dg : Datagram} (hop : dg.opcode = .data) (hshort : dg.dataSize < 512)
    (h0 : ¬ (ihexPackageProcess s.ihex s.spm dg.package).1 < 0) :
    (tftpPoll (some dg) s).ret = 0 ∧ (tftpPoll (some dg) s).response = some .finalAck ∧
      (tftpPoll (some dg) s).s = (s.handOver dg).touched := by
  rw [tftpPoll_packet, processPacket_data hop, if_neg h0, if_pos hshort]
  exact ⟨rfl, rfl, rfl⟩

theorem shiftedText_length : shiftedText.length ≤ 512 := by decide +kernel

/-- The image of 52 bytes comes in one datagram and is handed over. -/
theorem handOver_whole_short : (tftpPoll (some (block 1 shiftedText shiftedText_length)) begun).ret = 0 ∧
    HandOverOk begun (some (block 1 shiftedText shiftedText_length)) := by
  have hans : (firstLines erasedFlash shiftedText).1 = 1 := by
    decide +kernel
  have hv : (Dec.scan ⟨[], [], 0, []⟩ shiftedText).verdict = .ended := by decide +kernel
  have hcall := begun_call shiftedText_length rfl
  rw [← hcall.answer] at hans
  have hpk := block_package 1 shiftedText_length
  have hsize : (block 1 shiftedText shiftedText_length).dataSize < 512 := by
    rw [block_dataSize]
    decide +kernel
  refine ⟨(poll_final (block_opcode 1 _) hsize ?_).1, handOver_whole (resetTftp erasedFlash) begun _ rfl .start ?_⟩
  · rw [hpk, hans]
    decide
  · intro dg hdg _ _
    rw [← Option.some.inj hdg]
    refine Or.inr (Or.inr (Or.inl ⟨not_failed_init _, not_ended_init _, ?_⟩))
    unfold Tftp.scan
    rw [hpk]
    exact hv

/-- The first eight records of a file: one page, and no end record. -/
def truncatedBlock : Bytes := linesText (hexLines [0x0A] 0 (List.replicate 8 (vectors 4)))

theorem truncatedBlock_length : truncatedBlock.length = 352 := length_hexLines _ _ _

/-- **A truncated file is handed over**: its only datagram is short, so it passes for the last one. -/
theorem truncated_handedOver : ∃ dg : Datagram,
    (tftpPoll (some dg) begun).ret = 0 ∧ (tftpPoll (some dg) begun).response = some .finalAck ∧
    (tftpPoll (some dg) begun).s.spm.log ≠ [] ∧
    (∀ l ∈ (tftpPoll (some dg) begun).s.ihex.lines, recType l ≠ 1) ∧ ¬ HandOverOk begun (some dg) := by
  have hle : truncatedBlock.length ≤ 512 := by
    rw [truncatedBlock_length]
    decide
  obtain ⟨ha, hlog, hno⟩ :
      (firstLines erasedFlash truncatedBlock).1 = 0 ∧
      (firstLines erasedFlash truncatedBlock).2.2.log ≠ [] ∧
      ∀ l ∈ (firstLines erasedFlash truncatedBlock).2.1.lines, recType l ≠ 1 := by
    decide +kernel
  have hcall := begun_call hle rfl
  rw [← hcall.answer] at ha
  rw [← hcall.flash] at hlog
  rw [← hcall.lines] at hno
  have hpk := block_package 1 hle
  have hsize : (block 1 truncatedBlock hle).dataSize < 512 := by
    rw [block_dataSize, truncatedBlock_length]
    decide
  obtain ⟨hret, hresp, hs⟩ := poll_final (block_opcode 1 hle) hsize (s := begun) (by rw [hpk, ha]; decide)
  have hno' : ∀ l ∈ (tftpPoll (some (block 1 truncatedBlock hle)) begun).s.ihex.lines, recType l ≠ 1 := by
    rw [hs, touched_ihex, handOver_ihex, hpk]
    exact hno
  refine ⟨block 1 truncatedBlock hle, hret, hresp, ?_, hno', fun hok => ?_⟩
  · rw [hs, touched_spm, handOver_spm, hpk]
    exact hlog
  · obtain ⟨l, hl, h1⟩ := (hok hret).2 hresp
    exact hno' l hl h1

/-! ## 5. Errors -/

/-- **A DATA datagram that does no harm after an error**: its text fills no page and, if it is short,
    is defective; or its first page is refused. -/
def Harmless (s : Tftp) (dg : Datagram) : Prop :=
  ((s.scan dg).pages = 0 ∧ (dg.dataSize < 512 → (s.scan dg).verdict = .failed)) ∨
    s.ihex.dec.Refuses dg.package

/-- After an error only such DATA datagrams come. -/
def HarmlessStep (s : Tftp) (e : Event) : Prop :=
  s.Failed → ∀ dg, e.packet = some dg → dg.opcode = .data → Harmless s dg

theorem harmless_data {s : Tftp} {dg : Datagram} (hr : InRange s.ihex) (h : Harmless s dg) :
    (s.handOver dg).spm = s.spm ∧ (dg.dataSize < 512 → (ihexPackageProcess s.ihex s.spm dg.package).1 < 0) := by
  have hcall := callIs hr s.spm dg.package
  rw [handOver_spm, hcall.flash, hcall.answer]
  rcases h with ⟨h0, hv⟩ | h
  · obtain ⟨hf, ha⟩ := decProcess_noPage s.spm hr.fifo_lt h0
    refine ⟨hf, fun hshort => ?_⟩
    have hv' : (s.ihex.dec.scan dg.package).verdict = .failed := hv hshort
    rw [ha, hv']
    decide
  · obtain ⟨hf, ha⟩ := decProcess_refuses s.spm h
    refine ⟨hf, fun _ => ?_⟩
    rw [ha]
    decide

/-- What such a run keeps: without an error the decoder is tidy, and all pages since `tftpInit` are
    pages of good records. -/
structure Sound (s : Tftp) : Prop where
  range : InRange s.ihex
  tidy : ¬ s.Failed → Tidy s.mark s.ihex.dec s.spm
  pages : GoodPages s.mark s.ihex.lines s.spm

theorem sound_init (s : Tftp) : Sound (tftpInit s) where
  range := inRange_init s.ihex
  tidy _ := tidy_init s.ihex s.spm
  pages := (tidy_init s.ihex s.spm).pages

theorem sound_same {s s' : Tftp} (h : Sound s) (hsame : SameFlash s s') : Sound s' where
  range := by
    rw [hsame.ihex]
    exact h.range
  tidy hf := by
    rw [hsame.ihex, hsame.spm, hsame.mark]
    exact h.tidy fun hf' => hf (hsame.failed.mpr hf')
  pages := by
    rw [hsame.ihex, hsame.spm, hsame.mark]
    exact h.pages

theorem sound_data {s : Tftp} {dg : Datagram} (h : Sound s) (hharm : s.Failed → Harmless s dg) :
    Sound (s.handOver dg) := by
  have hcall := callIs h.range s.spm dg.package
  have hlines := hcall.lines
  refine ⟨?_, fun hf => ?_, ?_⟩
  · rw [handOver_ihex]
    exact hcall.range
  · rw [failed_handOver, not_or, hcall.answer] at hf
    rw [handOver_mark, handOver_ihex, handOver_spm, hcall.dec, hcall.flash]
    exact (decProcess_tidy (h.tidy hf.1) dg.package).tidy (Int.not_lt.mp hf.2)
  · by_cases hf : s.Failed
    · -- nothing was written, lines were added
      rw [(harmless_data h.range (hharm hf)).1, handOver_mark, handOver_ihex, hlines]
      exact h.pages.mono (decProcess_grows s.ihex.dec s.spm dg.package).1
    · rw [handOver_mark, handOver_ihex, handOver_spm, hlines, hcall.flash]
      exact (decProcess_tidy (h.tidy hf) dg.package).pages

/-- **One poll.** -/
theorem sound_poll {s : Tftp} {e : Event} (h : Sound s) (hok : HarmlessStep s e) :
    Sound (tftpPoll e.packet s).s := by
  rcases tftpPoll_cases e.packet s with ⟨dg, hp, hop, hsame, _⟩ | ⟨hsame, _⟩ | ⟨_, _, _, hsame, _⟩
  · exact sound_same (sound_data h fun hf => hok hf dg hp hop) hsame
  · exact sound_same h hsame
  · exact sound_same (sound_init _) hsame

theorem sound_run {s₀ s : Tftp} (h : Reaches tftpNext HarmlessStep (tftpStart s₀) s) : Sound s := by
  have hstart : Sound (tftpStart s₀) := sound_init _
  refine Reaches.invariant Sound hstart ?_ h
  intro t e t' hI hok hs
  unfold tftpNext at hs
  simp only at hs
  split at hs
  · cases hs
  · cases hs
    exact sound_same (sound_poll hI hok) (updateLed_same e.timer _).1

/-- **Errors are final.** In every run in which, after an error, only harmless DATA datagrams come:
    no datagram after an error changes the flash or is answered with FINAL_ACK, and no poll writes a
    page that is not of the data of good records. -/
theorem errors_final (s₀ s : Tftp) (h : Reaches tftpNext HarmlessStep (tftpStart s₀) s) (e : Event)
    (hok : HarmlessStep s e) :
    (s.Failed → ∀ dg, e.packet = some dg →
      (tftpPoll e.packet s).s.spm = s.spm ∧ (tftpPoll e.packet s).response ≠ some .finalAck) ∧
    GoodPages (tftpPoll e.packet s).s.mark (tftpPoll e.packet s).s.ihex.lines (tftpPoll e.packet s).s.spm := by
  have hs := sound_run h
  refine ⟨fun hf dg hp => ?_, (sound_poll hs hok).pages⟩
  have hpoll := tftpPoll_packet dg s
  rw [hp]
  by_cases hop : dg.opcode = .data
  · obtain ⟨hflash, hneg⟩ := harmless_data hs.range (hok hf dg hp hop)
    refine ⟨?_, ?_⟩
    · rw [tftpPoll_data hop, touched_spm]
      exact hflash
    · rw [hpoll, processPacket_data hop]
      intro hresp
      have hfinal := Option.some.inj hresp
      split at hfinal
      · exact Response.noConfusion hfinal
      · rename_i h0
        split at hfinal
        · rename_i hshort
          exact h0 (hneg hshort)
        · exact Response.noConfusion hfinal
  · obtain ⟨hne, _, hspm, _⟩ := processPacket_other hop s
    refine ⟨?_, ?_⟩
    · rw [hpoll, touched_spm]
      exact hspm
    · rw [hpoll]
      intro hresp
      exact hne (Option.some.inj hresp)

/-! ### A bad record and a good one -/

theorem badBlock_length : badBlock.length ≤ 512 := by decide +kernel

/-- The datagram with the bad record. -/
def badDatagram : Datagram := block 1 badBlock badBlock_length

/-- The server after it. -/
def afterBad : Tftp := (tftpPoll (some badDatagram) begun).s

/-- The bytes of the bad record wait in the FIFO. -/
theorem afterBad_spec : afterBad.Failed ∧ afterBad.spm = erasedFlash ∧ InRange afterBad.ihex ∧
    afterBad.ihex.dec = ⟨[], vectors 4, 0, [badBlock.take 43]⟩ ∧
    tftpNext begun ⟨some badDatagram, false⟩ = some afterBad := by
  have hop : badDatagram.opcode = .data := block_opcode 1 badBlock_length
  have hpk : badDatagram.package = badBlock := block_package 1 badBlock_length
  obtain ⟨ha, hu, hq, hw, hl, hlog⟩ :
      (firstLines erasedFlash badBlock).1 = -2 ∧
      (firstLines erasedFlash badBlock).2.1.unread = [] ∧
      (firstLines erasedFlash badBlock).2.1.fifo = vectors 4 ∧
      (firstLines erasedFlash badBlock).2.1.writeAddr = 0 ∧
      (firstLines erasedFlash badBlock).2.1.lines =
        [badBlock.take 43] ∧
      (firstLines erasedFlash badBlock).2.2.log.length = erasedFlash.log.length := by
    decide +kernel
  have hflash := decProcess_flash ⟨[], [], 0, []⟩ erasedFlash badBlock
  rw [decProcess_init erasedFlash (Nat.lt_of_le_of_lt badBlock_length (by decide))] at hflash
  have hcall := begun_call badBlock_length rfl
  generalize firstLines erasedFlash badBlock = a
    at ha hu hq hw hl hlog hflash hcall
  have hs : afterBad = (begun.handOver badDatagram).touched := tftpPoll_data hop begun
  have hneg : (ihexPackageProcess begun.ihex begun.spm badDatagram.package).1 < 0 := by
    rw [hpk, hcall.answer, ha]
    decide
  refine ⟨?_, ?_, ?_, ?_, ?_⟩
  · rw [hs, (touched_same _).failed, failed_handOver]
    exact Or.inr hneg
  · rw [hs, touched_spm, handOver_spm, hpk, hcall.flash]
    rcases hflash with hf | hf
    · exact hf
    · rw [hlog] at hf
      exact absurd hf (Nat.lt_irrefl _)
  · rw [hs, touched_ihex, handOver_ihex, hpk]
    exact hcall.range
  · rw [hs, touched_ihex, handOver_ihex, hpk, hcall.dec]
    exact Dec.ext hu hq hw hl
  · have hret : (tftpPoll (some badDatagram) begun).ret = 1 := by
      rw [tftpPoll_packet, processPacket_data hop, if_pos hneg]
      rfl
    unfold tftpNext
    simp only [hret]
    rfl

/-- The bad record once more is harmless: it is refused again. -/
theorem errors_final_again : afterBad.Failed ∧ (tftpPoll (some badDatagram) afterBad).s.spm = afterBad.spm ∧
    (tftpPoll (some badDatagram) afterBad).response ≠ some .finalAck := by
  obtain ⟨hf, _, _, hdec, hnext⟩ := afterBad_spec
  have hpk : badDatagram.package = badBlock := block_package 1 badBlock_length
  obtain ⟨h0, hv⟩ : (Dec.scan ⟨[], vectors 4, 0, [badBlock.take 43]⟩ badBlock).pages = 0 ∧
      (Dec.scan ⟨[], vectors 4, 0, [badBlock.take 43]⟩ badBlock).verdict = .failed := by decide +kernel
  have hrun : Reaches tftpNext HarmlessStep begun afterBad :=
    .step _ .start (fun hb => absurd hb (not_failed_init _)) hnext
  obtain ⟨hfinal, _⟩ := errors_final (resetTftp erasedFlash) afterBad hrun ⟨some badDatagram, false⟩
    fun _ dg hdg _ => by
      rw [← Option.some.inj hdg]
      unfold Harmless Tftp.scan
      rw [hdec, hpk]
      exact Or.inl ⟨h0, fun _ => hv⟩
  exact ⟨hf, hfinal hf badDatagram rfl⟩

/-- Seven good records. -/
def goodBlock : Bytes := linesText (hexLines [0x0A] 16 (List.replicate 7 (vectors 4)))

theorem goodBlock_length : goodBlock.length = 308 := length_hexLines _ _ _

/-- **The bytes of a bad record are flashed**: they wait in the FIFO for the good records of the next
    datagram, and that one is even acknowledged as the last. -/
theorem badRecord_flashed : ∃ dg : Datagram, afterBad.Failed ∧
    tftpNext begun ⟨some badDatagram, false⟩ = some afterBad ∧
    (tftpPoll (some dg) afterBad).response = some .finalAck ∧ (∃ l ∈ afterBad.ihex.lines, recSum l ≠ 0 ∧ ∀ i, i < 16 →
      (tftpPoll (some dg) afterBad).s.spm.mem i = (recData l).getD i 0) ∧
    (tftpPoll (some dg) afterBad).s.spm.mem 0 ≠ afterBad.spm.mem 0 := by
  obtain ⟨hf, hspm, hr, hdec, hnext⟩ := afterBad_spec
  have hle : goodBlock.length ≤ 512 := by
    rw [goodBlock_length]
    decide
  have hpk := block_package 2 hle
  have hsize : (block 2 goodBlock hle).dataSize < 512 := by
    rw [block_dataSize, goodBlock_length]
    decide
  have hlines : decProcess afterBad.ihex.dec afterBad.spm goodBlock = lineLoop (goodBlock.length + 1)
      ⟨⟨goodBlock, vectors 4, 0, [badBlock.take 43]⟩, erasedFlash, 0, .empty⟩ := by
    rw [hdec, hspm]
    exact decProcess_first rfl erasedFlash (Nat.lt_of_le_of_lt hle (by decide))
  have hcall := callIs hr afterBad.spm goodBlock
  rw [hlines] at hcall
  obtain ⟨ha, hmem⟩ :
      (lineLoop (goodBlock.length + 1)
        ⟨⟨goodBlock, vectors 4, 0, [badBlock.take 43]⟩, erasedFlash, 0, .empty⟩).1 = 0 ∧
      ∀ i, i < 16 → (lineLoop (goodBlock.length + 1)
        ⟨⟨goodBlock, vectors 4, 0, [badBlock.take 43]⟩, erasedFlash, 0, .empty⟩).2.2.mem i =
          (recData (badBlock.take 43)).getD i 0 := by
    decide +kernel
  have hsum : recSum (badBlock.take 43) ≠ 0 := by decide +kernel
  have hfirst : (recData (badBlock.take 43)).getD 0 0 = 0x0C := by decide +kernel
  generalize lineLoop (goodBlock.length + 1)
    ⟨⟨goodBlock, vectors 4, 0, [badBlock.take 43]⟩, erasedFlash, 0, .empty⟩ = a at ha hmem hcall
  rw [← hcall.answer] at ha
  rw [← hcall.flash] at hmem
  obtain ⟨_, hresp, hs⟩ := poll_final (block_opcode 2 hle) hsize (s := afterBad) (by rw [hpk, ha]; decide)
  refine ⟨block 2 goodBlock hle, hf, hnext, hresp, ⟨badBlock.take 43, ?_, hsum, ?_⟩, ?_⟩
  · have hl : afterBad.ihex.lines = [badBlock.take 43] := congrArg Dec.lines hdec
    rw [hl]
    exact List.mem_cons_self
  · intro i hi
    rw [hs, touched_spm, handOver_spm, hpk]
    exact hmem i hi
  · rw [hs, touched_spm, handOver_spm, hpk, hmem 0 (by decide), hfirst, hspm]
    decide

end SmartHome.Bootloader
