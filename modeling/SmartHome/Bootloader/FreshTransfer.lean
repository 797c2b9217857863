/-
  Subject:   WHEN A WRITE REQUEST BEGINS A FRESH TRANSFER.

  `tftpInit` and the timeout call `ihex_init`; a write request does not. It sets the last block number
  and the port, and what earlier datagrams left in the decoder stays there.

  * `serveStep` -- one datagram: response, pages written, and the server that goes on;
  * `SameAfterWrq` -- whatever datagrams follow a write request, two servers answer and write alike;
  * `alike_of_same` -- servers whose decoders hold the same are alike;
  * **`empty_of_alike`** -- a server that is like one with an empty decoder has an empty decoder: five
    packages find out;
  * **`freshTransfer_iff`** -- over a class of histories, the transfers are fresh exactly if every
    history leaves the decoder empty; `strayCharacter_kept` -- one stray character, and the next transfer
    fails.
-/
import SmartHome.Lib.Transducer
import SmartHome.Bootloader.Leftover
import SmartHome.Bootloader.Transfer

namespace SmartHome.Bootloader

open SmartHome.Lib

-- what a call does is looked up in its lemmas, never computed
attribute [local irreducible] ihexPackageProcess decProcess

/-! ## 1. The server as a machine that answers -/

/-- **One datagram**: the response code and the packet sent, the pages written, and the server if it
    goes on. -/
def serveStep (s : Tftp) (dg : Datagram) :
    ((Option Response × Option Bytes) × List (Nat × Bytes)) × Option Tftp :=
  let p := tftpPoll (some dg) s
  (((p.response, p.sent), writesSince s.spm p.s.spm), if p.ret = 0 then none else some p.s)

/-- The same, by what `processPacket` does. -/
theorem serveStep_eq (s : Tftp) (dg : Datagram) :
    serveStep s dg =
      (((some (processPacket dg s).1, some (sendResponse (processPacket dg s).2.lastPacket (processPacket dg s).1)),
        writesSince s.spm (processPacket dg s).2.spm),
        if (processPacket dg s).1 = .finalAck then none else some (processPacket dg s).2.touched) := by
  unfold serveStep
  rw [tftpPoll_packet]
  by_cases hf : (processPacket dg s).1 = .finalAck
  · simp only [if_pos hf]
    rfl
  · simp only [if_neg hf]
    rfl

/-- The response to a DATA datagram, from the decoder's answer. -/
def dataResponse (answer : Int) (size : Nat) : Response :=
  if answer < 0 then .invalidImage else if size < 512 then .finalAck else .ack

theorem serveStep_data {dg : Datagram} (h : dg.opcode = .data) {s : Tftp} (hs : InRange s.ihex) :
    serveStep s dg = (((some (dataResponse (decProcess s.ihex.dec s.spm dg.package).1 dg.dataSize),
          some (sendResponse dg.block (dataResponse (decProcess s.ihex.dec s.spm dg.package).1 dg.dataSize))),
        writesSince s.spm (decProcess s.ihex.dec s.spm dg.package).2.2),
        if dataResponse (decProcess s.ihex.dec s.spm dg.package).1 dg.dataSize = .finalAck then none
          else some (s.handOver dg).touched) := by
  have hcall := callIs hs s.spm dg.package
  rw [serveStep_eq, processPacket_data h, handOver_lastPacket, handOver_spm, hcall.answer, hcall.flash]
  rfl

/-- Any other datagram is answered without a look at decoder and flash. -/
theorem processPacket_answer {dg : Datagram} (h : dg.opcode ≠ .data) (s t : Tftp) :
    (processPacket dg s).1 = (processPacket dg t).1 ∧
      sendResponse (processPacket dg s).2.lastPacket (processPacket dg s).1 =
        sendResponse (processPacket dg t).2.lastPacket (processPacket dg t).1 := by
  unfold processPacket
  cases ho : dg.opcode with
  | data => exact absurd ho h
  | _ => exact ⟨rfl, rfl⟩

/-! ## 2. Decoders that hold the same -/

/-- Two servers whose decoders hold the same. -/
structure SameDec (s t : Tftp) : Prop where
  left : PageAligned s.ihex
  right : PageAligned t.ihex
  dec : s.ihex.dec.Same t.ihex.dec

theorem SameDec.touched {s t : Tftp} (h : SameDec s t) : SameDec s.touched t.touched := ⟨h.left, h.right, h.dec⟩

theorem handOver_pageAligned {s : Tftp} (hs : PageAligned s.ihex) (dg : Datagram) :
    PageAligned (s.handOver dg).ihex := by
  rw [handOver_ihex]
  exact call_pageAligned hs s.spm dg.package

/-- The decoders after the same DATA datagram. -/
theorem SameDec.handOver {s t : Tftp} (h : SameDec s t) (dg : Datagram) : SameDec (s.handOver dg) (t.handOver dg) := by
  have hs := callIs h.left.toInRange s.spm dg.package
  have ht := callIs h.right.toInRange t.spm dg.package
  refine ⟨handOver_pageAligned h.left dg, handOver_pageAligned h.right dg, ?_⟩
  rw [handOver_ihex, handOver_ihex, hs.dec, ht.dec]
  exact (decProcess_same h.dec h.left.aligned s.spm t.spm dg.package).dec

theorem serveStep_same {s t : Tftp} (h : SameDec s t) (dg : Datagram) :
    (serveStep s dg).1 = (serveStep t dg).1 ∧ Option.Rel SameDec (serveStep s dg).2 (serveStep t dg).2 := by
  by_cases hop : dg.opcode = .data
  · have hsame := decProcess_same h.dec h.left.aligned s.spm t.spm dg.package
    have hwrites : writesSince s.spm (decProcess s.ihex.dec s.spm dg.package).2.2 =
        writesSince t.spm (decProcess t.ihex.dec t.spm dg.package).2.2 := congrArg pageWrites hsame.ops.newOps
    rw [serveStep_data hop h.left.toInRange, serveStep_data hop h.right.toInRange, hsame.answer, hwrites]
    refine ⟨rfl, ?_⟩
    simp only
    split
    · exact .none
    · exact .some (h.handOver dg).touched
  · obtain ⟨hr, hsent⟩ := processPacket_answer hop s t
    obtain ⟨hno, hi, hf, _⟩ := processPacket_other hop s
    obtain ⟨hno', hi', hf', _⟩ := processPacket_other hop t
    rw [serveStep_eq, serveStep_eq, hr, ← hsent, hr, hf, hf', writesSince_self, writesSince_self, if_neg hno',
      if_neg hno']
    have hnext : SameDec (processPacket dg s).2 (processPacket dg t).2 := by
      refine ⟨?_, ?_, ?_⟩
      · rw [hi]
        exact h.left
      · rw [hi']
        exact h.right
      · rw [hi, hi']
        exact h.dec
    exact ⟨rfl, .some hnext.touched⟩

/-- **Servers whose decoders hold the same are alike**, whatever is in the flash. -/
theorem alike_of_same {s t : Tftp} (h : SameDec s t) : Alike serveStep s t :=
  alike_of_bisimulation (fun _ _ dg h => (serveStep_same h dg).1) (fun _ _ dg h => (serveStep_same h dg).2) h

/-! ## 3. What shows -/

/-- **Nothing is left in the decoder.** -/
structure Dec.Empty (d : Dec) : Prop where
  unread : d.unread = []
  fifo : d.fifo = []
  writeAddr : d.writeAddr = 0

theorem Dec.Empty.same {d d' : Dec} (h : d.Empty) (h' : d'.Empty) : d.Same d' :=
  ⟨h.unread.trans h'.unread.symm, h.fifo.trans h'.fifo.symm, h.writeAddr.trans h'.writeAddr.symm⟩

section Block

variable {s t : Tftp} (package : Bytes)

theorem serveStep_block (hs : InRange s.ihex) (h : package.length ≤ 512) :
    serveStep s (block 1 package h) = (((some (dataResponse (decProcess s.ihex.dec s.spm package).1 package.length),
          some (sendResponse 1 (dataResponse (decProcess s.ihex.dec s.spm package).1 package.length))),
        writesSince s.spm (decProcess s.ihex.dec s.spm package).2.2),
        if dataResponse (decProcess s.ihex.dec s.spm package).1 package.length = .finalAck then none
          else some (s.handOver (block 1 package h)).touched) := by
  have hblock : (block 1 package h).block = 1 := dataDatagram_block ..
  rw [serveStep_data (block_opcode 1 h) hs, block_package, block_dataSize, hblock]

theorem dataResponse_negative (answer : Int) (size : Nat) :
    dataResponse answer size = .invalidImage ↔ answer < 0 := by
  unfold dataResponse
  split
  · rename_i h
    exact ⟨fun _ => h, fun _ => rfl⟩
  · rename_i h
    split <;> exact ⟨fun h' => Response.noConfusion h', fun h' => absurd h' h⟩

/-- **What servers that are alike make of a package**: both refuse it or none does, and they write the
    same pages. -/
theorem alike_call (h : Alike serveStep s t) (hs : InRange s.ihex) (ht : InRange t.ihex) (hle : package.length ≤ 512) :
    ((decProcess s.ihex.dec s.spm package).1 < 0 ↔ (decProcess t.ihex.dec t.spm package).1 < 0) ∧
      writesSince s.spm (decProcess s.ihex.dec s.spm package).2.2 =
        writesSince t.spm (decProcess t.ihex.dec t.spm package).2.2 := by
  have hout := h.out (block 1 package hle)
  rw [serveStep_block package hs, serveStep_block package ht] at hout
  obtain ⟨hresp, hwrites⟩ := Prod.mk.inj hout
  have hcode := Option.some.inj (Prod.mk.inj hresp).1
  refine ⟨?_, hwrites⟩
  rw [← dataResponse_negative _ package.length, ← dataResponse_negative _ package.length, hcode]

/-- After a full package they are alike again. -/
theorem alike_full (h : Alike serveStep s t) (hs : InRange s.ihex) (ht : InRange t.ihex)
    (hfull : package.length = 512) :
    Alike serveStep (s.handOver (block 1 package (Nat.le_of_eq hfull))).touched
      (t.handOver (block 1 package (Nat.le_of_eq hfull))).touched := by
  have hnot : ∀ answer, dataResponse answer package.length ≠ .finalAck := by
    intro answer
    unfold dataResponse
    rw [if_neg (by omega : ¬ package.length < 512)]
    split <;> exact Response.noConfusion
  have hstep := serveStep_block package hs (Nat.le_of_eq hfull)
  have hstep' := serveStep_block package ht (Nat.le_of_eq hfull)
  rw [if_neg (hnot _)] at hstep hstep'
  exact h.next hstep hstep'

theorem handOver_block (hs : InRange s.ihex) (hle : package.length ≤ 512) :
    (s.handOver (block 1 package hle)).touched.ihex.dec = (decProcess s.ihex.dec s.spm package).2.1 ∧
      (s.handOver (block 1 package hle)).touched.spm = (decProcess s.ihex.dec s.spm package).2.2 := by
  have hcall := callIs hs s.spm package
  rw [touched_ihex, touched_spm, handOver_ihex, handOver_spm, block_package]
  exact ⟨hcall.dec, hcall.flash⟩

end Block

/-! ## 4. Five packages -/

section Packages

variable {s t : Tftp} (h : Alike serveStep s t) (hs : PageAligned s.ihex) (ht : PageAligned t.ihex)

include h hs ht

/-- The first package is empty: a server with an empty decoder answers it and writes nothing. -/
theorem alike_nothing (he : t.ihex.dec.Empty) : ¬ (decProcess s.ihex.dec s.spm []).1 < 0 ∧
    (decProcess s.ihex.dec s.spm []).2.2 = s.spm := by
  obtain ⟨hsign, hwrites⟩ := alike_call [] h hs.toInRange ht.toInRange (Nat.zero_le _)
  have hblank : decProcess t.ihex.dec t.spm [] = (0, t.ihex.dec.feed [], t.spm) := decProcess_blank t.spm he.unread
  rw [hblank] at hsign hwrites
  refine ⟨fun hneg => absurd (hsign.mp hneg) (by simp), ?_⟩
  rcases decProcess_unwritten s.ihex.dec s.spm [] with hf | hf
  · exact hf
  · rw [hwrites] at hf
    exact absurd (writesSince_self t.spm) hf

/-- **A package of bangs that empties one ring and not the other** tells them apart. -/
theorem alike_bangs {m n : Nat} (htu : t.ihex.dec.unread = bangs m) (hm : m + (n + 1) < 592) (hn : n + 1 ≤ 512) :
    s.ihex.dec.unread.length + (n + 1) ≠ 592 := by
  intro hfull
  obtain ⟨hsign, _⟩ := alike_call (bangs (n + 1)) h hs.toInRange ht.toInRange (by rw [bangs_length]; exact hn)
  rw [decProcess_wiped_bangs s.spm hs.toInRange.unread_lt hfull, decProcess_more_bangs t.spm htu hm] at hsign
  exact absurd (hsign.mpr (by simp)) (by decide)

/-- Two more find the waiting bytes and the write address, over rings that hold 512 bangs. -/
theorem alike_probe (hsu : s.ihex.dec.unread.length = 512) (htu : t.ihex.dec.unread.length = 512)
    (hfifo : t.ihex.dec.fifo = []) (haddr : t.ihex.dec.writeAddr = 0) :
    s.ihex.dec.fifo = [] ∧ s.ihex.dec.writeAddr = 0 := by
  have hcall : ∀ b, ((decProcess { s.ihex.dec with unread := [] } s.spm (probe b)).1 < 0 ↔
        (decProcess Dec.init erasedFlash (probe b)).1 < 0) ∧
      writesSince s.spm (decProcess { s.ihex.dec with unread := [] } s.spm (probe b)).2.2 =
        writesSince erasedFlash (decProcess Dec.init erasedFlash (probe b)).2.2 := by
    intro b
    obtain ⟨hsign, hwrites⟩ := alike_call (bangs 80 ++ probe b) h hs.toInRange ht.toInRange
      (by rw [List.length_append, bangs_length, probe_length]; decide)
    have hsame : Dec.Same { t.ihex.dec with unread := [] } Dec.init := ⟨rfl, hfifo, haddr⟩
    have hinit := decProcess_same hsame ht.aligned t.spm erasedFlash (probe b)
    rw [decProcess_wiped s.spm hs.toInRange.unread_lt (by rw [hsu, bangs_length]),
      decProcess_wiped t.spm ht.toInRange.unread_lt (by rw [htu, bangs_length])] at hsign hwrites
    refine ⟨?_, hwrites.trans (congrArg pageWrites hinit.ops.newOps)⟩
    rw [hsign, hinit.answer]
  have hempty := probe_empty (d := { s.ihex.dec with unread := [] }) (f := s.spm) rfl hs.aligned
    (fun hneg => (probe_init 0 (by decide)).1 ((hcall 0).1.mp hneg)) (fun b _ => (hcall b).2)
  exact hempty

end Packages

/-- **A server that is like one with an empty decoder has an empty decoder.** -/
theorem empty_of_alike {s t : Tftp} (h : Alike serveStep s t) (hs : PageAligned s.ihex) (ht : PageAligned t.ihex)
    (he : t.ihex.dec.Empty) : s.ihex.dec.Empty := by
  obtain ⟨hquiet, hflash⟩ := alike_nothing h hs ht he
  have hlen := hs.toInRange.unread_lt
  -- more than 79 characters would be wiped by a package of bangs
  have hshort : s.ihex.dec.unread.length < 80 := by
    by_contra hlong
    refine alike_bangs (m := 0) (n := 591 - s.ihex.dec.unread.length) h hs ht he.unread ?_ ?_ ?_
    · omega
    · omega
    · omega
  -- a full package of bangs: what it leaves of the characters before it is nothing
  have hfull : (bangs 512).length = 512 := bangs_length 512
  obtain ⟨hd, hf⟩ := handOver_block (bangs 512) hs.toInRange (Nat.le_of_eq hfull)
  obtain ⟨hd', hf'⟩ := handOver_block (bangs 512) ht.toInRange (Nat.le_of_eq hfull)
  have hnext := alike_full (bangs 512) h hs.toInRange ht.toInRange hfull
  have hs₁ : PageAligned (s.handOver (block 1 (bangs 512) (Nat.le_of_eq hfull))).touched.ihex :=
    handOver_pageAligned hs _
  have ht₁ : PageAligned (t.handOver (block 1 (bangs 512) (Nat.le_of_eq hfull))).touched.ihex :=
    handOver_pageAligned ht _
  rw [decProcess_more_bangs (m := 0) (n := 511) t.spm he.unread (by decide)] at hd'
  obtain ⟨v, hv, hleft, hall⟩ := decProcess_bangs (d := s.ihex.dec) s.spm (n := 511) (by omega)
  generalize (s.handOver (block 1 (bangs 512) (Nat.le_of_eq hfull))).touched = s₁ at hd hf hnext hs₁
  generalize (t.handOver (block 1 (bangs 512) (Nat.le_of_eq hfull))).touched = t₁ at hd' hf' hnext ht₁
  have htu : t₁.ihex.dec.unread = bangs 512 := by
    rw [hd']
  have hnil : v = [] := by
    by_contra hne
    have hpos := List.length_pos_iff.mpr hne
    refine alike_bangs (m := 512) (n := 79 - v.length) hnext hs₁ ht₁ htu ?_ ?_ ?_
    · omega
    · omega
    · rw [hd, hleft, List.length_append, bangs_length]
      omega
  obtain ⟨hread, hfifo, haddr, _⟩ := hall hnil
  obtain ⟨hfifo₁, haddr₁⟩ := alike_probe hnext hs₁ ht₁ (by rw [hd, hleft, hnil]; exact hfull) (by rw [htu]; exact hfull)
    (by rw [hd']; exact he.fifo) (by rw [hd']; exact he.writeAddr)
  rw [hd] at hfifo₁ haddr₁
  -- no byte waits, so there was nothing to read
  have hunread : s.ihex.dec.unread = [] :=
    (decProcess_quiet hquiet hflash hread).resolve_right (fun hne => hne (hfifo.trans hfifo₁))
  have hblank : decProcess s.ihex.dec s.spm [] = (0, s.ihex.dec.feed [], s.spm) := decProcess_blank s.spm hunread
  rw [hblank] at hfifo haddr
  exact ⟨hunread, hfifo.trans hfifo₁, haddr.trans haddr₁⟩

/-! ## 5. Histories and transfers -/

/-- A round without a datagram does not run into the timeout. -/
def NoTimeout (s : Tftp) (e : Event) : Prop := e.packet = none → timedOut s = false

/-- **The same transfer**: whatever datagrams follow a write request, the responses are the same and so
    are the pages written, address and content. -/
def SameAfterWrq (s t : Tftp) : Prop :=
  ∀ wrq dgs, wrq.opcode = .wrq → respond serveStep s (wrq :: dgs) = respond serveStep t (wrq :: dgs)

/-- A write request is acknowledged, writes nothing and leaves the decoder alone. -/
theorem serveStep_wrq {wrq : Datagram} (h : wrq.opcode = .wrq) (s : Tftp) :
    serveStep s wrq = (((some .ack, some (sendResponse 0 .ack)), []), some (processPacket wrq s).2.touched) := by
  have hop : wrq.opcode ≠ .data := by
    rw [h]
    exact Opcode.noConfusion
  obtain ⟨hack, hlast, _⟩ := processPacket_wrq h s
  obtain ⟨hno, _, hf, _⟩ := processPacket_other hop s
  rw [serveStep_eq, hf, writesSince_self, if_neg hno, hlast, hack]

theorem afterWrq_ihex {wrq : Datagram} (h : wrq.opcode = .wrq) (s : Tftp) :
    (processPacket wrq s).2.touched.ihex = s.ihex ∧ (processPacket wrq s).2.touched.spm = s.spm := by
  have hop : wrq.opcode ≠ .data := by
    rw [h]
    exact Opcode.noConfusion
  obtain ⟨_, hi, hf, _⟩ := processPacket_other hop s
  exact ⟨hi, hf⟩

theorem noName_fits : ([] : Bytes).length ≤ 512 := Nat.zero_le _

/-- A write request from address 0.0.0.0. -/
def request : Datagram := wrqDatagram (fun _ => 0) (fun _ => 0) [] noName_fits

theorem request_opcode : request.opcode = .wrq := wrqDatagram_opcode ..

/-- A transfer is the same as with an empty decoder exactly if the decoder is empty. -/
theorem sameAfterWrq_iff {s t : Tftp} (hs : PageAligned s.ihex) (ht : PageAligned t.ihex) (he : t.ihex.dec.Empty) :
    SameAfterWrq s t ↔ s.ihex.dec.Empty := by
  constructor
  · intro h
    obtain ⟨hi, _⟩ := afterWrq_ihex request_opcode s
    obtain ⟨hi', _⟩ := afterWrq_ihex request_opcode t
    have halike : Alike serveStep (processPacket request s).2.touched (processPacket request t).2.touched := fun dgs =>
      respond_go_inj (serveStep_wrq request_opcode s) (serveStep_wrq request_opcode t) (h request dgs request_opcode)
    have hempty := empty_of_alike halike (by rw [hi]; exact hs) (by rw [hi']; exact ht) (by rw [hi']; exact he)
    rw [hi] at hempty
    exact hempty
  · intro h wrq dgs _
    exact alike_of_same ⟨hs, ht, h.same he⟩ (wrq :: dgs)

theorem start_empty (s₀ : Tftp) : (tftpStart s₀).ihex.dec.Empty := ⟨window_self .., window_self .., rfl⟩

/-- **When a write request begins a fresh transfer.** Take any class of histories since `tftpInit`
    without a timeout, the empty history among them: any two of them are followed by the same
    transfers exactly if each of them leaves the decoder empty. -/
theorem freshTransfer_iff (s₀ : Tftp) (H : Tftp → Prop)
    (hH : ∀ s, H s → Reaches tftpNext NoTimeout (tftpStart s₀) s) (hstart : H (tftpStart s₀)) :
    (∀ s₁ s₂, H s₁ → H s₂ → SameAfterWrq s₁ s₂) ↔ ∀ s, H s → s.ihex.dec.Empty := by
  have haligned : ∀ s, H s → PageAligned s.ihex := fun s hs => tftp_pageAligned (hH s hs)
  constructor
  · intro h s hs
    exact (sameAfterWrq_iff (haligned s hs) (haligned _ hstart) (start_empty s₀)).mp (h s _ hs hstart)
  · intro h s₁ s₂ h₁ h₂
    exact (sameAfterWrq_iff (haligned s₁ h₁) (haligned s₂ h₂) (h s₂ h₂)).mpr (h s₁ h₁)

/-! ## 6. A stray character -/

/-- A server that was asked to read. -/
def askedServer : Tftp := (processPacket readRequest begun).2.touched

/-- A refused read request before the write request makes no difference. -/
theorem freshTransfer_asked : SameAfterWrq askedServer begun := by
  obtain ⟨hno, hi, _⟩ := processPacket_other readRequest_opcode begun
  have hreach : Reaches tftpNext NoTimeout begun askedServer := by
    refine .step ⟨some readRequest, false⟩ .start (fun h => absurd h (Option.some_ne_none readRequest)) ?_
    unfold tftpNext
    rw [tftpPoll_packet]
    simp only [if_neg hno, Nat.one_ne_zero, if_false]
    rfl
  have hempty : askedServer.ihex.dec.Empty := by
    unfold askedServer
    rw [touched_ihex, hi]
    exact start_empty _
  refine (freshTransfer_iff (resetTftp erasedFlash) (fun s => s = askedServer ∨ s = begun) ?_ (Or.inr rfl)).mpr ?_
    askedServer begun (Or.inl rfl) (Or.inr rfl)
  · rintro s (rfl | rfl)
    · exact hreach
    · exact .start
  · rintro s (rfl | rfl)
    · exact hempty
    · exact start_empty _

/-- A write request and a file in one datagram. -/
theorem respond_upload {s : Tftp} (hs : InRange s.ihex) {package : Bytes} (h : package.length ≤ 512) :
    respond serveStep s [request, block 1 package h] = ([(some .ack, some (sendResponse 0 .ack)),
        (some (dataResponse (decProcess s.ihex.dec s.spm package).1 package.length),
          some (sendResponse 1 (dataResponse (decProcess s.ihex.dec s.spm package).1 package.length)))],
        writesSince s.spm (decProcess s.ihex.dec s.spm package).2.2) := by
  obtain ⟨hi, hf⟩ := afterWrq_ihex request_opcode s
  rw [respond_go (serveStep_wrq request_opcode s), respond_one, serveStep_block package (by rw [hi]; exact hs), hi, hf]
  rfl

/-- A server that was sent one `!` in a DATA datagram, and refused it. -/
def strayServer : Tftp := (begun.handOver (block 1 (bangs 1) (by decide))).touched

theorem probe_fits : (probe 0).length ≤ 512 := by
  rw [probe_length]
  decide

/-- The upload of a good file. -/
def upload : List Datagram := [request, block 1 (probe 0) probe_fits]

theorem strayServer_spec : Reaches tftpNext NoTimeout begun strayServer ∧ InRange strayServer.ihex ∧
    strayServer.ihex.dec.unread = bangs 1 := by
  have hrange : InRange begun.ihex := inRange_init _
  have hcall := callIs hrange begun.spm (bangs 1)
  have hrefused : decProcess begun.ihex.dec begun.spm (bangs 1) =
      (-2, { begun.ihex.dec with unread := bangs 1 }, begun.spm) :=
    decProcess_more_bangs (m := 0) (n := 0) begun.spm (start_empty _).unread (by decide)
  rw [hrefused] at hcall
  refine ⟨?_, ?_, ?_⟩
  · refine .step ⟨some (block 1 (bangs 1) (by decide)), false⟩ .start
      (fun h => absurd h (Option.some_ne_none _)) ?_
    unfold tftpNext
    rw [tftpPoll_packet, processPacket_data (block_opcode 1 _), block_package, hcall.answer]
    rfl
  · unfold strayServer
    rw [touched_ihex, handOver_ihex, block_package]
    exact hcall.range
  · unfold strayServer
    rw [touched_ihex, handOver_ihex, block_package, hcall.dec]

/-- **One stray character, and the next transfer fails.** After a DATA datagram that is nothing but `!`,
    a write request and a good file are answered with an error and nothing is written; without it,
    the file is taken. -/
theorem strayCharacter_kept : Reaches tftpNext NoTimeout begun strayServer ∧ ¬ SameAfterWrq strayServer begun ∧
    (respond serveStep strayServer upload).1.map Prod.fst = [some .ack, some .invalidImage] ∧
    (respond serveStep strayServer upload).2 = [] ∧
    (respond serveStep begun upload).1.map Prod.fst = [some .ack, some .finalAck] ∧
    (respond serveStep begun upload).2.map Prod.fst = [0] := by
  obtain ⟨hreach, hrange, hunread⟩ := strayServer_spec
  obtain ⟨hans, hwrites⟩ := probe_init 0 (by decide)
  have hone : ∀ text, bangs 1 ++ text = 0x21 :: text := fun _ => rfl
  have hfeed : (strayServer.ihex.dec.feed (probe 0)).unread = 0x21 :: probe 0 := by
    unfold Dec.feed
    rw [hunread, pushList_append _ _ (by rw [bangs_length, probe_length]; decide), hone]
  have hbad : decProcess strayServer.ihex.dec strayServer.spm (probe 0) =
      (-2, strayServer.ihex.dec.feed (probe 0), strayServer.spm) :=
    decProcess_bad strayServer.spm (by rw [hfeed]; exact nextLine_bang _)
  have hstray := respond_upload hrange probe_fits
  rw [hbad, writesSince_self] at hstray
  have hdec : begun.ihex.dec = Dec.init := rfl
  have hspm : begun.spm = erasedFlash := rfl
  have hfinal : dataResponse (decProcess Dec.init erasedFlash (probe 0)).1 (probe 0).length = .finalAck := by
    unfold dataResponse
    rw [if_neg hans, probe_length]
    rfl
  have hidle := respond_upload (s := begun) (inRange_init _) probe_fits
  rw [hdec, hspm, hfinal] at hidle
  have hresp : (respond serveStep strayServer upload).1.map Prod.fst = [some .ack, some .invalidImage] := by
    unfold upload
    rw [hstray]
    rfl
  have hresp' : (respond serveStep begun upload).1.map Prod.fst = [some .ack, some .finalAck] := by
    unfold upload
    rw [hidle]
    rfl
  refine ⟨hreach, fun hsame => ?_, hresp, ?_, hresp', ?_⟩
  · rw [upload, hsame request _ request_opcode, ← upload, hresp'] at hresp
    exact absurd hresp (by decide)
  · unfold upload
    rw [hstray]
  · have hfirst := congrArg (List.map Prod.fst) hwrites
    rw [List.map_map] at hfirst
    unfold upload
    rw [hidle]
    exact hfirst

end SmartHome.Bootloader
