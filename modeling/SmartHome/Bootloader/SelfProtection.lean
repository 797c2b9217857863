/-
  Subject:   WHEN THE BOOTLOADER STAYS OUT OF ITS OWN PAGES.

  The boot section begins at MAX_ADDR, 0x7000. Nothing compares `g_writeAddr` with it: the TFTP
  server has no check at all, the update from the external flash only counts packages. So it is the
  text that decides. A call has room if the pages that its text fills end at or below 0x7000.

  * `Room` -- the condition on a call, on the decoder's state before it and its package;
  * **`call_safe_iff`** -- a call touches only pages below 0x7000 exactly if it has room, from every
    state of the decoder;
  * `calls_safe_iff`, `calls_writeAddr` -- a series of calls;
  * `extFlashMain_calls` -- the calls of an update;
  * **`selfProtection`** -- both transports; `bigExt_overwrites` -- a good file of 32000 bytes, in the
    external flash, that goes into the boot section.
-/
import SmartHome.Bootloader.Complete
import SmartHome.Bootloader.ExtFlash
import SmartHome.Bootloader.Tftp

namespace SmartHome.Bootloader

open SmartHome.Lib

/-! ## 1. Room -/

/-- **Room for a call**: the pages its text fills end at or below 0x7000. -/
def Room (d : Dec) (package : Bytes) : Prop :=
  (d.scan package).pages = 0 ∨ d.writeAddr + 128 * (d.scan package).pages ≤ 0x7000

/-- The page operations between two states of the flash. -/
def newOps (f f' : Spm) : List SpmOp := f'.log.drop f.log.length

/-- All of them below the boot section. -/
def BelowBoot (ops : List SpmOp) : Prop := ∀ op ∈ ops, op.addr < 0x7000

/-- A decoder whose write address is a page. -/
structure PageAligned (s : Ihex) : Prop extends InRange s where
  aligned : s.writeAddr % 128 = 0
  word : s.writeAddr < 65536

theorem pageAligned_init (s : Ihex) : PageAligned (ihexInit s) :=
  ⟨inRange_init s, rfl, Nat.zero_lt_succ _⟩

theorem pageAligned_zero : PageAligned Ihex.zero := ⟨inRange_zero, rfl, Nat.zero_lt_succ _⟩

theorem addrAfter_eq : ∀ (m addr : Nat), addr < 65536 → addrAfter addr m = (addr + 128 * m) % 65536
  | 0, addr, h => (Nat.mod_eq_of_lt h).symm
  | m + 1, addr, h => by
    rw [addrAfter, addrAfter_eq m _ (Nat.mod_lt _ (by decide))]
    omega

/-- The addresses of `m` pages are all below 0x7000 exactly if the last page ends there. -/
theorem pageAddrs_below : ∀ (m addr : Nat), addr % 128 = 0 → addr < 65536 →
    ((∀ x ∈ pageAddrs addr m, x < 0x7000) ↔ m = 0 ∨ addr + 128 * m ≤ 0x7000)
  | 0, addr, _, _ => ⟨fun _ => Or.inl rfl, fun _ x hx => absurd hx List.not_mem_nil⟩
  | m + 1, addr, ha, hw => by
    have hmem : (∀ x ∈ pageAddrs addr (m + 1), x < 0x7000) ↔
        addr < 0x7000 ∧ ∀ x ∈ pageAddrs ((addr + 128) % 65536) m, x < 0x7000 := by
      simp [pageAddrs]
    rw [hmem, pageAddrs_below m _ (by omega) (Nat.mod_lt _ (by decide))]
    omega

/-! ## 2. One call -/

section Call

variable {s : Ihex} (h : PageAligned s) (f : Spm) (package : Bytes)

include h

/-- What a call does to the log and to the write address. -/
theorem call_pages : ∃ m, (newOps f (ihexPackageProcess s f package).2.2).map SpmOp.addr = pageAddrs s.writeAddr m ∧
    f.log <+: (ihexPackageProcess s f package).2.2.log ∧
    (∃ k, k ≤ m ∧ (ihexPackageProcess s f package).2.1.writeAddr = addrAfter s.writeAddr k) ∧
    (m = (s.dec.scan package).pages ∨ m < (s.dec.scan package).pages ∧ addrAfter s.writeAddr m = 0) := by
  have hcall := callIs h.toInRange f package
  have hf := hcall.flash
  have hw : (ihexPackageProcess s f package).2.1.writeAddr = (decProcess s.dec f package).2.1.writeAddr :=
    congrArg Dec.writeAddr hcall.dec
  obtain ⟨m, hlog, hk, hcase⟩ := decProcess_scan s.dec f package h.toInRange.fifo_lt
  rw [← hf] at hlog
  rw [← hw] at hk
  refine ⟨m, ?_, ?_, hk, ?_⟩
  · unfold newOps
    rw [List.map_drop, hlog]
    have hlen : f.log.length = (f.log.map SpmOp.addr).length := List.length_map .. |>.symm
    rw [hlen]
    exact List.drop_left
  · rw [hf]
    exact (decProcess_grows s.dec f package).2
  · rcases hcase with ⟨hm, _⟩ | ⟨hm, _, h0, _⟩
    · exact Or.inl hm
    · exact Or.inr ⟨hm, h0⟩

/-- **A call touches only pages below the boot section exactly if it has room.** A first page that is
    refused does not matter: there, all the pages of one call have room. -/
theorem call_safe_iff : BelowBoot (newOps f (ihexPackageProcess s f package).2.2) ↔ Room s.dec package := by
  obtain ⟨m, hlog, _, _, hm⟩ := call_pages h f package
  have hiff : BelowBoot (newOps f (ihexPackageProcess s f package).2.2) ↔
      ∀ x ∈ pageAddrs s.writeAddr m, x < 0x7000 := by
    rw [← hlog]
    simp [BelowBoot]
  have hpages := Dec.scan_pages_le s.dec package h.toInRange.unread_lt
  have haligned := h.aligned
  have hword := h.word
  have hdec : s.dec.writeAddr = s.writeAddr := rfl
  rw [hiff, pageAddrs_below m _ haligned hword]
  unfold Room
  rw [hdec]
  rcases hm with hm | ⟨hm, h0⟩
  · rw [hm]
  · rw [addrAfter_eq m _ hword] at h0
    omega

theorem call_pageAligned : PageAligned (ihexPackageProcess s f package).2.1 := by
  obtain ⟨m, _, _, ⟨k, _, hk⟩, _⟩ := call_pages h f package
  have haligned := h.aligned
  rw [addrAfter_eq k _ h.word] at hk
  refine ⟨(callIs h.toInRange f package).range, ?_, ?_⟩
  · omega
  · omega

/-- With room the write address stays below the boot section, and never comes round. -/
theorem call_writeAddr (hroom : Room s.dec package) (hle : s.writeAddr ≤ 0x7000) :
    (ihexPackageProcess s f package).2.1.writeAddr ≤ 0x7000 := by
  obtain ⟨m, _, _, ⟨k, hkm, hk⟩, hm⟩ := call_pages h f package
  have hdec : s.dec.writeAddr = s.writeAddr := rfl
  unfold Room at hroom
  rw [hdec] at hroom
  rw [addrAfter_eq k _ h.word] at hk
  rcases hm with hm | ⟨hm, _⟩ <;> omega

end Call

/-! ## 3. A series of calls -/

theorem newOps_append {a b c : Spm} (hab : a.log <+: b.log) (hbc : b.log <+: c.log) :
    newOps a c = newOps a b ++ newOps b c := by
  obtain ⟨x, hx⟩ := hab
  obtain ⟨y, hy⟩ := hbc
  unfold newOps
  rw [← hy, ← hx, List.append_assoc, List.drop_left, List.drop_left, ← List.append_assoc, List.drop_left]

section Series

variable (pk : Nat → Bytes) {s : Ihex} (h : PageAligned s) (f : Spm)

include h

theorem calls_pageAligned : ∀ j, PageAligned (ihexCalls pk s f j).2.1
  | 0 => h
  | j + 1 => call_pageAligned (calls_pageAligned j) _ (pk j)

theorem calls_log : ∀ j, f.log <+: (ihexCalls pk s f j).2.2.log
  | 0 => List.prefix_refl _
  | j + 1 => by
    obtain ⟨_, _, hlog, _⟩ := call_pages (calls_pageAligned pk h f j) (ihexCalls pk s f j).2.2 (pk j)
    exact (calls_log j).trans hlog

/-- **A series of calls stays below the boot section exactly if every call has room.** -/
theorem calls_safe_iff : ∀ n, BelowBoot (newOps f (ihexCalls pk s f n).2.2) ↔
    ∀ j, j < n → Room (ihexCalls pk s f j).2.1.dec (pk j)
  | 0 => by
    refine ⟨fun _ j hj => absurd hj (Nat.not_lt_zero j), fun _ op hop => ?_⟩
    have hnil : newOps f (ihexCalls pk s f 0).2.2 = [] := List.drop_length
    rw [hnil] at hop
    exact absurd hop List.not_mem_nil
  | n + 1 => by
    have hal := calls_pageAligned pk h f n
    obtain ⟨_, _, hlog, _⟩ := call_pages hal (ihexCalls pk s f n).2.2 (pk n)
    have hcall := call_safe_iff hal (ihexCalls pk s f n).2.2 (pk n)
    have happ : newOps f (ihexCalls pk s f (n + 1)).2.2 = newOps f (ihexCalls pk s f n).2.2 ++
        newOps (ihexCalls pk s f n).2.2
          (ihexPackageProcess (ihexCalls pk s f n).2.1 (ihexCalls pk s f n).2.2 (pk n)).2.2 :=
      newOps_append (calls_log pk h f n) hlog
    have hsplit : BelowBoot (newOps f (ihexCalls pk s f (n + 1)).2.2) ↔
        BelowBoot (newOps f (ihexCalls pk s f n).2.2) ∧ Room (ihexCalls pk s f n).2.1.dec (pk n) := by
      rw [happ, ← hcall]
      unfold BelowBoot
      exact List.forall_mem_append
    rw [hsplit, calls_safe_iff n]
    constructor
    · rintro ⟨hn, hlast⟩ j hj
      rcases Nat.lt_succ_iff_lt_or_eq.mp hj with hj | rfl
      · exact hn j hj
      · exact hlast
    · intro hall
      exact ⟨fun j hj => hall j (Nat.lt_succ_of_lt hj), hall n (Nat.lt_succ_self n)⟩

theorem calls_writeAddr (h0 : s.writeAddr ≤ 0x7000) : ∀ n,
    (∀ j, j < n → Room (ihexCalls pk s f j).2.1.dec (pk j)) → (ihexCalls pk s f n).2.1.writeAddr ≤ 0x7000
  | 0, _ => h0
  | n + 1, hroom =>
    call_writeAddr (calls_pageAligned pk h f n) _ (pk n) (hroom n (Nat.lt_succ_self n))
      (calls_writeAddr h0 n fun j hj => hroom j (Nat.lt_succ_of_lt hj))

end Series

/-! ## 4. The two transports -/

-- what a call does is looked up in its lemmas, never computed
attribute [local irreducible] ihexPackageProcess decProcess extFlashReadData

section Ext

variable (ext : Nat → UInt8) (startSection : UInt8) (f : Spm)

/-- Package `j` is handed to the decoder: it is not past the limit, and no package before it has
    ended the update. -/
def ExtCalled (j : Nat) : Prop :=
  j < 157 ∧ ∀ i, i < j → (ihexCalls (extPackage ext startSection) Ihex.zero f (i + 1)).1 = 0

/-- Every package handed to the decoder finds room. -/
def ExtRoom : Prop :=
  ∀ j, ExtCalled ext startSection f j → Room (extDec ext startSection f j) (extPackage ext startSection j)

/-- **The calls of an update**: a series of at most 157, whose flash is what the update leaves. -/
theorem extFlashMain_calls : ∃ n, n ≤ 157 ∧
    (extFlashMain ext startSection f).spm = (ihexCalls (extPackage ext startSection) Ihex.zero f n).2.2 ∧
    ∀ j, ExtCalled ext startSection f j ↔ j < n := by
  have hanswer : ∀ i, (ihexCalls (extPackage ext startSection) Ihex.zero f i).1 =
      (extCalls ext startSection f i).1 := fun i => congrArg Prod.fst (extCalls_eq i)
  have hflash : ∀ i, (ihexCalls (extPackage ext startSection) Ihex.zero f i).2.2 =
      (extCalls ext startSection f i).2.2 := fun i => congrArg (fun a => a.2.2) (extCalls_eq i)
  have hmain : (extFlashMain ext startSection f).spm =
      (extFlashLoop ext 157 (startSection.toNat * 4096) Ihex.zero f).2.2 := rfl
  unfold ExtCalled
  simp only [hanswer]
  rcases first_answer (fun i => (extCalls ext startSection f (i + 1)).1) 157 with h0 | ⟨j, hj, h0, hne⟩
  · refine ⟨157, Nat.le_refl 157, ?_, fun k => ⟨fun hk => hk.1, fun hk => ⟨hk, fun i hi => h0 i (by omega)⟩⟩⟩
    rw [hmain, hflash]
    exact (extLoop_limit h0).2
  · refine ⟨j + 1, hj, ?_, fun k => ⟨fun hk => ?_, fun hk => ⟨by omega, fun i hi => h0 i (by omega)⟩⟩⟩
    · rw [hmain, hflash]
      exact (extLoop_stop hj h0 hne).2
    · -- a package behind the one that ended the update is not handed over
      rcases Nat.lt_or_ge k (j + 1) with h | h
      · exact h
      · exact absurd (hk.2 j h) hne

/-- An update stays below the boot section exactly if every package finds room. -/
theorem extFlashMain_below_iff :
    BelowBoot (newOps f (extFlashMain ext startSection f).spm) ↔ ExtRoom ext startSection f := by
  obtain ⟨n, _, hspm, hcalled⟩ := extFlashMain_calls ext startSection f
  rw [hspm, calls_safe_iff _ pageAligned_zero f n]
  unfold ExtRoom
  simp only [hcalled]
  exact Iff.rfl

theorem extFlashMain_writeAddr (hroom : ExtRoom ext startSection f) {j : Nat} (hj : ExtCalled ext startSection f j) :
    (ihexCalls (extPackage ext startSection) Ihex.zero f (j + 1)).2.1.writeAddr ≤ 0x7000 := by
  obtain ⟨n, _, _, hcalled⟩ := extFlashMain_calls ext startSection f
  refine calls_writeAddr _ pageAligned_zero f (Nat.zero_le _) (j + 1) fun i hi => ?_
  have hin : i < n := Nat.lt_of_lt_of_le hi ((hcalled j).mp hj)
  exact hroom i ((hcalled i).mpr hin)

end Ext

/-- Every DATA datagram finds room. -/
def RoomStep (t : Tftp) (e : Event) : Prop :=
  ∀ dg, e.packet = some dg → dg.opcode = .data → Room t.ihex.dec dg.package

/-- In every run the decoder's write address is a page. -/
theorem tftp_pageAligned {ok : Tftp → Event → Prop} {s t : Tftp} (h : Reaches tftpNext ok (tftpStart s) t) :
    PageAligned t.ihex := by
  refine Reaches.invariant (fun t => PageAligned t.ihex) (pageAligned_init s.ihex) ?_ h
  intro t e t' hI _ hs
  rcases tftpNext_cases hs with ⟨dg, _, _, hsame, _⟩ | ⟨hsame, _⟩ | ⟨_, _, _, hsame, _⟩
  · rw [hsame.ihex, handOver_ihex]
    exact call_pageAligned hI t.spm dg.package
  · rw [hsame.ihex]
    exact hI
  · rw [hsame.ihex]
    exact pageAligned_init t.ihex

/-- A run in which every DATA datagram finds room stays below the boot section. -/
theorem tftp_below {s t : Tftp} (hlog : s.spm.log = []) (h : Reaches tftpNext RoomStep (tftpStart s) t) :
    BelowBoot t.spm.log ∧ t.ihex.writeAddr ≤ 0x7000 := by
  have hinv : PageAligned t.ihex ∧ BelowBoot t.spm.log ∧ t.ihex.writeAddr ≤ 0x7000 := by
    refine Reaches.invariant
      (fun t => PageAligned t.ihex ∧ BelowBoot t.spm.log ∧ t.ihex.writeAddr ≤ 0x7000) ?_ ?_ h
    · refine ⟨pageAligned_init s.ihex, ?_, Nat.zero_le _⟩
      intro op hop
      have hop' : op ∈ s.spm.log := hop
      rw [hlog] at hop'
      exact absurd hop' List.not_mem_nil
    · rintro t e t' ⟨hal, hbelow, hw⟩ hroom hs
      rcases tftpNext_cases hs with ⟨dg, hp, hop, hsame, _⟩ | ⟨hsame, _⟩ | ⟨_, _, _, hsame, _⟩
      · have hr := hroom dg hp hop
        obtain ⟨_, _, ⟨new, hnew⟩, _⟩ := call_pages hal t.spm dg.package
        have hsafe := (call_safe_iff hal t.spm dg.package).mpr hr
        rw [hsame.ihex, hsame.spm, handOver_ihex, handOver_spm]
        refine ⟨call_pageAligned hal t.spm dg.package, ?_, call_writeAddr hal t.spm dg.package hr hw⟩
        unfold newOps at hsafe
        rw [← hnew, List.drop_left] at hsafe
        rw [← hnew]
        exact List.forall_mem_append.mpr ⟨hbelow, hsafe⟩
      · rw [hsame.ihex, hsame.spm]
        exact ⟨hal, hbelow, hw⟩
      · rw [hsame.ihex, hsame.spm]
        refine ⟨pageAligned_init t.ihex, ?_, Nat.zero_le _⟩
        refine List.forall_mem_append.mpr ⟨hbelow, fun op hop => ?_⟩
        rw [List.mem_singleton.mp hop]
        exact Nat.zero_lt_succ _
  exact hinv.2

/-- **When the bootloader stays out of its own pages.** An update from the external flash does
    exactly if every package it hands to the decoder finds room, and then `g_writeAddr` never comes
    round. In every run of the TFTP server a DATA datagram keeps the decoder below the boot section
    exactly if it finds room, and in a run in which all do, no page operation is at 0x7000 or above. -/
theorem selfProtection (ext : Nat → UInt8) (startSection : UInt8) (f : Spm) (s : Tftp) :
    ((BelowBoot (newOps f (extFlashMain ext startSection f).spm) ↔ ExtRoom ext startSection f) ∧
      (ExtRoom ext startSection f → ∀ j, ExtCalled ext startSection f j →
        (ihexCalls (extPackage ext startSection) Ihex.zero f (j + 1)).2.1.writeAddr ≤ 0x7000)) ∧
    (∀ t, Reaches tftpNext (fun _ _ => True) (tftpStart s) t → ∀ dg, dg.opcode = .data →
      (BelowBoot (newOps t.spm (tftpPoll (some dg) t).s.spm) ↔ Room t.ihex.dec dg.package)) ∧
    (∀ t, s.spm.log = [] → Reaches tftpNext RoomStep (tftpStart s) t →
      BelowBoot t.spm.log ∧ t.ihex.writeAddr ≤ 0x7000) := by
  refine ⟨⟨extFlashMain_below_iff ext startSection f, fun hroom j hj =>
    extFlashMain_writeAddr ext startSection f hroom hj⟩, fun t ht dg hop => ?_, fun t hlog ht =>
    tftp_below hlog ht⟩
  rw [tftpPoll_data hop, touched_spm, handOver_spm]
  exact call_safe_iff (tftp_pageAligned ht) t.spm dg.package

/-! ## 5. A file that does not fit -/

theorem hexLines_text_length : ∀ (ds : List Bytes) (addr : Nat), (∀ d ∈ ds, d.length = 32) →
    ∀ l ∈ hexLines [0x0A] addr ds, l.data.length = 32 ∧ (l.text ++ l.eol).length = 76
  | [], _, _, l, hl => absurd hl List.not_mem_nil
  | d :: ds, addr, h, l, hl => by
    rcases List.mem_cons.mp hl with rfl | hl
    · have hd : d.length = 32 := h d List.mem_cons_self
      refine ⟨hd, ?_⟩
      rw [List.length_append, hexText_length (hexLine_isDataText addr d [0x0A]).hexText, hd]
      rfl
    · exact hexLines_text_length ds _ (fun x hx => h x (List.mem_cons_of_mem _ hx)) l hl

theorem hexLines_data (eol : Bytes) : ∀ (ds : List Bytes) (addr : Nat),
    linesData (hexLines eol addr ds) = ds.flatten
  | [], _ => rfl
  | d :: ds, addr => by
    show d ++ linesData (hexLines eol (addr + d.length) ds) = d ++ ds.flatten
    rw [hexLines_data eol ds]

theorem hexLines_length (eol : Bytes) : ∀ (ds : List Bytes) (addr : Nat),
    (hexLines eol addr ds).length = ds.length
  | [], _ => rfl
  | d :: ds, addr => by
    show (hexLines eol (addr + d.length) ds).length + 1 = ds.length + 1
    rw [hexLines_length eol ds]

/-- Lines of 32 bytes. -/
theorem lines_32 : ∀ {ls : List HexLine}, (∀ l ∈ ls, l.data.length = 32 ∧ (l.text ++ l.eol).length = 76) →
    (linesText ls).length = 76 * ls.length ∧ (linesData ls).length = 32 * ls.length
  | [], _ => ⟨rfl, rfl⟩
  | l :: ls, h => by
    obtain ⟨hd, ht⟩ := h l List.mem_cons_self
    obtain ⟨iht, ihd⟩ := lines_32 fun m hm => h m (List.mem_cons_of_mem _ hm)
    rw [List.length_append] at ht
    rw [linesText_cons, linesData_cons, List.length_append, List.length_append, List.length_append, iht, ihd,
      List.length_cons]
    omega

/-- A series depends on its packages only. -/
theorem decCalls_congr {pk pk' : Nat → Bytes} (d : Dec) (f : Spm) : ∀ n, (∀ j, j < n → pk j = pk' j) →
    decCalls pk d f n = decCalls pk' d f n
  | 0, _ => rfl
  | n + 1, h => by
    have ih := decCalls_congr d f n fun j hj => h j (Nat.lt_succ_of_lt hj)
    simp only [decCalls]
    rw [ih, h n (Nat.lt_succ_self n)]

/-- A full package of a text, read back from an external flash that holds it. -/
theorem extPackage_full (text : Bytes) {j : Nat} (hj : 512 * (j + 1) ≤ text.length)
    (hlen : text.length ≤ 16777216) : extPackage (fun i => text.getD i 0xFF) 0 j = package text j := by
  unfold extPackage extFlashReadData package
  refine List.ext_getElem (by simp; omega) fun i hi hi' => ?_
  rw [List.length_map, List.length_range] at hi
  have hmod : ((0 : UInt8).toNat * 4096 + 512 * j + i) % 16777216 = 512 * j + i := by
    have h0 : (0 : UInt8).toNat = 0 := rfl
    omega
  simp only [List.getElem_map, List.getElem_range, List.getElem_take, List.getElem_drop]
  rw [hmod, List.getD_eq_getElem _ _ (by omega)]

/-- An update whose packages up to `n` are those of a text that fills page 224. -/
theorem update_overwrites {ext : Nat → UInt8} {f : Spm} {pk : Nat → Bytes} {n p : Nat} {data : Bytes}
    (hn : 0 < n ∧ n < 157) (hpk : ∀ j, j < n → extPackage ext 0 j = pk j)
    (h0 : ∀ i, i < n → (decCalls pk Ihex.zero.dec f (i + 1)).1 = 0) (hp : 225 ≤ p)
    (hflash : (decCalls pk Ihex.zero.dec f n).2.2 = program data p f) :
    ¬ BelowBoot (newOps f (extFlashMain ext 0 f).spm) := by
  obtain ⟨m, _, hspm, hcalled⟩ := extFlashMain_calls ext 0 f
  have hcalls : ∀ i, i ≤ n → extCalls ext 0 f i = decCalls pk Ihex.zero.dec f i := fun i hi =>
    decCalls_congr _ _ i fun j hj => hpk j (Nat.lt_of_lt_of_le hj hi)
  have hnm : n ≤ m := by
    have := (hcalled (n - 1)).mp ⟨by omega, fun i hi => by
      rw [extCalls_eq, hcalls (i + 1) (by omega)]
      exact h0 i (by omega)⟩
    omega
  intro hbelow
  rw [hspm, calls_safe_iff _ pageAligned_zero] at hbelow
  have hfirst := (calls_safe_iff (extPackage ext 0) pageAligned_zero f n).mpr fun j hj =>
    hbelow j (Nat.lt_of_lt_of_le hj hnm)
  rw [extCalls_eq, hcalls n (Nat.le_refl n)] at hfirst
  simp only [hflash] at hfirst
  unfold newOps at hfirst
  rw [program_log, List.drop_left] at hfirst
  have hop : SpmOp.erase (128 * 224 % 65536) ∈ (List.range p).flatMap fun k =>
      [SpmOp.erase (128 * k % 65536), .write (128 * k % 65536) ((List.range 128).map (pageOf data k))] :=
    List.mem_flatMap.mpr ⟨224, List.mem_range.mpr (by omega), List.mem_cons_self⟩
  exact absurd (hfirst _ hop) (by decide)

/-- A file of 1000 lines of 32 bytes: 76013 characters at most, 149 packages. -/
structure IsBig (h : HexFile) : Prop where
  count : h.lines.length = 1000
  lines : ∀ l ∈ h.lines, l.data.length = 32 ∧ (l.text ++ l.eol).length = 76
  valid : validImage (padded h.image) = true

/-- After 148 packages of it all but its last lines are in the flash, 225 pages or more. -/
theorem IsBig.calls {h : HexFile} (hb : IsBig h) (f : Spm) :
    (∀ i, i < h.endCall → (decCalls (package h.text) Ihex.zero.dec f (i + 1)).1 = 0) ∧
    ∃ data p, 225 ≤ p ∧ (decCalls (package h.text) Ihex.zero.dec f h.endCall).2.2 = program data p f := by
  obtain ⟨htext, himg⟩ := lines_32 hb.lines
  rw [hb.count] at htext himg
  have hends : endText.length = 11 := rfl
  have hle : h.image.length ≤ 65536 := by
    rw [HexFile.image, himg]
    decide
  obtain ⟨h0, k, ls, ms, z, hat, _, _, hpart⟩ :=
    waiting_calls hb.valid hle Ihex.zero f h.endCall (Nat.le_refl _)
  have hc := decCalls_clean (package h.text) (clean_init Ihex.zero f) h.endCall h0
  refine ⟨h0, _, _, ?_, hc.flash⟩
  -- what has come in are the lines taken and less than one line more
  have hls := lines_32 fun l hl => hb.lines l (by rw [hat.lines]; exact List.mem_append_left _ hl)
  have hall := congrArg (fun ls => (linesText ls).length) hat.lines
  simp only [linesText_append, List.length_append] at hall
  have hlong := (headText_isRecord fun l hl => hat.ok l (List.mem_append_right _ hl)).lt
  have hlen := hat.length
  have hfile := h.text_length
  have hcall : h.endCall = (h.fileEnd - 1) / 512 := rfl
  have hfend : h.fileEnd = (linesText h.lines).length + endText.length := rfl
  rw [List.length_drop] at hlen
  rw [hat.data, hls.2]
  have hnum := hls.1
  omega

/-- Such a file, in an external flash, overwrites the bootloader. -/
theorem IsBig.overwrites {h : HexFile} (hb : IsBig h) (f : Spm) :
    ¬ BelowBoot (newOps f (extFlashMain (fun i => h.text.getD i 0xFF) 0 f).spm) := by
  obtain ⟨h0, data, p, hp, hflash⟩ := hb.calls f
  obtain ⟨htext, _⟩ := lines_32 hb.lines
  rw [hb.count] at htext
  have hends : endText.length = 11 := rfl
  have htail : h.tail.length ≤ 2 := by
    rcases h.tailEol with ht | ht | ht
    · rw [ht]
      exact Nat.zero_le 2
    · rw [ht]
      exact Nat.le_succ 1
    · rw [ht]
      exact Nat.le_refl 2
  have hfile := h.text_length
  have hcall : h.endCall = (h.fileEnd - 1) / 512 := rfl
  have hfend : h.fileEnd = (linesText h.lines).length + endText.length := rfl
  exact update_overwrites (by omega) (fun j hj => extPackage_full h.text (by omega) (by omega)) h0 hp hflash

/-- Jump vectors are an image. -/
theorem vectors_valid (n : Nat) : validImage (padded (List.replicate (n + 2) (vectors 8)).flatten) = true := by
  have hv : validImage (padded (vectors 8 ++ vectors 8)) = true := by decide +kernel
  have hflat : (List.replicate (n + 2) (vectors 8)).flatten =
      (vectors 8 ++ vectors 8) ++ (List.replicate n (vectors 8)).flatten := by
    simp [List.replicate_succ]
  rw [hflat, ← hv]
  refine validImage_congr fun i hi => ?_
  unfold padded
  exact List.getD_append _ _ _ _ (Nat.lt_of_lt_of_le hi (by decide))

/-- 32000 bytes of jump vectors, in records of 32. -/
def bigFile : HexFile := HexFile.ofRecords (List.replicate 1000 (vectors 8)) fun d hd => by
  rw [List.eq_of_mem_replicate hd]
  decide

theorem bigFile_isBig : IsBig bigFile where
  count := (hexLines_length [0x0A] (List.replicate 1000 (vectors 8)) 0).trans List.length_replicate
  lines := hexLines_text_length _ 0 fun d hd => by
    rw [List.eq_of_mem_replicate hd]
    decide
  valid := by
    have himg : bigFile.image = (List.replicate (998 + 2) (vectors 8)).flatten := hexLines_data _ _ _
    rw [himg]
    exact vectors_valid 998

/-- An external flash with that file. -/
def bigExt (i : Nat) : UInt8 := bigFile.text.getD i 0xFF

/-- **A good file overwrites the bootloader**: 32000 bytes in records of 32 fit into 149 packages, and
    their page 224 goes to address 0x7000. -/
theorem bigExt_overwrites : ¬ BelowBoot (newOps erasedFlash (extFlashMain bigExt 0 erasedFlash).spm) :=
  bigFile_isBig.overwrites erasedFlash

end SmartHome.Bootloader
