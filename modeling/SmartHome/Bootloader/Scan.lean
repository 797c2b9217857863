/-
  Subject:   WHAT THE TEXT OF A CALL SAYS, before a page is assembled.

  The records that stand in the ring when a package has come in tell what the call will do: whether
  it reads on, meets the end of the file or fails, how many pages the records fill behind the bytes
  that wait in the FIFO, and which data they carry. Only one thing is not in the text alone: a first
  page that is no image is refused.

  * `scan`, `Dec.scan` -- that reading, on the text and the number of waiting bytes;
  * `pageAddrs` -- the addresses of the pages a call writes, from `g_writeAddr` on;
  * **`decProcess_scan`** -- a call writes the pages its text fills and answers as its text says,
    from every state of the decoder, unless it refuses a first page;
  * `Dec.scan_pages_le`, `decProcess_dataOf_le` -- how much a text can fill.
-/
import SmartHome.Bootloader.Decoded

namespace SmartHome.Bootloader

open SmartHome.Lib

/-! ## 1. Reading a text -/

/-- How the reading of a text ends: all of it read, at the end of the file, at a defect. -/
inductive Verdict where
  | more
  | ended
  | failed
  deriving DecidableEq

/-- What the decoder answers. -/
def Verdict.answer : Verdict → Int
  | .more => 0
  | .ended => 1
  | .failed => -2

/-- What a text says: its verdict, the pages it fills, the data of its good records. -/
structure Scan where
  verdict : Verdict
  pages : Nat
  data : Bytes

/-- A reading with `pages` pages and `data` before it. -/
def Scan.after (sc : Scan) (pages : Nat) (data : Bytes) : Scan :=
  ⟨sc.verdict, pages + sc.pages, data ++ sc.data⟩

/-- The records of a text, read with `len` bytes waiting. `opened`: a data record of this text has
    left its page open. `idle`: nothing was read since the text began or a page was filled. -/
def scan : Nat → Nat → Bool → Bool → Bytes → Scan
  | 0, _, _, _, _ => ⟨.more, 0, []⟩
  | n + 1, len, opened, idle, u =>
    match nextLine u with
    | .blank => ⟨if opened || idle then .more else .failed, 0, []⟩
    | .bad => ⟨.failed, 0, []⟩
    | .incomplete => ⟨.more, 0, []⟩
    | .record line rest =>
      if recType line = 0x00 then
        if recSum line ≠ 0 then ⟨.failed, 0, []⟩
        else
          let len := (len + (recData line).length) % 256
          if len < 128 then (scan n len (decide (0 < len)) false rest).after 0 (recData line)
          else (scan n (len - 128) false true rest).after 1 (recData line)
      else if recType line = 0x01 then if opened then ⟨.ended, 1, []⟩ else ⟨.failed, 0, []⟩
      else scan n len opened false rest

/-- What the ring says once `package` has come in. -/
def Dec.scan (d : Dec) (package : Bytes) : Scan :=
  Bootloader.scan ((d.feed package).unread.length + 1) d.fifo.length false true (d.feed package).unread

/-! ## 2. The pages a call writes -/

/-- The addresses of the operations on `m` pages from `addr` on: each is erased and written. -/
def pageAddrs (addr : Nat) : Nat → List Nat
  | 0 => []
  | m + 1 => addr :: addr :: pageAddrs ((addr + 128) % 65536) m

/-- `g_writeAddr` after `m` pages. -/
def addrAfter (addr : Nat) : Nat → Nat
  | 0 => addr
  | m + 1 => addrAfter ((addr + 128) % 65536) m

/-- **The call `a` does what the reading `sc` says**: all its pages, its verdict, its data; or a page
    at address 0 was refused, after as many pages as came before it. `g_writeAddr` moves on by no
    more than the pages written. -/
def Follows (p : Pending) (sc : Scan) (a : Answer) : Prop :=
  ∃ m, a.2.2.log.map SpmOp.addr = p.f.log.map SpmOp.addr ++ pageAddrs p.d.writeAddr m ∧
    (∃ k, k ≤ m ∧ a.2.1.writeAddr = addrAfter p.d.writeAddr k) ∧
    ((m = sc.pages ∧ a.1 = sc.verdict.answer ∧ goodData a.2.1.lines = goodData p.d.lines ++ sc.data) ∨
      (m < sc.pages ∧ a.1 = -1 ∧ addrAfter p.d.writeAddr m = 0 ∧
        (EndsFile a.2.1.lines → sc.verdict = .ended) ∧
        goodData a.2.1.lines <+: goodData p.d.lines ++ sc.data))

theorem flashPage_addrs (addr : Nat) (page : Nat → UInt8) (f : Spm) :
    (flashPage addr page f).log.map SpmOp.addr = f.log.map SpmOp.addr ++ [addr, addr] := by
  obtain ⟨p, hp⟩ := flashPage_log_addr addr page f
  rw [hp, List.map_append]
  rfl

/-- A call that writes nothing. -/
theorem follows_stop {p : Pending} {a : Answer} {v : Verdict} (hf : a.2.2 = p.f) (ha : a.1 = v.answer)
    (hw : a.2.1.writeAddr = p.d.writeAddr) (hg : goodData a.2.1.lines = goodData p.d.lines) :
    Follows p ⟨v, 0, []⟩ a := by
  refine ⟨0, ?_, ⟨0, Nat.le_refl 0, hw⟩, Or.inl ⟨rfl, ha, ?_⟩⟩
  · rw [hf]
    exact (List.append_nil _).symm
  · rw [hg]
    exact (List.append_nil _).symm

/-- A line that goes on: `k` pages and `x` in front of what follows. -/
theorem follows_more {p : Pending} (p' : Pending) {sc : Scan} {a : Answer} {k : Nat} {x : Bytes}
    (hlog : p'.f.log.map SpmOp.addr = p.f.log.map SpmOp.addr ++ pageAddrs p.d.writeAddr k)
    (haddr : p'.d.writeAddr = addrAfter p.d.writeAddr k) (hk : k ≤ 1)
    (hg : goodData p'.d.lines = goodData p.d.lines ++ x) (h : Follows p' sc a) :
    Follows p (sc.after k x) a := by
  obtain ⟨m, hm, ⟨i, him, hi⟩, hcase⟩ := h
  have hpages : pageAddrs p.d.writeAddr (k + m) = pageAddrs p.d.writeAddr k ++ pageAddrs p'.d.writeAddr m := by
    rw [haddr]
    rcases Nat.le_one_iff_eq_zero_or_eq_one.mp hk with rfl | rfl
    · rw [Nat.zero_add]
      rfl
    · rw [Nat.add_comm]
      rfl
  have hafter : ∀ j, addrAfter p.d.writeAddr (k + j) = addrAfter p'.d.writeAddr j := by
    intro j
    rw [haddr]
    rcases Nat.le_one_iff_eq_zero_or_eq_one.mp hk with rfl | rfl
    · rw [Nat.zero_add]
      rfl
    · rw [Nat.add_comm]
      rfl
  refine ⟨k + m, ?_, ⟨k + i, Nat.add_le_add_left him k, ?_⟩, ?_⟩
  · rw [hm, hlog, hpages, List.append_assoc]
  · rw [hafter, hi]
  · rcases hcase with ⟨hm', ha, hd⟩ | ⟨hm', ha, h0, hend, hd⟩
    · refine Or.inl ⟨?_, ha, ?_⟩
      · rw [hm']
        rfl
      · rw [hd, hg, List.append_assoc]
        rfl
    · refine Or.inr ⟨Nat.add_lt_add_left hm' k, ha, ?_, hend, ?_⟩
      · rw [hafter]
        exact h0
      · rw [hg, List.append_assoc] at hd
        exact hd

/-- A data record with the right checksum, and what follows it. -/
theorem follows_data {p : Pending} {line rest : Bytes} {n len : Nat}
    (hl : nextLine p.d.unread = .record line rest) (h0 : recType line = 0) (hsum : recSum line = 0)
    (hlen : ((p.d.take line rest).push (recData line)).fifo.length = len) (hlt : len < 256)
    (ih : ∀ (p' : Pending) (opened idle : Bool), p'.d.unread = rest → p'.d.fifo.length < 256 →
      (opened = true ↔ 0 < p'.pageLen) → (idle = true ↔ p'.err = .empty) →
      Follows p' (scan n p'.d.fifo.length opened idle rest) (lineLoop n p')) :
    Follows p (if len < 128 then (scan n len (decide (0 < len)) false rest).after 0 (recData line)
      else (scan n (len - 128) false true rest).after 1 (recData line)) (lineLoop (n + 1) p) := by
  have hgood : goodData (p.d.lines ++ [line]) = goodData p.d.lines ++ recData line := by
    rw [goodData_snoc _ (fun _ => hsum), lineData, if_pos h0]
  have hs := lineStep_data hl h0
  unfold dataStep at hs
  simp only [hsum, ne_eq, not_true_eq_false, if_false, hlen] at hs
  by_cases hopn : len < 128
  · -- the page stays open
    rw [if_pos hopn] at hs ⊢
    have hr : lineLoop (n + 1) p = _ := loop_more n hs
    rw [hr]
    refine follows_more (k := 0) ⟨(p.d.take line rest).push (recData line), p.f, len, .none⟩ (by simp [pageAddrs])
      rfl (Nat.zero_le 1) hgood ?_
    have h := ih ⟨(p.d.take line rest).push (recData line), p.f, len, .none⟩ (decide (0 < len)) false rfl
      (by rw [hlen]; exact hlt) decide_eq_true_iff
      ⟨fun h => Bool.noConfusion h, fun h => HexErr.noConfusion h⟩
    rw [hlen] at h
    exact h
  rw [if_neg hopn] at hs ⊢
  by_cases hv : ((p.d.take line rest).push (recData line)).refused 128
  · -- refused, and the line is no end record
    rw [if_pos hv] at hs
    have hr : lineLoop (n + 1) p = _ := loop_stop n hs
    rw [hr]
    refine ⟨0, (List.append_nil _).symm, ⟨0, Nat.le_refl 0, rfl⟩,
      Or.inr ⟨Nat.lt_add_right _ Nat.one_pos, rfl, hv.1, ?_, ?_⟩⟩
    · rintro ⟨before, line', he, h1⟩
      have he' : p.d.lines ++ [line] = before ++ [line'] := he
      obtain ⟨_, hx⟩ := List.append_inj' he' rfl
      rw [← List.singleton_inj.mp hx, h0] at h1
      exact absurd h1 (by decide)
    · show goodData (p.d.lines ++ [line]) <+: _
      rw [hgood]
      exact ⟨_, List.append_assoc _ _ _⟩
  · -- the page is full
    rw [if_neg hv] at hs
    have hr : lineLoop (n + 1) p = _ := loop_more n hs
    rw [hr]
    refine follows_more (k := 1) ⟨{ ((p.d.take line rest).push (recData line)).drop 128 with
        writeAddr := (p.d.writeAddr + 128) % 65536 },
      ((p.d.take line rest).push (recData line)).flash 128 p.f, 0, .empty⟩ (flashPage_addrs _ _ _) rfl
      (Nat.le_refl 1) hgood ?_
    have hdrop : (((p.d.take line rest).push (recData line)).fifo.drop 128).length = len - 128 := by
      rw [List.length_drop, hlen]
    rw [← hdrop]
    refine ih _ false true rfl ?_ ?_ ⟨fun _ => rfl, fun _ => rfl⟩
    · show (((p.d.take line rest).push (recData line)).fifo.drop 128).length < 256
      omega
    · exact ⟨fun h => Bool.noConfusion h, fun h => absurd h (Nat.lt_irrefl 0)⟩

/-- The end record. -/
theorem follows_end {p : Pending} {line rest : Bytes} (n : Nat) {opened : Bool}
    (hl : nextLine p.d.unread = .record line rest) (h1 : recType line = 1) (hopen : opened = true ↔ 0 < p.pageLen) :
    Follows p (if opened then ⟨.ended, 1, []⟩ else ⟨.failed, 0, []⟩) (lineLoop (n + 1) p) := by
  have h0 : recType line ≠ 0 := by
    rw [h1]
    decide
  have hgood : goodData (p.d.lines ++ [line]) = goodData p.d.lines := by
    rw [goodData_snoc _ (fun h => absurd h h0), lineData, if_neg h0, List.append_nil]
  have hr : lineLoop (n + 1) p = _ := loop_stop n (lineStep_end hl h1)
  rw [hr]
  unfold endStep
  by_cases hz : p.pageLen = 0
  · have hno : ¬ opened = true := by
      rw [hopen, hz]
      exact Nat.lt_irrefl 0
    rw [if_pos hz, if_neg hno]
    exact follows_stop rfl rfl rfl hgood
  rw [if_neg hz, if_pos (hopen.mpr (Nat.pos_of_ne_zero hz))]
  by_cases hv : (p.d.take line rest).refused p.pageLen
  · rw [if_pos hv]
    refine ⟨0, (List.append_nil _).symm, ⟨0, Nat.le_refl 0, rfl⟩, Or.inr ⟨Nat.one_pos, rfl, hv.1, fun _ => rfl, ?_⟩⟩
    show goodData (p.d.lines ++ [line]) <+: _
    rw [hgood]
    exact ⟨_, rfl⟩
  · rw [if_neg hv]
    refine ⟨1, flashPage_addrs _ _ _, ⟨0, Nat.zero_le 1, rfl⟩, Or.inl ⟨rfl, rfl, ?_⟩⟩
    show goodData (p.d.lines ++ [line]) = _
    rw [hgood, List.append_nil]

@[simp] theorem Scan.after_nil (sc : Scan) : sc.after 0 [] = sc := by
  unfold Scan.after
  rw [Nat.zero_add]
  rfl

/-- **The lines of a call follow the text.** The induction is on the bound, which loop and reading
    share; `opened` and `idle` stand for the locals `page_len` and `err_code`. -/
theorem lineLoop_scan : ∀ (n : Nat) (p : Pending) (opened idle : Bool),
    p.d.unread.length < n → p.d.fifo.length < 256 → (opened = true ↔ 0 < p.pageLen) →
    (idle = true ↔ p.err = .empty) →
    Follows p (scan n p.d.fifo.length opened idle p.d.unread) (lineLoop n p)
  | 0, _, _, _, h, _, _, _ => absurd h (Nat.not_lt_zero _)
  | n + 1, p, opened, idle, hn, hlt, hopen, hidle => by
    unfold scan
    cases hl : nextLine p.d.unread with
    | blank =>
      have hr : lineLoop (n + 1) p = _ := loop_stop n (lineStep_blank hl)
      rw [hr]
      refine follows_stop rfl ?_ rfl rfl
      have hiff : (opened || idle) = true ↔ p.pageLen > 0 ∨ p.err = .empty := by
        rw [Bool.or_eq_true, hopen, hidle]
      by_cases hc : p.pageLen > 0 ∨ p.err = .empty
      · rw [if_pos hc, if_pos (hiff.mpr hc)]
        rfl
      · rw [if_neg hc, if_neg (fun h => hc (hiff.mp h))]
        rfl
    | bad =>
      have hr : lineLoop (n + 1) p = _ := loop_stop n (lineStep_bad hl)
      rw [hr]
      exact follows_stop rfl rfl rfl rfl
    | incomplete =>
      have hr : lineLoop (n + 1) p = _ := loop_stop n (lineStep_incomplete hl)
      rw [hr]
      exact follows_stop rfl rfl rfl rfl
    | record line rest =>
      have hrest : rest.length < n := Nat.lt_of_lt_of_le (nextLine_rest_lt hl) (Nat.le_of_lt_succ hn)
      dsimp only
      by_cases h0 : recType line = 0
      · rw [if_pos h0]
        by_cases hsum : recSum line = 0
        · rw [if_neg (not_not_intro hsum)]
          have hpl : ((p.d.take line rest).push (recData line)).fifo.length =
              (p.d.fifo.length + (recData line).length) % 256 := by
            rw [dec_push_fifo, dec_take_fifo, pushList_length _ _ hlt]
          refine follows_data hl h0 hsum hpl (Nat.mod_lt _ (by decide)) ?_
          intro p' opened idle hu hf ho hi
          have h := lineLoop_scan n p' opened idle (by rw [hu]; exact hrest) hf ho hi
          rw [hu] at h
          exact h
        · -- the data is in the FIFO when the checksum turns out wrong
          rw [if_pos hsum]
          have hs := lineStep_data hl h0
          unfold dataStep at hs
          rw [if_pos hsum] at hs
          have hr : lineLoop (n + 1) p = _ := loop_stop n hs
          rw [hr]
          exact follows_stop rfl rfl rfl (goodData_snoc_bad _ h0 hsum)
      · rw [if_neg h0]
        by_cases h1 : recType line = 1
        · rw [if_pos h1]
          exact follows_end n hl h1 hopen
        · rw [if_neg h1]
          have hgood : goodData (p.d.lines ++ [line]) = goodData p.d.lines ++ [] := by
            rw [goodData_snoc _ (fun h => absurd h h0), lineData, if_neg h0]
          have hr : lineLoop (n + 1) p = _ := loop_more n (lineStep_pass hl h0 h1)
          rw [hr]
          have h := lineLoop_scan n ⟨p.d.take line rest, p.f, p.pageLen, .none⟩ opened false hrest hlt
            hopen ⟨fun h => Bool.noConfusion h, fun h => HexErr.noConfusion h⟩
          have h' := follows_more (p := p) (k := 0) ⟨p.d.take line rest, p.f, p.pageLen, .none⟩
            (by simp [pageAddrs]) rfl (Nat.zero_le 1) hgood h
          rw [Scan.after_nil] at h'
          exact h'

/-- **One call follows its text**, from every state of the decoder. -/
theorem decProcess_scan (d : Dec) (f : Spm) (package : Bytes) (h : d.fifo.length < 256) :
    Follows ⟨d.feed package, f, 0, .empty⟩ (d.scan package) (decProcess d f package) :=
  lineLoop_scan _ ⟨d.feed package, f, 0, .empty⟩ _ _ (Nat.lt_succ_self _) h
    ⟨fun h => Bool.noConfusion h, fun h => absurd h (Nat.lt_irrefl 0)⟩ ⟨fun _ => rfl, fun _ => rfl⟩

/-- **A call only adds**: lines to those taken, operations to those logged. -/
theorem decProcess_grows (d : Dec) (f : Spm) (package : Bytes) :
    d.lines <+: (decProcess d f package).2.1.lines ∧ f.log <+: (decProcess d f package).2.2.log := by
  refine decProcess_keeps (L := fun lines => d.lines <+: lines) (K := fun g => f.log <+: g.log) ?_ ?_ package
    (List.prefix_refl _) (List.prefix_refl _)
  · intro lines line h
    exact h.trans (List.prefix_append _ _)
  · intro addr page g h
    obtain ⟨p, hp⟩ := flashPage_log_addr addr page g
    rw [hp]
    exact h.trans (List.prefix_append _ _)

/-! ## 3. How much a text can hold -/

/-- A record takes its characters off the text. -/
theorem nextLine_rest_le {u line rest : Bytes} (h : nextLine u = .record line rest) :
    line.length + rest.length ≤ u.length := by
  obtain ⟨hr, _⟩ := nextLine_record h
  have := readLine_length u []
  rw [hr] at this
  simpa using this

/-- Every page takes a record of at least eleven characters. -/
theorem scan_pages_le : ∀ (n len : Nat) (opened idle : Bool) (u : Bytes),
    11 * (scan n len opened idle u).pages ≤ u.length
  | 0, _, _, _, _ => Nat.zero_le _
  | n + 1, len, opened, idle, u => by
    unfold scan
    cases hl : nextLine u with
    | blank | bad | incomplete => exact Nat.zero_le _
    | record line rest =>
      have hle := nextLine_rest_le hl
      have hlong := (nextLine_isRecord hl).long
      dsimp only
      split
      · split
        · exact Nat.zero_le _
        · split
          · have ih := scan_pages_le n ((len + (recData line).length) % 256)
              (decide (0 < (len + (recData line).length) % 256)) false rest
            show 11 * (0 + _) ≤ _
            omega
          · have ih := scan_pages_le n ((len + (recData line).length) % 256 - 128) false true rest
            show 11 * (1 + _) ≤ _
            omega
      · split
        · split
          · show 11 * 1 ≤ _
            omega
          · exact Nat.zero_le _
        · have ih := scan_pages_le n len opened false rest
          omega

/-- The ring holds less than 592 bytes, so a call fills at most 53 pages. -/
theorem Dec.scan_pages_le (d : Dec) (package : Bytes) (h : d.unread.length < 592) :
    (d.scan package).pages ≤ 53 := by
  have hlt : (d.feed package).unread.length < 592 := pushList_length_lt package d.unread h
  have := Bootloader.scan_pages_le ((d.feed package).unread.length + 1) d.fifo.length false true
    (d.feed package).unread
  unfold Dec.scan
  omega

/-- **Two characters a data byte**: what is decoded and what is unread come from the packages. -/
theorem decProcess_dataOf_le (d : Dec) (f : Spm) (package : Bytes) :
    2 * (dataOf (decProcess d f package).2.1.lines).length + (decProcess d f package).2.1.unread.length ≤
      2 * (dataOf d.lines).length + d.unread.length + package.length := by
  have hfeed : (d.feed package).unread.length ≤ d.unread.length + package.length :=
    pushList_length_le package d.unread
  have hline : ∀ (lines : List Bytes) (u line rest : Bytes), nextLine u = .record line rest →
      2 * (dataOf (lines ++ [line])).length + rest.length ≤ 2 * (dataOf lines).length + u.length := by
    intro lines u line rest hl
    have hle := nextLine_rest_le hl
    have hlen := (nextLine_isRecord hl).len
    have hd : (lineData line).length ≤ (lineByte line 1).toNat := by
      unfold lineData
      split
      · exact Nat.le_of_eq (recData_length line)
      · exact Nat.zero_le _
    rw [dataOf_snoc, List.length_append]
    omega
  refine decProcess_rule
    (fun p => 2 * (dataOf p.d.lines).length + p.d.unread.length ≤
      2 * (dataOf d.lines).length + d.unread.length + package.length)
    (fun a => 2 * (dataOf a.2.1.lines).length + a.2.1.unread.length ≤
      2 * (dataOf d.lines).length + d.unread.length + package.length) ?_ ?_ d f package ?_
  · intro p p' hI hs
    obtain ⟨line, rest, hl, hcase⟩ := lineStep_more hs
    have h := Nat.le_trans (hline p.d.lines _ _ _ hl) hI
    rcases hcase with ⟨_, _, _, rfl⟩ | ⟨_, _, _, _, rfl⟩ | ⟨_, _, rfl⟩ <;> exact h
  · intro p a hI hs
    rcases lineStep_stop hs with ⟨_, hdf⟩ | ⟨line, rest, hl, hcase⟩
    · rw [hdf]
      exact hI
    · have h := Nat.le_trans (hline p.d.lines _ _ _ hl) hI
      rcases hcase with ⟨_, _, rfl⟩ | ⟨_, _, _, _, rfl⟩ | ⟨_, rfl⟩
      · exact h
      · exact h
      · unfold endStep
        split
        · exact h
        · split
          · exact h
          · exact h
  · show 2 * (dataOf d.lines).length + (d.feed package).unread.length ≤ _
    omega

end SmartHome.Bootloader
