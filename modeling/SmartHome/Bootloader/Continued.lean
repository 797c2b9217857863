/-
  Subject:   CALLS THAT GO ON where a file has ended or a call has failed.

  The decoder keeps no note of an answer: the next package is read as if nothing had happened. So
  what a call does has to be known for decoders that are not clean as well.

  * `decProcess_flash` -- a call that logs no page operation leaves the flash as it is;
  * `decProcess_idle` -- an empty FIFO and no good data: nothing happens;
  * `Dec.Refuses`, **`decProcess_refuses`** -- when the first page of a call is refused, told by the
    waiting bytes and the text;
  * `Tidy`, **`decProcess_tidy`** -- as long as no answer is negative, every page written is a stretch
    of the data of good records; and so are the pages of the first call that fails.
-/
import SmartHome.Bootloader.IhexLines
import SmartHome.Bootloader.Scan

namespace SmartHome.Bootloader

open SmartHome.Lib

/-! ## 1. Calls that write nothing -/

theorem flashPage_grows (addr : Nat) (page : Nat → UInt8) (f : Spm) :
    f.log.length < (flashPage addr page f).log.length := by
  obtain ⟨p, hp⟩ := flashPage_log_addr addr page f
  rw [hp, List.length_append]
  exact Nat.lt_add_of_pos_right (Nat.zero_lt_succ _)

/-- **A call that logs no operation leaves the flash as it is.** -/
theorem decProcess_flash (d : Dec) (f : Spm) (package : Bytes) :
    (decProcess d f package).2.2 = f ∨ f.log.length < (decProcess d f package).2.2.log.length := by
  refine (decProcess_keeps (L := fun _ => True) (K := fun g => g = f ∨ f.log.length < g.log.length)
    (fun _ _ h => h) ?_ package trivial (Or.inl rfl) : _ ∧ _).2
  intro addr page g hg
  have hgrow := flashPage_grows addr page g
  rcases hg with rfl | hg
  · exact Or.inr hgrow
  · exact Or.inr (Nat.lt_trans hg hgrow)

/-- A call whose text fills no page leaves the flash as it is and answers as its text says. -/
theorem decProcess_noPage {d : Dec} {package : Bytes} (f : Spm) (h : d.fifo.length < 256)
    (h0 : (d.scan package).pages = 0) : (decProcess d f package).2.2 = f ∧
      (decProcess d f package).1 = (d.scan package).verdict.answer := by
  obtain ⟨m, hlog, _, hcase⟩ := decProcess_scan d f package h
  rcases hcase with ⟨hm, ha, _⟩ | ⟨hm, _⟩
  · refine ⟨?_, ha⟩
    rw [hm, h0] at hlog
    have hlen := congrArg List.length hlog
    rw [pageAddrs, List.append_nil, List.length_map, List.length_map] at hlen
    rcases decProcess_flash d f package with hf | hf
    · exact hf
    · rw [hlen] at hf
      exact absurd hf (Nat.lt_irrefl _)
  · rw [h0] at hm
    exact absurd hm (Nat.not_lt_zero m)

/-- A call whose text is defective fails. -/
theorem decProcess_failed {d : Dec} {package : Bytes} (f : Spm) (h : d.fifo.length < 256)
    (hv : (d.scan package).verdict = .failed) : (decProcess d f package).1 < 0 := by
  obtain ⟨m, _, _, hcase⟩ := decProcess_scan d f package h
  rcases hcase with ⟨_, ha, _⟩ | ⟨_, ha, _⟩
  · rw [ha, hv]
    decide
  · rw [ha]
    decide

theorem goodData_take {d : Dec} {line : Bytes} (rest : Bytes) (h : recType line = 0 → recSum line = 0) :
    goodData (d.take line rest).lines = goodData d.lines ++ lineData line := goodData_snoc _ h

/-- No good data came so far and nothing waits. -/
structure Idle (d : Dec) (f : Spm) (p : Pending) : Prop where
  flash : p.f = f
  fifo : p.d.fifo = []
  pageLen : p.pageLen = 0
  good : goodData p.d.lines = goodData d.lines

theorem idle_more {d : Dec} {f : Spm} {p p' : Pending} (h : Idle d f p) (hs : lineStep p = .inr p') :
    Idle d f p' ∨ (goodData d.lines).length < (goodData p'.d.lines).length := by
  obtain ⟨line, rest, _, hcase⟩ := lineStep_more hs
  -- the bytes of a data record are good data
  have hdata : recType line = 0 → recSum line = 0 →
      goodData (p.d.take line rest).lines = goodData d.lines ++ recData line := by
    intro h0 hsum
    rw [goodData_take rest fun _ => hsum, lineData, if_pos h0, h.good]
  rcases hcase with ⟨h0, hsum, _, rfl⟩ | ⟨h0, hsum, h128, _, rfl⟩ | ⟨h0, _, rfl⟩
  · have hg := hdata h0 hsum
    cases hrec : recData line with
    | nil =>
      rw [hrec, List.append_nil] at hg
      refine Or.inl ⟨h.flash, ?_, ?_, hg⟩
      · rw [dec_push_fifo, pushList_nil]
        exact h.fifo
      · rw [dec_push_fifo, pushList_nil, dec_take_fifo, h.fifo]
        rfl
    | cons b bs =>
      right
      show (goodData d.lines).length < (goodData (p.d.take line rest).lines).length
      rw [hg, hrec, List.length_append]
      exact Nat.lt_add_of_pos_right (Nat.zero_lt_succ _)
  · -- 128 bytes that were not waiting
    right
    show (goodData d.lines).length < (goodData (p.d.take line rest).lines).length
    rw [dec_push_fifo, dec_take_fifo, h.fifo] at h128
    have hle := pushList_length_le (n := 256) (recData line) []
    rw [List.length_nil, Nat.zero_add] at hle
    rw [hdata h0 hsum, List.length_append]
    omega
  · refine Or.inl ⟨h.flash, h.fifo, h.pageLen, ?_⟩
    show goodData (p.d.take line rest).lines = _
    rw [goodData_take rest fun h => absurd h h0, lineData, if_neg h0, List.append_nil, h.good]

/-- **No good data and nothing waiting**: a call that does not fail changes neither FIFO nor flash. -/
theorem decProcess_idle {d : Dec} (f : Spm) (package : Bytes) (hf : d.fifo = []) :
    (decProcess d f package).1 < 0 ∨
    (goodData d.lines).length < (goodData (decProcess d f package).2.1.lines).length ∨
    ((decProcess d f package).2.2 = f ∧ (decProcess d f package).2.1.fifo = [] ∧
      goodData (decProcess d f package).2.1.lines = goodData d.lines) := by
  have hmain := decProcess_until (L := fun lines => (goodData d.lines).length < (goodData lines).length)
    (fun lines line hlt => Nat.lt_of_lt_of_le hlt (goodData_mono (List.prefix_append lines [line])).length_le)
    (Idle d f) (fun a => a.1 < 0 ∨ (a.2.2 = f ∧ a.2.1.fifo = [] ∧ goodData a.2.1.lines = goodData d.lines))
    (fun _ _ hI hs => idle_more hI hs) ?_ d f package ⟨rfl, hf, rfl, rfl⟩
  · rcases hmain with (hneg | hsame) | hlt
    · exact Or.inl hneg
    · exact Or.inr (Or.inr hsame)
    · exact Or.inr (Or.inl hlt)
  · intro p a hI hs
    left
    rcases lineStep_stop hs with ⟨_, hdf⟩ | ⟨line, rest, _, ⟨_, _, rfl⟩ | ⟨_, _, _, _, rfl⟩ | ⟨_, rfl⟩⟩
    · rw [hdf]
      exact Or.inr ⟨hI.flash, hI.fifo, hI.good⟩
    · exact Or.inl (by simp)
    · exact Or.inl (by simp)
    · -- an end record without data fails
      unfold endStep
      rw [if_pos hI.pageLen]
      exact Or.inl (by simp)

/-! ## 2. A first page that is refused -/

/-- **The call will refuse its first page**: it goes to address 0 and is no image. The FIFO must not
    overrun before the page is full. -/
def Dec.Refuses (d : Dec) (package : Bytes) : Prop :=
  d.writeAddr = 0 ∧ d.fifo.length ≤ 221 ∧ 0 < (d.scan package).pages ∧
    validImage (padded ((d.fifo ++ (d.scan package).data).take 128)) = false

/-- Nothing was written so far: the waiting bytes are those of `d` and the good data `x`. -/
structure Unwritten (d : Dec) (f : Spm) (x : Bytes) (p : Pending) : Prop where
  good : goodData p.d.lines = goodData d.lines ++ x
  flash : p.f = f
  addr : p.d.writeAddr = 0
  fifo : p.d.fifo = d.fifo ++ x
  room : p.d.fifo.length ≤ 221
  pageLen : p.pageLen = 0 ∨ p.pageLen = p.d.fifo.length ∧ p.d.fifo.length < 128

/-- A first page of the waiting bytes and good data is an image. -/
def FirstValid (d : Dec) (lines : List Bytes) : Prop :=
  ∃ x, goodData d.lines ++ x <+: goodData lines ∧ 128 ≤ (d.fifo ++ x).length ∧
    validImage (padded ((d.fifo ++ x).take 128)) = true

theorem FirstValid.snoc {d : Dec} {lines : List Bytes} (h : FirstValid d lines) (line : Bytes) :
    FirstValid d (lines ++ [line]) := by
  obtain ⟨x, hx, hlen, hv⟩ := h
  exact ⟨x, hx.trans (goodData_mono (List.prefix_append _ _)), hlen, hv⟩

theorem unwritten_more {d : Dec} {f : Spm} {p p' : Pending} {x : Bytes} (h : Unwritten d f x p)
    (hs : lineStep p = .inr p') : (∃ y, Unwritten d f y p') ∨ FirstValid d p'.d.lines := by
  obtain ⟨line, rest, hn, hcase⟩ := lineStep_more hs
  have hroom := h.room
  have hpush : recType line = 0 →
      ((p.d.take line rest).push (recData line)).fifo = d.fifo ++ (x ++ recData line) := by
    intro _
    have hle := (nextLine_isRecord hn).data_le
    rw [dec_push_fifo, dec_take_fifo, pushList_append _ _ (by omega), h.fifo, List.append_assoc]
  have hgood : recType line = 0 → recSum line = 0 →
      goodData (p.d.lines ++ [line]) = goodData d.lines ++ (x ++ recData line) := by
    intro h0 hsum
    rw [goodData_snoc _ fun _ => hsum, lineData, if_pos h0, h.good, List.append_assoc]
  rcases hcase with ⟨h0, hsum, hlt, rfl⟩ | ⟨h0, hsum, hge, hv, rfl⟩ | ⟨h0, _, rfl⟩
  · exact Or.inl ⟨x ++ recData line, hgood h0 hsum, h.flash, h.addr, hpush h0,
      Nat.le_trans (Nat.le_of_lt hlt) (by decide), Or.inr ⟨rfl, hlt⟩⟩
  · refine Or.inr ⟨x ++ recData line, ?_, ?_, ?_⟩
    · exact ⟨[], (List.append_nil _).trans (hgood h0 hsum).symm⟩
    · rw [← hpush h0]
      exact hge
    · rw [← hpush h0]
      exact Bool.of_not_eq_false fun hf => hv ⟨h.addr, hf⟩
  · refine Or.inl ⟨x, ?_, h.flash, h.addr, h.fifo, h.room, h.pageLen⟩
    show goodData (p.d.lines ++ [line]) = _
    rw [goodData_snoc _ fun h => absurd h h0, lineData, if_neg h0, List.append_nil]
    exact h.good

/-- An end record that is answered 1 has written an image. -/
theorem unwritten_end {d : Dec} {f : Spm} {p : Pending} {x line rest : Bytes} (h : Unwritten d f x p)
    (h1 : recType line = 1) :
    (endStep (p.d.take line rest) p.f p.pageLen).2.2 = f ∨ ((endStep (p.d.take line rest) p.f p.pageLen).1 = 1 ∧
        goodData (endStep (p.d.take line rest) p.f p.pageLen).2.1.lines = goodData d.lines ++ x ∧
        validImage (padded ((d.fifo ++ x).take 128)) = true) := by
  have h0 : recType line ≠ 0 := by
    rw [h1]
    decide
  unfold endStep
  split
  · exact Or.inl h.flash
  · rename_i hz
    split
    · exact Or.inl h.flash
    · rename_i hv
      obtain ⟨hp, hlt⟩ := h.pageLen.resolve_left hz
      refine Or.inr ⟨rfl, ?_, ?_⟩
      · show goodData (p.d.lines ++ [line]) = _
        rw [goodData_snoc _ fun h => absurd h h0, lineData, if_neg h0, List.append_nil]
        exact h.good
      · have htake : p.d.fifo.take p.pageLen = (d.fifo ++ x).take 128 := by
          rw [← h.fifo, hp, List.take_of_length_le (Nat.le_refl _), List.take_of_length_le (Nat.le_of_lt hlt)]
        rw [← htake]
        exact Bool.of_not_eq_false fun hf => hv ⟨h.addr, hf⟩

/-- **Nothing was written, or what was written first is an image.** -/
theorem decProcess_unwrittenOr {d : Dec} (f : Spm) (package : Bytes) (haddr : d.writeAddr = 0)
    (hroom : d.fifo.length ≤ 221) :
    ((decProcess d f package).2.2 = f ∨ ((decProcess d f package).1 = 1 ∧ ∃ x,
      goodData (decProcess d f package).2.1.lines = goodData d.lines ++ x ∧
      validImage (padded ((d.fifo ++ x).take 128)) = true)) ∨ FirstValid d (decProcess d f package).2.1.lines := by
  have hstart : Unwritten d f [] ⟨d.feed package, f, 0, .empty⟩ :=
    ⟨(List.append_nil _).symm, rfl, haddr, (List.append_nil _).symm, hroom, Or.inl rfl⟩
  refine decProcess_until (fun _ line hv => hv.snoc line) (fun p => ∃ x, Unwritten d f x p)
    (fun a => a.2.2 = f ∨ (a.1 = 1 ∧ ∃ x,
      goodData a.2.1.lines = goodData d.lines ++ x ∧ validImage (padded ((d.fifo ++ x).take 128)) = true))
    (fun _ _ ⟨_, hx⟩ hs => unwritten_more hx hs) ?_ d f package ⟨[], hstart⟩
  rintro p a ⟨x, hx⟩ hs
  left
  rcases lineStep_stop hs with ⟨_, hdf⟩ | ⟨line, rest, _, ⟨_, _, rfl⟩ | ⟨_, _, _, _, rfl⟩ | ⟨h1, rfl⟩⟩
  · rw [hdf]
    exact Or.inl hx.flash
  · exact Or.inl hx.flash
  · exact Or.inl hx.flash
  · rcases unwritten_end hx h1 with hf | ⟨ha, hg, hv⟩
    · exact Or.inl hf
    · exact Or.inr ⟨ha, x, hg, hv⟩

/-- **A call whose first page is refused** answers -1 and leaves the flash as it is. -/
theorem decProcess_refuses {d : Dec} {package : Bytes} (f : Spm) (h : d.Refuses package) :
    (decProcess d f package).2.2 = f ∧ (decProcess d f package).1 = -1 := by
  obtain ⟨haddr, hroom, hpages, hinvalid⟩ := h
  obtain ⟨m, hlog, _, hcase⟩ := decProcess_scan d f package (Nat.lt_of_le_of_lt hroom (by decide))
  have hprefix : goodData (decProcess d f package).2.1.lines <+: goodData d.lines ++ (d.scan package).data := by
    rcases hcase with ⟨_, _, hg⟩ | ⟨_, _, _, _, hg⟩
    · rw [hg]
      exact List.prefix_refl _
    · exact hg
  have hflash : (decProcess d f package).2.2 = f := by
    rcases decProcess_unwrittenOr f package haddr hroom with (hf | ⟨ha, x, hx, hv⟩) | ⟨x, hx, hlen, hv⟩
    · exact hf
    · rcases hcase with ⟨_, _, hg⟩ | ⟨_, ha', _⟩
      · have hxd : x = (d.scan package).data := List.append_cancel_left (hx.symm.trans hg)
        rw [← hxd, hv] at hinvalid
        exact Bool.noConfusion hinvalid
      · rw [ha'] at ha
        exact absurd ha (by decide)
    · -- the first page is that of all the good data
      obtain ⟨y, hy⟩ := (List.prefix_append_right_inj _).mp (hx.trans hprefix)
      rw [← hy, ← List.append_assoc, List.take_append_of_le_length hlen, hv] at hinvalid
      exact Bool.noConfusion hinvalid
  refine ⟨hflash, ?_⟩
  rcases hcase with ⟨hm, _⟩ | ⟨_, ha, _⟩
  · rw [hflash] at hlog
    have hlen := congrArg List.length hlog
    rw [List.length_append] at hlen
    obtain ⟨q, hq⟩ := Nat.exists_eq_succ_of_ne_zero (Nat.pos_iff_ne_zero.mp hpages)
    rw [hm, hq, pageAddrs, List.length_cons, List.length_cons] at hlen
    exact absurd hlen (Nat.ne_of_lt (Nat.lt_add_of_pos_right (Nat.zero_lt_succ _)))
  · exact ha

/-! ## 3. Pages of good data -/

/-- A page operation that writes, if it writes, a stretch of the data of good records. -/
def GoodPage (lines : List Bytes) (op : SpmOp) : Prop :=
  ∀ addr page, op = .write addr page → ∃ x, x <:+: goodData lines ∧ page = (List.range 128).map (padded x)

/-- All operations from number `n` on are of that kind. -/
def GoodPages (n : Nat) (lines : List Bytes) (f : Spm) : Prop := ∀ op ∈ f.log.drop n, GoodPage lines op

theorem GoodPages.mono {n : Nat} {lines lines' : List Bytes} {f : Spm} (h : GoodPages n lines f)
    (hl : lines <+: lines') : GoodPages n lines' f := by
  intro op hop addr page he
  obtain ⟨x, hx, hp⟩ := h op hop addr page he
  exact ⟨x, hx.trans (goodData_mono hl).isInfix, hp⟩

theorem GoodPages.snoc {n : Nat} {lines : List Bytes} {f : Spm} (h : GoodPages n lines f)
    (line : Bytes) : GoodPages n (lines ++ [line]) f := h.mono (List.prefix_append _ _)

/-- One page more. -/
theorem GoodPages.flashPage {n : Nat} {lines : List Bytes} {f : Spm} {addr : Nat} {x : Bytes}
    (h : GoodPages n lines f) (hn : n ≤ f.log.length) (ha : addr % 128 = 0) (hx : x <:+: goodData lines) :
    GoodPages n lines (flashPage addr (padded x) f) := by
  intro op hop
  rw [flashPage_log ha, List.drop_append_of_le_length hn] at hop
  rcases List.mem_append.mp hop with hop | hop
  · exact h op hop
  · intro addr' page he
    rcases List.mem_cons.mp hop with rfl | hop
    · exact SpmOp.noConfusion he
    · rw [List.mem_singleton.mp hop] at he
      injection he with _ hp
      exact ⟨x, hx, hp.symm⟩

/-- **A tidy decoder**: what waits is the end of the good data, and the operations from number `n`
    on wrote pages of it. -/
structure Tidy (n : Nat) (d : Dec) (f : Spm) : Prop where
  fifo : d.fifo <:+ goodData d.lines
  short : d.fifo.length < 128
  aligned : d.writeAddr % 128 = 0
  le : n ≤ f.log.length
  pages : GoodPages n d.lines f

/-- Between two lines of a call. -/
def TidyPending (n : Nat) (p : Pending) : Prop :=
  Tidy n p.d p.f ∧ (p.pageLen = 0 ∨ p.pageLen = p.d.fifo.length)

theorem tidy_init (s : Ihex) (f : Spm) : Tidy f.log.length (ihexInit s).dec f where
  fifo := by simp [Ihex.dec, ihexInit]
  short := by simp [Ihex.dec, ihexInit]
  aligned := rfl
  le := Nat.le_refl _
  pages := by
    intro op hop
    rw [List.drop_length] at hop
    exact absurd hop List.not_mem_nil

/-- The waiting bytes of a tidy decoder and a good record. -/
theorem Tidy.push {n : Nat} {d : Dec} {f : Spm} (h : Tidy n d f) {line : Bytes} (rest : Bytes)
    (hrec : IsRecord line) (h0 : recType line = 0) (hsum : recSum line = 0) :
    ((d.take line rest).push (recData line)).fifo <:+ goodData (d.lines ++ [line]) ∧
      ((d.take line rest).push (recData line)).fifo.length < 256 := by
  have hle := hrec.data_le
  have hlt := h.short
  have hg : goodData (d.lines ++ [line]) = goodData d.lines ++ recData line := by
    rw [goodData_snoc _ fun _ => hsum, lineData, if_pos h0]
  rw [dec_push_fifo, dec_take_fifo, pushList_append _ _ (by omega), hg]
  constructor
  · obtain ⟨y, hy⟩ := h.fifo
    exact ⟨y, by rw [← List.append_assoc, hy]⟩
  · rw [List.length_append]
    omega

/-- **A line that goes on keeps the decoder tidy.** -/
theorem tidy_more {n : Nat} {p p' : Pending} (h : TidyPending n p) (hs : lineStep p = .inr p') :
    TidyPending n p' := by
  obtain ⟨ht, hp⟩ := h
  obtain ⟨line, rest, hn, hcase⟩ := lineStep_more hs
  have hrec := nextLine_isRecord hn
  rcases hcase with ⟨h0, hsum, hlt, rfl⟩ | ⟨h0, hsum, hge, _, rfl⟩ | ⟨h0, _, rfl⟩
  · exact ⟨⟨(ht.push rest hrec h0 hsum).1, hlt, ht.aligned, ht.le, ht.pages.snoc line⟩, Or.inr rfl⟩
  · -- the first 128 of the waiting bytes go to the flash
    obtain ⟨hsuf, hroom⟩ := ht.push rest hrec h0 hsum
    refine ⟨⟨(List.drop_suffix _ _).trans hsuf, ?_, ?_, ?_, ?_⟩, Or.inl rfl⟩
    · show (List.drop 128 _).length < 128
      rw [List.length_drop]
      omega
    · have := ht.aligned
      show (p.d.writeAddr + 128) % 65536 % 128 = 0
      omega
    · exact Nat.le_of_lt (Nat.lt_of_le_of_lt ht.le (flashPage_grows _ _ _))
    · exact (ht.pages.snoc line).flashPage ht.le ht.aligned
        ((List.take_prefix _ _).isInfix.trans hsuf.isInfix)
  · have hg : goodData (p.d.lines ++ [line]) = goodData p.d.lines := by
      rw [goodData_snoc _ fun h => absurd h h0, lineData, if_neg h0, List.append_nil]
    refine ⟨⟨?_, ht.short, ht.aligned, ht.le, ht.pages.snoc line⟩, hp⟩
    show p.d.fifo <:+ goodData (p.d.lines ++ [line])
    rw [hg]
    exact ht.fifo

/-- What a tidy decoder makes of a call. -/
structure TidyDone (n : Nat) (a : Answer) : Prop where
  tidy : 0 ≤ a.1 → Tidy n a.2.1 a.2.2
  pages : GoodPages n a.2.1.lines a.2.2

theorem TidyDone.negative {n : Nat} {a : Answer} (h : a.1 < 0) (hp : GoodPages n a.2.1.lines a.2.2) :
    TidyDone n a := ⟨fun h0 => absurd h0 (Int.not_le.mpr h), hp⟩

/-- **A line that ends the call**, on a tidy decoder. -/
theorem tidy_stop {n : Nat} {p : Pending} {a : Answer} (h : TidyPending n p) (hs : lineStep p = .inl a) :
    TidyDone n a := by
  obtain ⟨ht, hp⟩ := h
  rcases lineStep_stop hs with ⟨_, hdf⟩ | ⟨line, rest, hn, hcase⟩
  · have hd : a.2.1 = p.d := congrArg Prod.fst hdf
    have hf : a.2.2 = p.f := congrArg Prod.snd hdf
    refine ⟨fun _ => ?_, ?_⟩
    · rw [hd, hf]
      exact ht
    · rw [hd, hf]
      exact ht.pages
  · have hrec := nextLine_isRecord hn
    rcases hcase with ⟨h0, hsum, rfl⟩ | ⟨h0, hsum, _, _, rfl⟩ | ⟨h1, rfl⟩
    · -- the bytes of the bad record wait in the FIFO, and nothing was written
      exact .negative (by simp) (ht.pages.snoc line)
    · exact .negative (by simp) (ht.pages.snoc line)
    · have h0 : recType line ≠ 0 := by
        rw [h1]
        decide
      have hg : goodData (p.d.lines ++ [line]) = goodData p.d.lines := by
        rw [goodData_snoc _ fun h => absurd h h0, lineData, if_neg h0, List.append_nil]
      have hpages := ht.pages.snoc line
      unfold endStep
      split
      · exact .negative (by simp) hpages
      · rename_i hz
        split
        · exact .negative (by simp) hpages
        · -- the rest of the page, all that waits
          have hlen := hp.resolve_left hz
          have hinfix : p.d.fifo.take p.pageLen <:+: goodData (p.d.lines ++ [line]) := by
            rw [hg]
            exact (List.take_prefix _ _).isInfix.trans ht.fifo.isInfix
          have hnew := hpages.flashPage ht.le ht.aligned hinfix
          refine ⟨fun _ => ⟨?_, ?_, ht.aligned, ?_, hnew⟩, hnew⟩
          · show p.d.fifo.drop p.pageLen <:+ goodData (p.d.lines ++ [line])
            rw [hg]
            exact (List.drop_suffix _ _).trans ht.fifo
          · show (p.d.fifo.drop p.pageLen).length < 128
            rw [List.length_drop, hlen, Nat.sub_self]
            decide
          · exact Nat.le_of_lt (Nat.lt_of_le_of_lt ht.le (flashPage_grows _ _ _))

/-- **One call of a tidy decoder.** -/
theorem decProcess_tidy {n : Nat} {d : Dec} {f : Spm} (h : Tidy n d f) (package : Bytes) :
    TidyDone n (decProcess d f package) :=
  decProcess_rule (TidyPending n) (TidyDone n) (fun _ _ h hs => tidy_more h hs)
    (fun _ _ h hs => tidy_stop h hs) d f package ⟨⟨h.fifo, h.short, h.aligned, h.le, h.pages⟩, Or.inl rfl⟩

end SmartHome.Bootloader
