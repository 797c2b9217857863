/-
  Subject:   NO BYTE IS LOST OR DOUBLED between the stream and the flash.

  A stream of well-formed lines is cut every 512 bytes. As long as every call answers 0, each byte of
  a record that has come in is in a page that was written or in `g_page_fifo`, and each character
  that was not taken is in the ring. Which records have come in can be told from the number of
  characters alone (`linesIn`). What can go wrong is the address: `g_writeAddr` has 16 bits and
  nothing looks whether the image fits, so page 512 is written at 0 once more.

  * `HexLine.WellFormed`, `linesIn` -- the lines of a stream, and those of them that have come in;
  * `records_stream` -- the records of what is unread are the next lines of the stream;
  * `Stands`, `stands_call`, `stands_calls` -- where in the stream the decoder is, call after call;
  * `Conserved` -- what is kept: records, data, unread characters, addresses;
  * **`conserved_iff`** -- all of it is kept exactly up to 65535 data bytes;
  * `wrapStream_doubles` -- 2048 records of 32 bytes.
-/
import SmartHome.Bootloader.Leftover
import SmartHome.Bootloader.Room

namespace SmartHome.Bootloader

open SmartHome.Lib

/-! ## 1. Streams of lines -/

/-- **A well-formed line**: a record of type 0 or 1 with the right checksum, at most 34 data bytes, and
    a line end. -/
def HexLine.WellFormed (l : HexLine) : Prop :=
  ∃ t addr, (t = 0 ∨ t = 1) ∧ l.data.length ≤ 34 ∧ IsHexText t addr l.data l.text ∧ IsEol l.eol

theorem HexLine.WellFormed.isRecord {l : HexLine} (h : l.WellFormed) : IsRecord l.text := by
  obtain ⟨_, _, _, hle, ht, _⟩ := h
  exact hexText_isRecord ht hle

theorem HexLine.WellFormed.isEol {l : HexLine} (h : l.WellFormed) : IsEol l.eol := by
  obtain ⟨_, _, _, _, _, he⟩ := h
  exact he

theorem HexLine.WellFormed.lineData {l : HexLine} (h : l.WellFormed) (h1 : recType l.text ≠ 1) :
    Bootloader.lineData l.text = l.data := by
  obtain ⟨t, _, ht, hle, htext, _⟩ := h
  have hty := hexText_recType htext
  rcases ht with rfl | rfl
  · rw [Bootloader.lineData, if_pos hty, hexText_recData htext hle]
  · exact absurd hty h1

theorem IsEol.length_le {eol : Bytes} (h : IsEol eol) : eol.length ≤ 2 := by
  rcases h with rfl | rfl
  · exact Nat.le_succ 1
  · exact Nat.le_refl 2

/-- The lines whose record is among the first `n` characters of a stream. -/
def linesIn : Nat → List HexLine → List HexLine
  | _, [] => []
  | n, l :: ls => if l.text.length ≤ n then l :: linesIn (n - (l.text.length + l.eol.length)) ls else []

/-- The line end of the last line. -/
def lastEnd (ls : List HexLine) : Bytes := (ls.getLast?.map HexLine.eol).getD []

@[simp] theorem lastEnd_snoc (ls : List HexLine) (l : HexLine) : lastEnd (ls ++ [l]) = l.eol := by
  simp [lastEnd]

theorem lastEnd_cons (l : HexLine) {ls : List HexLine} (h : ls ≠ []) : lastEnd (l :: ls) = lastEnd ls := by
  unfold lastEnd
  rw [List.getLast?_cons]
  cases hl : ls.getLast? with
  | none => exact absurd (List.getLast?_eq_none_iff.mp hl) h
  | some m => rfl

theorem lastEnd_suffix (ls : List HexLine) : lastEnd ls <:+ linesText ls := by
  induction ls using List.reverseRecOn with
  | nil => exact List.suffix_refl _
  | append_singleton ls l _ =>
    rw [lastEnd_snoc, linesText_append, linesText_cons, linesText_nil, List.append_nil, ← List.append_assoc]
    exact List.suffix_append _ _

/-- The line that comes next. -/
def nextLength (ms : List HexLine) : Nat := (ms.head?.map fun l => l.text.length).getD 0

/-- **Which lines have come in**: `ts`, if their characters have come in but for a line end at most,
    and not the next record. -/
theorem linesIn_append {ms : List HexLine} (hms : ∀ l ∈ ms, 0 < l.text.length) : ∀ (ts : List HexLine) (n : Nat),
    (linesText ts).length ≤ n + (lastEnd ts).length →
    (ms ≠ [] → n < (linesText ts).length + nextLength ms) → linesIn n (ts ++ ms) = ts
  | [], n, _, hn => by
    cases ms with
    | nil => rfl
    | cons m ms =>
      have hlt : n < m.text.length := by simpa [nextLength] using hn (List.cons_ne_nil m ms)
      exact if_neg (Nat.not_le_of_lt hlt)
  | l :: ts, n, hle, hn => by
    have hend := (lastEnd_suffix ts).length_le
    simp only [linesText_cons, List.length_append] at hle hn
    rw [List.cons_append, linesIn]
    by_cases hts : ts = []
    · subst hts
      have he : lastEnd [l] = l.eol := rfl
      simp only [linesText_nil, List.length_nil, he] at hle hn
      rw [if_pos (by omega), linesIn_append hms [] _ (Nat.zero_le _) fun hne => ?_]
      have hpos : 0 < nextLength ms := by
        cases ms with
        | nil => exact absurd rfl hne
        | cons m ms => exact hms m List.mem_cons_self
      have := hn hne
      simp only [linesText_nil, List.length_nil]
      omega
    · rw [lastEnd_cons l hts] at hle
      rw [if_pos (by omega), linesIn_append hms ts _ (by omega) fun hne => ?_]
      have := hn hne
      omega

/-! ## 2. The records of what is unread -/

theorem nextLine_blank {z : Bytes} (hz : Blank z) : nextLine z = .blank := by
  have hr := readLine_blank z [] hz
  rw [List.append_nil] at hr
  unfold nextLine
  rw [hr]
  rfl

theorem noRecord_of_waits {u : Bytes} (h : nextLine u = .blank ∨ nextLine u = .incomplete) : NoRecord u := by
  intro line rest hl
  rcases h with h | h
  · rw [h] at hl
    cases hl
  · rw [h] at hl
    cases hl

/-- **The records of what is unread are the next lines of the stream**: with `z` left of the line end
    of the lines `ts`, and `R` still to come, the lines `ls` are taken and `ms'` are not. -/
theorem records_stream {R : Bytes} : ∀ (ms ts : List HexLine) (u z : Bytes), (∀ l ∈ ms, l.WellFormed) →
    Blank z → z <:+ lastEnd ts → u ++ R = z ++ linesText ms →
    ∃ ls ms' z', ms = ls ++ ms' ∧ records u = ls.map HexLine.text ∧ Blank z' ∧ z' <:+ lastEnd (ts ++ ls) ∧
      restOf u ++ R = z' ++ linesText ms' ∧ (ms' ≠ [] → (restOf u).length < z'.length + nextLength ms') ∧
      ((ls = [] ∧ restOf u = u ∧ z' = z) ∨ restOf u = [] ∨ z' = [])
  | [], ts, u, z, _, hz, hsuf, hstream => by
    -- line ends only
    have hu : Blank u := fun c hc => by
      rw [linesText_nil, List.append_nil] at hstream
      exact hz c (by rw [← hstream]; exact List.mem_append_left _ hc)
    obtain ⟨hr, hrest⟩ := records_none (noRecord_of_waits (Or.inl (nextLine_blank hu)))
    refine ⟨[], [], z, rfl, hr, hz, ?_, ?_, fun h => absurd rfl h, Or.inl ⟨rfl, hrest, rfl⟩⟩
    · rw [List.append_nil]
      exact hsuf
    · rw [hrest]
      exact hstream
  | l :: ms, ts, u, z, hms, hz, hsuf, hstream => by
    have hl := hms l List.mem_cons_self
    rw [linesText_cons] at hstream
    by_cases hlt : u.length < z.length + l.text.length
    · obtain ⟨hr, hrest⟩ := records_none (noRecord_of_waits (nextLine_waits hz hl.isRecord hstream hlt))
      refine ⟨[], l :: ms, z, rfl, hr, hz, ?_, ?_, fun _ => ?_, Or.inl ⟨rfl, hrest, rfl⟩⟩
      · rw [List.append_nil]
        exact hsuf
      · rw [hrest, linesText_cons]
        exact hstream
      · rw [hrest]
        exact hlt
    · obtain ⟨rest, z₁, hn, hsuf₁, hstream₁, he⟩ :=
        nextLine_taken hz hl.isRecord hl.isEol hstream (Nat.le_of_not_lt hlt)
      obtain ⟨hr, hrest⟩ := records_record hn
      obtain ⟨ls, ms', z', hsplit, hrec, hz', hsuf', hstream', hshort, hend⟩ :=
        records_stream ms (ts ++ [l]) rest z₁ (fun m hm => hms m (List.mem_cons_of_mem _ hm))
          (hl.isEol.blank hsuf₁) (by rw [lastEnd_snoc]; exact hsuf₁) hstream₁
      rw [List.append_assoc] at hsuf'
      refine ⟨l :: ls, ms', z', by rw [hsplit]; rfl, by rw [hr, hrec]; rfl, hz', hsuf', ?_⟩
      rw [hrest]
      refine ⟨hstream', hshort, Or.inr ?_⟩
      rcases hend with ⟨_, hu, rfl⟩ | hend
      · rw [hu]
        exact he
      · exact hend

/-! ## 3. Where in the stream the decoder is -/

/-- The decoder has taken the records of `ts` when `n` characters of the stream `ls` have come in;
    `ms` are to come, and `z` is what is left of the last line end. -/
structure Stands (ls : List HexLine) (n : Nat) (d : Dec) (ts ms : List HexLine) (z : Bytes) : Prop where
  split : ls = ts ++ ms
  taken : d.lines = ts.map HexLine.text
  stream : d.unread ++ (linesText ls).drop n = z ++ linesText ms
  blank : Blank z
  lineEnd : z <:+ lastEnd ts
  part : ms ≠ [] → d.unread.length < z.length + nextLength ms
  settled : d.unread = [] ∨ z = [] ∨ (linesText ls).drop n = []

section Stream

variable {ls ts ms : List HexLine} {z : Bytes} {n : Nat} {d : Dec} (hls : ∀ l ∈ ls, l.WellFormed)

theorem nextLength_le (ms : List HexLine) : nextLength ms ≤ (linesText ms).length := by
  cases ms with
  | nil => exact Nat.zero_le _
  | cons l ms =>
    rw [linesText_cons, List.length_append]
    exact Nat.le_add_right _ _

/-- How much is unread and how much is to come. -/
theorem Stands.length (h : Stands ls n d ts ms z) :
    d.unread.length + ((linesText ls).length - n) = z.length + (linesText ms).length := by
  have := congrArg List.length h.stream
  simpa only [List.length_append, List.length_drop] using this

/-- All characters have come in: all lines are taken. -/
theorem Stands.all (h : Stands ls n d ts ms z) (hn : (linesText ls).length ≤ n) : ms = [] ∧ d.unread = z := by
  have hlen := h.length
  have hle := nextLength_le ms
  have hms : ms = [] := Classical.byContradiction fun hne => by
    have := h.part hne
    omega
  have hstream := h.stream
  rw [List.drop_of_length_le hn, hms, linesText_nil, List.append_nil, List.append_nil] at hstream
  exact ⟨hms, hstream⟩

include hls

/-- What is left of a line end has two characters at most. -/
theorem Stands.lineEnd_le (h : Stands ls n d ts ms z) : z.length ≤ 2 := by
  refine Nat.le_trans h.lineEnd.length_le ?_
  unfold lastEnd
  cases hl : ts.getLast? with
  | none => exact Nat.zero_le 2
  | some l =>
    refine (hls l ?_).isEol.length_le
    rw [h.split]
    exact List.mem_append_left _ (List.mem_of_getLast? hl)

theorem Stands.next_lt (h : Stands ls n d ts ms z) : nextLength ms < 80 := by
  cases hms : ms with
  | nil => exact Nat.zero_lt_succ _
  | cons l ms' =>
    refine (hls l ?_).isRecord.lt
    rw [h.split, hms]
    exact List.mem_append_right _ List.mem_cons_self

/-- **Fewer than 80 characters are unread.** -/
theorem Stands.unread_lt (h : Stands ls n d ts ms z) : d.unread.length < 80 := by
  have hz := h.lineEnd_le hls
  have hnext := h.next_lt hls
  have hlen := h.length
  rcases h.settled with hu | hz0 | hall
  · rw [hu]
    exact Nat.zero_lt_succ _
  · by_cases hms : ms = []
    · rw [hms, hz0, linesText_nil, List.length_nil] at hlen
      omega
    · have := h.part hms
      rw [hz0, List.length_nil] at this
      omega
  · rw [(h.all (List.drop_eq_nil_iff.mp hall)).2]
    omega

/-- **The records taken are those that have come in.** -/
theorem Stands.linesIn_eq (h : Stands ls n d ts ms z) : linesIn n ls = ts := by
  have hlen := h.length
  have hend := h.lineEnd.length_le
  have hsplit := congrArg (fun l => (linesText l).length) h.split
  simp only [linesText_append, List.length_append] at hsplit
  have hpos : ∀ l ∈ ms, 0 < l.text.length := fun l hl =>
    Nat.lt_of_lt_of_le (by decide) (hls l (by rw [h.split]; exact List.mem_append_right _ hl)).isRecord.long
  rw [h.split]
  refine linesIn_append hpos ts n ?_ fun hne => ?_
  · omega
  · have := h.part hne
    have hnext := nextLength_le ms
    omega

/-- **One call that answers 0.** -/
theorem stands_call {j : Nat} (h : Stands ls (512 * j) d ts ms z) (f : Spm)
    (h0 : (decProcess d f (package (linesText ls) j)).1 = 0) :
    ∃ ts' ms' z', Stands ls (512 * (j + 1)) (decProcess d f (package (linesText ls) j)).2.1 ts' ms' z' := by
  have hpkg := package_length (linesText ls) j
  have hlt := h.unread_lt hls
  have hz := h.lineEnd_le hls
  have hnext := h.next_lt hls
  have hfeed : (d.feed (package (linesText ls) j)).unread = d.unread ++ package (linesText ls) j :=
    pushList_append _ _ (by omega)
  obtain ⟨hlines, hunread⟩ := decProcess_records d f _ h0
  rw [hfeed] at hlines hunread
  have hstream := h.stream
  rw [package_append, ← List.append_assoc] at hstream
  obtain ⟨new, ms', z', hsplit, hrec, hz', hsuf, hstream', hpart, hend⟩ := records_stream ms ts _ z
    (fun l hl => hls l (by rw [h.split]; exact List.mem_append_right _ hl)) h.blank h.lineEnd hstream
  refine ⟨ts ++ new, ms', z', ?_, ?_, ?_, hz', hsuf, ?_, ?_⟩
  · rw [h.split, hsplit, List.append_assoc]
  · rw [hlines, h.taken, hrec, List.map_append]
  · rw [hunread]
    exact hstream'
  · rw [hunread]
    exact hpart
  · rw [hunread]
    rcases hend with ⟨hnew, hu, hzz⟩ | hend | hend
    · -- a full package has a whole record in it
      right; right
      rw [List.drop_eq_nil_iff]
      have hlen := congrArg List.length hstream'
      rw [hu] at hlen hpart
      simp only [List.length_append, List.length_drop] at hlen hpart
      by_cases hms : ms' = []
      · rw [hms, hzz, linesText_nil, List.length_nil] at hlen
        omega
      · have := hpart hms
        rw [hsplit, hnew, List.nil_append] at hnext
        rw [hzz] at this
        omega
    · exact Or.inl hend
    · exact Or.inr (Or.inl hend)

end Stream

/-- **As long as every answer is 0 the decoder stands in the stream.** -/
theorem stands_calls {ls : List HexLine} (hls : ∀ l ∈ ls, l.WellFormed) (s : Ihex) (f : Spm) :
    ∀ j, ZeroBefore (package (linesText ls)) s f j →
      ∃ ts ms z, Stands ls (512 * j) (decCalls (package (linesText ls)) (ihexInit s).dec f j).2.1 ts ms z
  | 0, _ => by
    have hu : (decCalls (package (linesText ls)) (ihexInit s).dec f 0).2.1.unread = [] := by
      simp [decCalls, Ihex.dec, ihexInit]
    refine ⟨[], ls, [], rfl, rfl, ?_, fun c hc => absurd hc List.not_mem_nil, List.suffix_refl _, fun hne => ?_,
      Or.inl hu⟩
    · rw [hu]
      rfl
    · rw [hu]
      cases ls with
      | nil => exact absurd rfl hne
      | cons l ls =>
        have hlong := (hls l List.mem_cons_self).isRecord.long
        show 0 < 0 + l.text.length
        omega
  | j + 1, h0 => by
    obtain ⟨ts, ms, z, h⟩ := stands_calls hls s f j (h0.mono (Nat.le_succ j))
    have hz := h0 j (Nat.lt_succ_self j)
    rw [ihexCalls_answer] at hz
    exact stands_call hls h _ hz

/-! ## 4. What is kept -/

/-- The bytes of full pages, one after the other. -/
theorem pages_flatten (data : Bytes) : ∀ p, 128 * p ≤ data.length →
    (List.range p).flatMap (fun k => (List.range 128).map (pageOf data k)) = data.take (128 * p)
  | 0, _ => rfl
  | p + 1, h => by
    have hpage : (List.range 128).map (pageOf data p) = (data.drop (128 * p)).take 128 := by
      refine List.ext_getElem (by simp; omega) fun i hi _ => ?_
      rw [List.length_map, List.length_range] at hi
      simp only [List.getElem_map, List.getElem_range, List.getElem_take, List.getElem_drop, pageOf]
      exact List.getD_eq_getElem _ _ (by omega)
    have hr : List.range (p + 1) = List.range p ++ [p] := List.range_succ
    rw [hr, List.flatMap_append, pages_flatten data p (by omega), List.flatMap_singleton, hpage, ← List.take_add]
    rfl

/-- The pages a clean decoder has written. -/
theorem Clean.writes {f₀ : Spm} {d : Dec} {f : Spm} (h : Clean f₀ d f) :
    writesSince f₀ f = (List.range ((dataOf d.lines).length / 128)).map fun k =>
      (128 * k % 65536, (List.range 128).map (pageOf (dataOf d.lines) k)) := by
  unfold writesSince pageWrites
  rw [newOps_log (by rw [h.flash]; exact program_log _ _ _), List.filterMap_flatMap, List.map_eq_flatMap]
  rfl

/-- **Bytes are kept**: those in pages and those that wait are the data of the records. -/
theorem Clean.bytes {f₀ : Spm} {d : Dec} {f : Spm} (h : Clean f₀ d f) :
    (writesSince f₀ f).flatMap Prod.snd ++ d.fifo = dataOf d.lines := by
  rw [h.writes, List.flatMap_map, pages_flatten _ _ (by omega), h.fifo, List.take_append_drop]

/-- **Addresses are kept** exactly up to 512 pages. -/
theorem Clean.addrs_iff {f₀ : Spm} {d : Dec} {f : Spm} (h : Clean f₀ d f) :
    (writesSince f₀ f).map Prod.fst = (List.range (d.writeAddr / 128)).map (128 * ·) ↔
      (dataOf d.lines).length < 65536 := by
  have haddr := h.addr
  rw [h.writes, List.map_map]
  refine ⟨fun he => ?_, fun hlt => ?_⟩
  · have := congrArg List.length he
    simp only [List.length_map, List.length_range] at this
    omega
  · have hp : d.writeAddr / 128 = (dataOf d.lines).length / 128 := by omega
    rw [hp]
    refine List.map_congr_left fun k hk => ?_
    have := List.mem_range.mp hk
    simp only [Function.comp]
    omega

/-- **What is kept** when `j` packages of a stream have come in: the records taken are those that have
    come in; the pages written, followed by the waiting bytes, are their data; what is unread is
    what has come in behind them but for the rest of a line end, fewer than 80 characters; and the
    pages were written once each, from address 0 to `g_writeAddr`. -/
structure Conserved (ls : List HexLine) (s : Ihex) (f : Spm) (j : Nat) : Prop where
  records : (ihexCalls (package (linesText ls)) (ihexInit s) f j).2.1.lines =
    (linesIn (512 * j) ls).map HexLine.text
  data : (writesSince f (ihexCalls (package (linesText ls)) (ihexInit s) f j).2.2).flatMap Prod.snd ++
      (ihexCalls (package (linesText ls)) (ihexInit s) f j).2.1.dec.fifo = linesData (linesIn (512 * j) ls)
  unread : ∃ before z, linesText (linesIn (512 * j) ls) = before ++ z ∧ z <:+ lastEnd (linesIn (512 * j) ls) ∧
    (linesText ls).take (512 * j) =
      before ++ (ihexCalls (package (linesText ls)) (ihexInit s) f j).2.1.dec.unread
  short : (ihexCalls (package (linesText ls)) (ihexInit s) f j).2.1.dec.unread.length < 80
  aligned : (ihexCalls (package (linesText ls)) (ihexInit s) f j).2.1.writeAddr % 128 = 0
  addrs : (writesSince f (ihexCalls (package (linesText ls)) (ihexInit s) f j).2.2).map Prod.fst =
    (List.range ((ihexCalls (package (linesText ls)) (ihexInit s) f j).2.1.writeAddr / 128)).map (128 * ·)

section Kept

variable {ls : List HexLine} (hls : ∀ l ∈ ls, l.WellFormed) (s : Ihex) (f : Spm) {j : Nat}
  (h0 : ZeroBefore (package (linesText ls)) s f j)

include h0

theorem ZeroBefore.clean : Clean f (decCalls (package (linesText ls)) (ihexInit s).dec f j).2.1
    (decCalls (package (linesText ls)) (ihexInit s).dec f j).2.2 :=
  decCalls_clean _ (clean_init s f) j fun i hi => by
    rw [← ihexCalls_answer]
    exact h0 i hi

include hls

/-- The data of the records taken. -/
theorem dataOf_linesIn : dataOf (decCalls (package (linesText ls)) (ihexInit s).dec f j).2.1.lines =
    linesData (linesIn (512 * j) ls) := by
  obtain ⟨ts, ms, z, h⟩ := stands_calls hls s f j h0
  have hc := h0.clean s f
  rw [h.linesIn_eq hls, h.taken, dataOf, linesData, List.flatMap_map]
  refine List.flatMap_congr fun l hl => ?_
  refine (hls l (by rw [h.split]; exact List.mem_append_left _ hl)).lineData (hc.noEnd _ ?_)
  rw [h.taken]
  exact List.mem_map_of_mem hl

/-- The addresses are kept exactly up to 65535 data bytes. -/
theorem addrs_iff : (writesSince f (ihexCalls (package (linesText ls)) (ihexInit s) f j).2.2).map Prod.fst =
      (List.range ((ihexCalls (package (linesText ls)) (ihexInit s) f j).2.1.writeAddr / 128)).map (128 * ·) ↔
    (linesData (linesIn (512 * j) ls)).length < 65536 := by
  have haddr : (ihexCalls (package (linesText ls)) (ihexInit s) f j).2.1.writeAddr = _ :=
    congrArg Dec.writeAddr (ihexCalls_decoder _ s f j)
  rw [haddr, ihexCalls_flash, ← dataOf_linesIn hls s f h0]
  exact (h0.clean s f).addrs_iff

end Kept

/-- **Conservation of decoded bytes**: for every stream of well-formed lines cut every 512 bytes, from
    `ihex_init` on and as long as every call has answered 0, everything is kept exactly if the records
    that have come in carry less than 65536 bytes. -/
theorem conserved_iff (ls : List HexLine) (hls : ∀ l ∈ ls, l.WellFormed) (s : Ihex) (f : Spm) (j : Nat)
    (h0 : ZeroBefore (package (linesText ls)) s f j) :
    Conserved ls s f j ↔ (linesData (linesIn (512 * j) ls)).length < 65536 := by
  refine ⟨fun h => (addrs_iff hls s f h0).mp h.addrs, fun hlt => ?_⟩
  obtain ⟨ts, ms, z, h⟩ := stands_calls hls s f j h0
  have hc := h0.clean s f
  have hin := h.linesIn_eq hls
  have haddr : (ihexCalls (package (linesText ls)) (ihexInit s) f j).2.1.writeAddr = _ :=
    congrArg Dec.writeAddr (ihexCalls_decoder _ s f j)
  refine ⟨?_, ?_, ?_, ?_, ?_, (addrs_iff hls s f h0).mpr hlt⟩
  · rw [ihexCalls_lines, hin]
    exact h.taken
  · rw [ihexCalls_flash, ihexCalls_decoder, hc.bytes, dataOf_linesIn hls s f h0]
  · rw [hin, ihexCalls_decoder]
    obtain ⟨before, hbefore⟩ := h.lineEnd.trans (lastEnd_suffix ts)
    refine ⟨before, z, hbefore.symm, h.lineEnd, ?_⟩
    -- the whole stream: taken, left of the line end, to come
    have htext : linesText ls = (before ++ (decCalls (package (linesText ls)) (ihexInit s).dec f j).2.1.unread) ++
        (linesText ls).drop (512 * j) := by
      rw [List.append_assoc, h.stream, ← List.append_assoc, hbefore, ← linesText_append, ← h.split]
    exact List.append_cancel_right ((List.take_append_drop (512 * j) _).trans htext)
  · rw [ihexCalls_decoder]
    exact h.unread_lt hls
  · rw [haddr, hc.addr]
    omega

/-- Two records of 16 bytes: 32 bytes wait. -/
theorem conserved_iff_two :
    Conserved (List.replicate 2 (hexLine 0 (vectors 4) [0x0A])) Ihex.zero erasedFlash 1 := by
  refine (conserved_iff _ (fun l hl => ?_) Ihex.zero erasedFlash 1 fun i hi => ?_).mpr (by decide +kernel)
  · rw [List.eq_of_mem_replicate hl]
    exact ⟨0, 0, Or.inl rfl, by decide, (hexLine_isDataText 0 (vectors 4) [0x0A]).hexText, Or.inl rfl⟩
  · rw [Nat.lt_one_iff.mp hi, ihexCalls_answer]
    decide +kernel

/-! ### A stream that comes round -/

/-- The lines of a file: its data records and its end record. -/
def HexFile.stream (h : HexFile) : List HexLine := h.lines ++ [⟨[], endText, h.tail⟩]

theorem HexFile.stream_text (h : HexFile) : linesText h.stream = h.text := by
  simp [HexFile.stream, HexFile.text]

theorem endText_isHexText : IsHexText 1 0 [] endText := by
  refine ⟨0xFF, endText.tail, rfl, ?_, by decide⟩
  have hdigits : endText.tail = [0, 0, 0, 1, 0xFF].flatMap hexDigits := by decide +kernel
  rw [hdigits]
  exact hexText_hexDigits _

theorem HexFile.stream_wellFormed (h : HexFile) (htail : IsEol h.tail) : ∀ l ∈ h.stream, l.WellFormed := by
  intro l hl
  rcases List.mem_append.mp hl with hl | hl
  · obtain ⟨addr, _, hle, ht, he⟩ := h.contiguous.ok l hl
    exact ⟨0, addr, Or.inl rfl, hle, ht.hexText, he⟩
  · rw [List.mem_singleton.mp hl]
    exact ⟨1, 0, Or.inr rfl, Nat.zero_le _, endText_isHexText, htail⟩

/-- **65536 bytes in records of 32**: 304 packages are answered 0 and 512 pages are written, and
    `g_writeAddr` is 0 again. -/
theorem HexFile.comesRound {h : HexFile} (hcount : h.lines.length = 2048)
    (h32 : ∀ l ∈ h.lines, l.data.length = 32 ∧ (l.text ++ l.eol).length = 76)
    (hvalid : validImage (padded h.image) = true) (htail : IsEol h.tail) (s : Ihex) (f : Spm) :
    ZeroBefore (package (linesText h.stream)) s f 304 ∧ ¬ Conserved h.stream s f 304 := by
  obtain ⟨htext, hdata⟩ := lines_32 h32
  rw [hcount] at htext hdata
  have hend : 304 ≤ h.endCall := by
    unfold HexFile.endCall HexFile.fileEnd
    rw [htext]
    decide
  have h0 : ZeroBefore (package (linesText h.stream)) s f 304 := by
    rw [h.stream_text]
    intro i hi
    rw [ihexCalls_answer]
    exact (waiting_calls hvalid (Nat.le_of_eq hdata) s f 304 hend).1 i hi
  refine ⟨h0, fun hkept => ?_⟩
  have hlt := (addrs_iff (h.stream_wellFormed htail) s f h0).mp hkept.addrs
  have hin : linesIn (512 * 304) h.stream = h.lines := by
    refine linesIn_append (fun l hl => ?_) _ _ (by omega) fun _ => ?_
    · rw [List.mem_singleton.mp hl]
      exact Nat.zero_lt_succ _
    · rw [htext]
      exact Nat.lt_add_of_pos_right (Nat.zero_lt_succ _)
  rw [hin, hdata] at hlt
  exact absurd hlt (by decide)

/-- 65536 bytes of jump vectors: 155648 characters and the end record. -/
def wrapFile : HexFile := HexFile.ofRecords (List.replicate 2048 (vectors 8)) fun d hd => by
  rw [List.eq_of_mem_replicate hd]
  decide

theorem wrapFile_lines : wrapFile.lines = hexLines [0x0A] 0 (List.replicate (2046 + 2) (vectors 8)) := rfl

/-- The stream of this file is well formed, and its pages are not written once each. -/
theorem wrapStream_doubles :
    (∀ l ∈ wrapFile.stream, l.WellFormed) ∧
      ZeroBefore (package (linesText wrapFile.stream)) Ihex.zero erasedFlash 304 ∧
      ¬ Conserved wrapFile.stream Ihex.zero erasedFlash 304 := by
  refine ⟨wrapFile.stream_wellFormed (Or.inl rfl), HexFile.comesRound ?_ ?_ ?_ (Or.inl rfl) Ihex.zero erasedFlash⟩
  · rw [wrapFile_lines, hexLines_length, List.length_replicate]
  · rw [wrapFile_lines]
    exact hexLines_text_length _ 0 fun d hd => by
      rw [List.eq_of_mem_replicate hd]
      rfl
  · rw [HexFile.image, wrapFile_lines, hexLines_data]
    exact vectors_valid 2046

end SmartHome.Bootloader
