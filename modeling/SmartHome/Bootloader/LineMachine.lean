/-
  Subject:   THE DECODER AS A MACHINE THAT EATS LINES.

  The nested loops of ihex.c walk two rings. What they do is simpler to say one line at a time,
  on lists: read a line off the unread bytes; a data record goes into the FIFO, a full FIFO page
  goes to the flash, the end record flushes what is left of a page -- but only if a data record
  was read since the last page (`pageLen`), everything else ends the call.

  * `Dec` -- unread bytes, waiting FIFO bytes, write address, lines taken; `Ihex.dec` reads it off
    the globals;
  * `readLine`, `nextLine` -- one line off a list, and the four things it can be;
  * `lineStep`, `decProcess` -- one line, one package;
  * **`lineStep_lt`** -- every line that goes on leaves less to read, so a call ends.

  That ihex.c is this machine, from every state with its positions in range, is shown in
  IhexLines.lean.
-/
import SmartHome.Lib.Loop
import SmartHome.Bootloader.Ihex

namespace SmartHome.Bootloader

open SmartHome.Lib

/-! ## 1. The machine -/

/-- The decoder's state, rings read as lists. -/
@[ext] structure Dec where
  unread : Bytes
  fifo : Bytes
  writeAddr : Nat
  lines : List Bytes

/-- The reading of the globals. -/
def Ihex.dec (s : Ihex) : Dec where
  unread := window 592 s.ringBuffer s.bufferTrail s.bufferHead
  fifo := window 256 s.pageFifo s.fifoTrail s.fifoHead
  writeAddr := s.writeAddr
  lines := s.lines

/-- One line off the unread bytes: result of `ihex_get_line`, line buffer, bytes left. -/
def readLine : Bytes → Bytes → Nat × Bytes × Bytes
  | line, [] => (line.length, line, [])
  | line, c :: cs =>
    if 0x30 ≤ c ∧ c ≤ 0x66 then
      if (line ++ [c]).length ≥ 80 then (255, line ++ [c], cs)
      else readLine (line ++ [c]) cs
    else if c = 0x0A then
      if line.length > 0 then (line.length, line, cs) else readLine line cs
    else if c = 0x0D then readLine line cs
    else (255, line, cs)

/-- A character `ihex_get_line` puts into the line. -/
def LineChar (c : UInt8) : Prop := 0x30 ≤ c ∧ c ≤ 0x66

/-- The data bytes of a taken line. -/
def recData (line : Bytes) : Bytes :=
  (List.range (lineByte line 1).toNat).map fun i => lineByte line (9 + 2 * i)

/-- The type of a taken line. -/
def recType (line : Bytes) : UInt8 := lineByte line 7

/-- The checksum the decoder computes for a data record. -/
def recSum (line : Bytes) : UInt8 :=
  (recData line).foldl (· + ·) (lineByte line 1 + lineByte line 3 + lineByte line 5) +
    lineByte line (9 + 2 * (lineByte line 1).toNat)

/-- What the next line is: nothing, no record, a record that is not all there, a record. -/
inductive NextLine where
  | blank
  | bad
  | incomplete
  | record (line rest : Bytes)

/-- The tests `ihex_get_page` makes before it takes a line. -/
def nextLine (unread : Bytes) : NextLine :=
  let r := readLine [] unread
  if r.1 = 0 then .blank
  else if r.1 > 80 then .bad
  else if r.2.1.getD 0 0 ≠ 0x3A then .bad
  else if r.1 < 11 ∨ (lineByte r.2.1 1).toNat * 2 + 11 ≠ r.1 then .incomplete
  else .record r.2.1 r.2.2

/-- Between two lines: the decoder, the flash, and the locals `page_len` and `err_code`. -/
structure Pending where
  d : Dec
  f : Spm
  pageLen : Nat
  err : HexErr

/-- A call's result: the answer, the decoder, the flash. -/
abbrev Answer := Int × Dec × Spm

/-- The decoder after it took a line. -/
def Dec.take (d : Dec) (line rest : Bytes) : Dec :=
  { d with unread := rest, lines := d.lines ++ [line] }

/-- The decoder after `data` went into the FIFO. -/
def Dec.push (d : Dec) (data : Bytes) : Dec := { d with fifo := pushList 256 d.fifo data }

/-- The decoder after `n` bytes left the FIFO. -/
def Dec.drop (d : Dec) (n : Nat) : Dec := { d with fifo := d.fifo.drop n }

/-- The first `n` FIFO bytes as a page is refused: first page, and no image. -/
def Dec.refused (d : Dec) (n : Nat) : Prop :=
  d.writeAddr = 0 ∧ validImage (padded (d.fifo.take n)) = false

instance (d : Dec) (n : Nat) : Decidable (d.refused n) := inferInstanceAs (Decidable (_ ∧ _))

/-- The first `n` FIFO bytes, written as a page. -/
def Dec.flash (d : Dec) (n : Nat) (f : Spm) : Spm := flashPage d.writeAddr (padded (d.fifo.take n)) f

/-- A data record. -/
def dataStep (d : Dec) (f : Spm) (line : Bytes) : Answer ⊕ Pending :=
  let d := d.push (recData line)
  if recSum line ≠ 0 then .inl (-2, d, f)
  else if d.fifo.length < 128 then .inr ⟨d, f, d.fifo.length, .none⟩
  else if d.refused 128 then .inl (-1, d.drop 128, f)
  else .inr ⟨{ d.drop 128 with writeAddr := (d.writeAddr + 128) % 65536 }, d.flash 128 f, 0, .empty⟩

/-- The end record. -/
def endStep (d : Dec) (f : Spm) (pageLen : Nat) : Answer :=
  if pageLen = 0 then (-2, d, f)
  else if d.refused pageLen then (-1, d.drop pageLen, f)
  else (1, d.drop pageLen, d.flash pageLen f)

/-- One line. -/
def lineStep (p : Pending) : Answer ⊕ Pending :=
  match nextLine p.d.unread with
  | .blank => .inl (if p.pageLen > 0 ∨ p.err = .empty then 0 else -2, p.d, p.f)
  | .bad => .inl (-2, p.d, p.f)
  | .incomplete => .inl (0, p.d, p.f)
  | .record line rest =>
    let d := p.d.take line rest
    if recType line = 0x00 then dataStep d p.f line
    else if recType line = 0x01 then .inl (endStep d p.f p.pageLen)
    else .inr ⟨d, p.f, p.pageLen, .none⟩

/-- The lines of one call. -/
def lineLoop (n : Nat) (p : Pending) : Answer := loop lineStep (fun p => (0, p.d, p.f)) n p

/-- The decoder after `package` went into the ring. -/
def Dec.feed (d : Dec) (package : Bytes) : Dec :=
  { d with unread := pushList 592 d.unread package }

/-- **One package.** -/
def decProcess (d : Dec) (f : Spm) (package : Bytes) : Answer :=
  lineLoop ((d.feed package).unread.length + 1) ⟨d.feed package, f, 0, .empty⟩

/-! ## 2. A taken line shortens the unread bytes -/

theorem readLine_length : ∀ (u line : Bytes),
    (readLine line u).2.1.length + (readLine line u).2.2.length ≤ line.length + u.length
  | [], line => by simp [readLine]
  | c :: cs, line => by
    unfold readLine
    split
    · split
      · simp; omega
      · have ih := readLine_length cs (line ++ [c])
        simp only [List.length_append, List.length_cons, List.length_nil] at ih ⊢
        omega
    · split
      · split
        · simp
        · have ih := readLine_length cs line
          simp only [List.length_cons]
          omega
      · split
        · have ih := readLine_length cs line
          simp only [List.length_cons]
          omega
        · simp

/-- A line that is not refused is as long as `ihex_get_line` says. -/
theorem readLine_lineLen : ∀ (u line : Bytes), (readLine line u).1 ≤ 80 →
    (readLine line u).1 = (readLine line u).2.1.length
  | [], line, _ => by simp [readLine]
  | c :: cs, line, h => by
    unfold readLine at h ⊢
    split at h
    · rename_i hc
      rw [if_pos hc]
      split at h
      · simp at h
      · rename_i hl
        rw [if_neg hl]
        exact readLine_lineLen cs _ h
    · rename_i hc
      rw [if_neg hc]
      split at h
      · rename_i hn
        rw [if_pos hn]
        split at h
        · rename_i hl
          rw [if_pos hl]
        · rename_i hl
          rw [if_neg hl]
          exact readLine_lineLen cs _ h
      · rename_i hn
        rw [if_neg hn]
        split at h
        · rename_i hr
          rw [if_pos hr]
          exact readLine_lineLen cs _ h
        · simp at h

/-- A line has line characters only. -/
theorem readLine_lineChar : ∀ (u line : Bytes), (∀ c ∈ line, LineChar c) →
    ∀ c ∈ (readLine line u).2.1, LineChar c
  | [], line, h => h
  | x :: cs, line, h => by
    unfold readLine
    split
    · rename_i hx
      have h' : ∀ c ∈ line ++ [x], LineChar c := by
        intro c hc
        rcases List.mem_append.mp hc with hc | hc
        · exact h c hc
        · rw [List.mem_singleton.mp hc]
          exact hx
      split
      · exact h'
      · exact readLine_lineChar cs _ h'
    · split
      · split
        · exact h
        · exact readLine_lineChar cs _ h
      · split
        · exact readLine_lineChar cs _ h
        · exact h

/-- What a taken line is. -/
theorem nextLine_record {u line rest : Bytes} (h : nextLine u = .record line rest) :
    readLine [] u = (line.length, line, rest) ∧ line.length ≤ 80 ∧ 11 ≤ line.length ∧
      line.getD 0 0 = 0x3A ∧ (lineByte line 1).toNat * 2 + 11 = line.length := by
  unfold nextLine at h
  simp only at h
  split at h
  · cases h
  · split at h
    · cases h
    · split at h
      · cases h
      · split at h
        · cases h
        · rename_i h0 h80 hcol hlen
          simp only [NextLine.record.injEq] at h
          obtain ⟨rfl, rfl⟩ := h
          have e := readLine_lineLen u [] (by omega)
          refine ⟨?_, ?_, ?_, ?_, ?_⟩
          · rw [← e]
          · omega
          · omega
          · simpa using hcol
          · omega

theorem nextLine_rest_lt {u line rest : Bytes} (h : nextLine u = .record line rest) :
    rest.length < u.length := by
  obtain ⟨hr, _, h11, _, _⟩ := nextLine_record h
  have := readLine_length u []
  rw [hr] at this
  simp only [List.length_nil, Nat.zero_add] at this
  omega

/-- The FIFO stays as it is but for the push. -/
@[simp] theorem dec_take_unread (d : Dec) (line rest : Bytes) : (d.take line rest).unread = rest := rfl
@[simp] theorem dec_take_fifo (d : Dec) (line rest : Bytes) : (d.take line rest).fifo = d.fifo := rfl
@[simp] theorem dec_take_writeAddr (d : Dec) (line rest : Bytes) :
    (d.take line rest).writeAddr = d.writeAddr := rfl
@[simp] theorem dec_take_lines (d : Dec) (line rest : Bytes) :
    (d.take line rest).lines = d.lines ++ [line] := rfl
@[simp] theorem dec_push_unread (d : Dec) (x : Bytes) : (d.push x).unread = d.unread := rfl
@[simp] theorem dec_push_fifo (d : Dec) (x : Bytes) : (d.push x).fifo = pushList 256 d.fifo x := rfl
@[simp] theorem dec_push_writeAddr (d : Dec) (x : Bytes) : (d.push x).writeAddr = d.writeAddr := rfl
@[simp] theorem dec_push_lines (d : Dec) (x : Bytes) : (d.push x).lines = d.lines := rfl
@[simp] theorem dec_drop_unread (d : Dec) (n : Nat) : (d.drop n).unread = d.unread := rfl
@[simp] theorem dec_drop_fifo (d : Dec) (n : Nat) : (d.drop n).fifo = d.fifo.drop n := rfl
@[simp] theorem dec_drop_writeAddr (d : Dec) (n : Nat) : (d.drop n).writeAddr = d.writeAddr := rfl
@[simp] theorem dec_drop_lines (d : Dec) (n : Nat) : (d.drop n).lines = d.lines := rfl
@[simp] theorem dec_feed_fifo (d : Dec) (p : Bytes) : (d.feed p).fifo = d.fifo := rfl
@[simp] theorem dec_feed_writeAddr (d : Dec) (p : Bytes) : (d.feed p).writeAddr = d.writeAddr := rfl
@[simp] theorem dec_feed_lines (d : Dec) (p : Bytes) : (d.feed p).lines = d.lines := rfl

/-- Every line that goes on leaves fewer unread bytes. -/
theorem lineStep_lt {p p' : Pending} (h : lineStep p = .inr p') :
    p'.d.unread.length < p.d.unread.length := by
  unfold lineStep at h
  split at h
  · cases h
  · cases h
  · cases h
  · rename_i line rest hn
    have hlt := nextLine_rest_lt hn
    simp only at h
    split at h
    · unfold dataStep at h
      simp only at h
      split at h
      · cases h
      · split at h
        · cases h
          exact hlt
        · split at h
          · cases h
          · cases h
            exact hlt
    · split at h
      · cases h
      · cases h
        exact hlt

end SmartHome.Bootloader
