/-
  Subject:   THE HEX DECODER, AS ihex.c COMPUTES IT.

  `Ihex` holds the globals of ihex.c: the input ring with its three positions, the page FIFO and
  the write address. Two things are not in the source: the memories are functions on all indices
  (the positions stay inside the arrays, `InRange`), and `lines` records every line the decoder
  has taken (`ihex_line_take`) since `ihex_init`, oldest first.

  * `ihexPushBack`, `ihexGetLine`, `ihexGetPage`, `ihexPackageProcess` -- the functions of the
    source, loops as recursions on a bound that the source's own exit condition meets first;
  * `HexErr` -- the error codes of ihex.h.

  Numerals: 592 is `RING_BUFFER_LEN`, 256 `PAGE_FIFO_LEN`, 128 `SPM_PAGESIZE`,
  80 `HEX_LINE_MAX_LEN`, 255 `HEX_READ_LINE_ERR`. The bootloader is built with
  `-funsigned-char`, so a `char` is a `UInt8`.
-/
import SmartHome.Lib.Ring
import SmartHome.Bootloader.Spm

namespace SmartHome.Bootloader

open SmartHome.Lib

/-! ## 1. State -/

/-- The globals of ihex.c, and the lines taken so far. -/
structure Ihex where
  ringBuffer : Nat → UInt8
  bufferHead : Nat
  bufferTrail : Nat
  readTrail : Nat
  pageFifo : Nat → UInt8
  fifoHead : Nat
  fifoTrail : Nat
  writeAddr : Nat
  lines : List Bytes

/-- The globals as the C runtime clears them before `main`. -/
def Ihex.zero : Ihex where
  ringBuffer _ := 0
  bufferHead := 0
  bufferTrail := 0
  readTrail := 0
  pageFifo _ := 0
  fifoHead := 0
  fifoTrail := 0
  writeAddr := 0
  lines := []

/-- The error codes of ihex.h. -/
inductive HexErr where
  | fileEnd
  | none
  | format
  | check
  | line
  | empty
  deriving DecidableEq, Repr

/-- The numbers of ihex.h. -/
def HexErr.code : HexErr → Int
  | .fileEnd => 1
  | .none => 0
  | .format => -1
  | .check => -2
  | .line => -3
  | .empty => -4

/-- `ihex_init`: the ring and FIFO memories keep their bytes. -/
def ihexInit (s : Ihex) : Ihex :=
  { s with bufferHead := 0, bufferTrail := 0, fifoHead := 0, fifoTrail := 0, writeAddr := 0, lines := [] }

/-! ## 2. The input ring -/

/-- One round of the loop of `ihex_push_back`. -/
def ihexPushByte (s : Ihex) (b : UInt8) : Ihex :=
  { s with
    ringBuffer := Function.update s.ringBuffer s.bufferHead b
    bufferHead := next 592 s.bufferHead }

/-- `ihex_push_back`. -/
def ihexPushBack (s : Ihex) (newData : Bytes) : Ihex := newData.foldl ihexPushByte s

/-! ## 3. Digits -/

/-- `xtod`: -1 for a character that is no hex digit. -/
def xtod (x : UInt8) : Int8 :=
  if 0x30 ≤ x ∧ x ≤ 0x39 then (x - 0x30).toInt8
  else if 0x41 ≤ x ∧ x ≤ 0x46 then (x - 0x41 + 10).toInt8
  else if 0x61 ≤ x ∧ x ≤ 0x66 then (x - 0x61 + 10).toInt8
  else -1

/-- `_ascii2bin`. -/
def ascii2bin (h l : UInt8) : UInt8 := (xtod h).toUInt8 <<< 4 ||| (xtod l).toUInt8

/-! ## 4. One line -/

/-- What `ihex_get_line` leaves: its result, the bytes in `line_buffer` and `g_read_trail`. -/
structure LineRead where
  lineLen : Nat
  line : Bytes
  readTrail : Nat

/-- The loop of `ihex_get_line`. The bound is the number of unread bytes, so it reaches 0 exactly
    when `g_read_trail` meets `g_buffer_head`. -/
def ihexGetLineLoop (ring : Nat → UInt8) (head : Nat) : Nat → Nat → Bytes → LineRead
  | 0, readTrail, line => ⟨line.length, line, readTrail⟩
  | n + 1, readTrail, line =>
    if readTrail = head then ⟨line.length, line, readTrail⟩
    else
      let c := ring readTrail
      let readTrail := next 592 readTrail
      if 0x30 ≤ c ∧ c ≤ 0x66 then
        let line := line ++ [c]
        if line.length ≥ 80 then ⟨255, line, readTrail⟩
        else ihexGetLineLoop ring head n readTrail line
      else if c = 0x0A then
        if line.length > 0 then ⟨line.length, line, readTrail⟩
        else ihexGetLineLoop ring head n readTrail line
      else if c = 0x0D then ihexGetLineLoop ring head n readTrail line
      else ⟨255, line, readTrail⟩

/-- `ihex_get_line`. -/
def ihexGetLine (s : Ihex) : LineRead :=
  ihexGetLineLoop s.ringBuffer s.bufferHead (held 592 s.readTrail s.bufferHead) s.readTrail []

/-- `ihex_line_take`; the taken line goes into the record of lines. -/
def ihexLineTake (s : Ihex) (line : Bytes) : Ihex :=
  { s with bufferTrail := s.readTrail, lines := s.lines ++ [line] }

/-! ## 5. One page -/

/-- The byte two characters of the line buffer stand for. Where the line is shorter the buffer
    holds whatever stood there before; the source reads such a place only for the length of a
    line under three characters, and then discards the value (`line_len < 11`). -/
def lineByte (line : Bytes) (j : Nat) : UInt8 := ascii2bin (line.getD j 0) (line.getD (j + 1) 0)

/-- `g_page_fifo[g_fifo_head++] = d; g_fifo_head %= PAGE_FIFO_LEN`. -/
def ihexFifoPush (s : Ihex) (d : UInt8) : Ihex :=
  { s with
    pageFifo := Function.update s.pageFifo s.fifoHead d
    fifoHead := (s.fifoHead + 1) % 256 }

/-- The data loop of `ihex_get_page`, `n` rounds from `j` on: the FIFO and the checksum. -/
def ihexDataLoop (line : Bytes) : Nat → Nat → Ihex → UInt8 → Ihex × UInt8
  | 0, _, s, checksum => (s, checksum)
  | n + 1, j, s, checksum =>
    let d := lineByte line j
    ihexDataLoop line n (j + 2) (ihexFifoPush s d) (checksum + d)

/-- What the `while` loop of `ihex_get_page` leaves. -/
structure PageLoop where
  s : Ihex
  lineLen : Nat
  pageLen : Nat
  err : HexErr

/-- The `while` loop of `ihex_get_page`. Every round that goes on has taken a line, so the number
    of unread bytes bounds the rounds; without unread bytes `ihex_get_line` answers 0. -/
def ihexGetPageLoop : Nat → Ihex → Nat → HexErr → PageLoop
  | 0, s, pageLen, err => ⟨s, 0, pageLen, err⟩
  | n + 1, s, pageLen, err =>
    let r := ihexGetLine s
    let s := { s with readTrail := r.readTrail }
    if r.lineLen = 0 then ⟨s, 0, pageLen, err⟩
    else if r.lineLen > 80 then ⟨s, r.lineLen, pageLen, .format⟩
    else if r.line.getD 0 0 ≠ 0x3A then ⟨s, r.lineLen, pageLen, .format⟩
    else
      let len := lineByte r.line 1
      if r.lineLen < 11 ∨ len.toNat * 2 + 11 ≠ r.lineLen then ⟨s, r.lineLen, pageLen, .line⟩
      else
        let s := ihexLineTake s r.line
        let type := lineByte r.line 7
        if type = 0x00 then
          let addrH := lineByte r.line 3
          let addrL := lineByte r.line 5
          let d := ihexDataLoop r.line len.toNat 9 s (len + addrH + addrL)
          if d.2 + lineByte r.line (9 + 2 * len.toNat) ≠ 0x00 then ⟨d.1, r.lineLen, pageLen, .check⟩
          else
            let pageLen := (d.1.fifoHead + 256 - d.1.fifoTrail) % 256
            if pageLen ≥ 128 then ⟨d.1, r.lineLen, pageLen, .none⟩
            else ihexGetPageLoop n d.1 pageLen .none
        else if type = 0x01 then ⟨s, r.lineLen, pageLen, .fileEnd⟩
        else ihexGetPageLoop n s pageLen .none

/-- The loop that moves `n` bytes out of the FIFO. -/
def ihexFifoTake : Nat → Ihex → Bytes × Ihex
  | 0, s => ([], s)
  | n + 1, s =>
    let b := s.pageFifo s.fifoTrail
    let r := ihexFifoTake n { s with fifoTrail := (s.fifoTrail + 1) % 256 }
    (b :: r.1, r.2)

/-- What `ihex_get_page` leaves: the page bytes (their number is its result), the error code and
    the globals. -/
structure PageRead where
  page : Bytes
  err : HexErr
  s : Ihex

/-- `ihex_get_page`. -/
def ihexGetPage (s : Ihex) : PageRead :=
  let s := { s with readTrail := s.bufferTrail }
  let r := ihexGetPageLoop (held 592 s.bufferTrail s.bufferHead) s 0 .empty
  let err := if r.lineLen = 0 ∧ r.pageLen > 0 then HexErr.line else r.err
  if err.code ≥ HexErr.code .none then
    let p := ihexFifoTake (if r.pageLen > 128 then 128 else r.pageLen) r.s
    ⟨p.1, err, p.2⟩
  else ⟨[], err, r.s⟩

/-! ## 6. One package -/

/-- The page buffer: 0xFF where `ihex_get_page` wrote nothing. -/
def padded (page : Bytes) (i : Nat) : UInt8 := page.getD i 0xFF

/-- The `do ... while` loop of `ihex_package_process`: result, globals, flash. A round that goes
    on has taken at least one line, so one round more than there are unread bytes suffices. -/
def ihexPackageLoop : Nat → Ihex → Spm → Int × Ihex × Spm
  | 0, s, f => (0, s, f)
  | n + 1, s, f =>
    let r := ihexGetPage s
    if r.page.length > 0 then
      if r.s.writeAddr = 0 ∧ validImage (padded r.page) = false then (-1, r.s, f)
      else
        let f := flashPage r.s.writeAddr (padded r.page) f
        if r.err = .fileEnd then (1, r.s, f)
        else ihexPackageLoop n { r.s with writeAddr := (r.s.writeAddr + r.page.length) % 65536 } f
    else if r.err = .line ∨ r.err = .empty then (0, r.s, f)
    else (-2, r.s, f)

/-- `ihex_package_process`. -/
def ihexPackageProcess (s : Ihex) (f : Spm) (package : Bytes) : Int × Ihex × Spm :=
  let s := ihexPushBack s package
  ihexPackageLoop (held 592 s.bufferTrail s.bufferHead + 1) s f

/-! ## 7. The positions stay inside the arrays -/

/-- All positions of the ring and the FIFO are inside their arrays. -/
structure InRange (s : Ihex) : Prop where
  head : s.bufferHead < 592
  trail : s.bufferTrail < 592
  fifoHead : s.fifoHead < 256
  fifoTrail : s.fifoTrail < 256

theorem inRange_zero : InRange Ihex.zero := ⟨by decide, by decide, by decide, by decide⟩

theorem inRange_init (s : Ihex) : InRange (ihexInit s) :=
  ⟨Nat.zero_lt_succ _, Nat.zero_lt_succ _, Nat.zero_lt_succ _, Nat.zero_lt_succ _⟩

end SmartHome.Bootloader
