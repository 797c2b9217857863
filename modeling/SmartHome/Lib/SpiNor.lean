/-
  Subject:   A SERIAL NOR FLASH as its host sees it: a select line, and a byte out for every byte in. Nothing here
             names a program.

  The bytes between a falling and a rising select line are one instruction. What it answers depends on the bytes
  before; what it changes is carried out when the line rises. To change anything the chip has to have been enabled
  and must not be busy; it then is, for as many looks at its status as it likes, and answers nothing else.

  * `SpiNor` -- the chip; `select`, `deselect`, `shift`, `send`, `receive` -- the host's moves;
  * `execute`, `answer` -- the instructions: status, write enable, read, page program, sector erase, and the same for
    the security registers;
  * `SpiNor.send_selected`, `SpiNor.receive_selected` -- the moves while the chip is selected;
  * **`programPage_eq`** -- a page that begins where a page does is programmed as `program` says.
-/
import Mathlib.Data.List.GetD
import Mathlib.Logic.Function.Basic
import SmartHome.Lib.NorFlash

namespace SmartHome.Lib

/-! ## 1. The chip -/

/-- The instructions. -/
inductive SpiOp where
  | readStatus
  | writeEnable
  | readData
  | pageProgram
  | sectorErase
  | readRegister
  | programRegister
  | eraseRegister
  deriving DecidableEq

/-- By their first byte. -/
def SpiOp.ofByte (b : UInt8) : Option SpiOp :=
  if b = 0x05 then some .readStatus
  else if b = 0x06 then some .writeEnable
  else if b = 0x03 then some .readData
  else if b = 0x02 then some .pageProgram
  else if b = 0x20 then some .sectorErase
  else if b = 0x48 then some .readRegister
  else if b = 0x42 then some .programRegister
  else if b = 0x44 then some .eraseRegister
  else none

/-- What a part is built for: its size, and how many looks at the status find it busy after the `n`-th change. -/
structure SpiPart where
  size : Nat
  latency : Nat → Nat

/-- A chip: the cells, the security registers, the write enable latch, the looks at its status that will still find
    it busy, the changes begun so far, and the bytes since it was selected. -/
structure SpiNor where
  mem : Nat → UInt8
  registers : Nat → Nat → UInt8
  wel : Bool
  busy : Nat
  changes : Nat
  shifted : Option (List UInt8)

/-- Three bytes of an address. -/
def address24 (a b d : UInt8) : Nat := a.toNat * 65536 + b.toNat * 256 + d.toNat

/-- The page buffer: bytes from `i` on, which wrap at its end; the last one for a place stays. -/
def latch : (Nat → UInt8) → Nat → List UInt8 → Nat → UInt8
  | buf, _, [] => buf
  | buf, i, b :: bs => latch (Function.update buf (i % 256) b) (i + 1) bs

/-- The page `addr` is in, programmed with the page buffer. -/
def programPage (size : Nat) (m : Nat → UInt8) (addr : Nat) (data : List UInt8) : Nat → UInt8 := fun a =>
  if a / 256 = addr % size / 256 then m a &&& latch (fun _ => 0xFF) addr data (a % 256) else m a

/-- A register, programmed with the page buffer. -/
def programRegister (r : Nat → UInt8) (addr : Nat) (data : List UInt8) : Nat → UInt8 := fun a =>
  r a &&& latch (fun _ => 0xFF) addr data a

namespace SpiNor

/-- The chip begins a change. -/
def change (p : SpiPart) (c : SpiNor) (mem : Nat → UInt8) (registers : Nat → Nat → UInt8) : SpiNor :=
  { c with mem := mem, registers := registers, wel := false, busy := p.latency c.changes, changes := c.changes + 1 }

/-- A change is accepted. -/
def Writable (c : SpiNor) : Prop := c.busy = 0 ∧ c.wel = true

instance (c : SpiNor) : Decidable c.Writable := inferInstanceAs (Decidable (_ ∧ _))

/-- What an instruction changes, by its kind and its other bytes. -/
def carryOut (p : SpiPart) (c : SpiNor) : SpiOp → List UInt8 → SpiNor
  -- time passes between two looks at the status
  | .readStatus, _ => { c with busy := c.busy - 1 }
  | .writeEnable, [] => if c.busy = 0 then { c with wel := true } else c
  | .pageProgram, a :: b :: d :: x :: data =>
    if c.Writable then c.change p (programPage p.size c.mem (address24 a b d) (x :: data)) c.registers else c
  | .sectorErase, [a, b, d] =>
    if c.Writable then
      c.change p (fun x => if x / 4096 = address24 a b d % p.size / 4096 then 0xFF else c.mem x) c.registers
    else c
  | .programRegister, a :: b :: d :: x :: data =>
    if c.Writable then
      c.change p c.mem (Function.update c.registers (address24 a b d / 4096)
        (programRegister (c.registers (address24 a b d / 4096)) (address24 a b d) (x :: data)))
    else c
  | .eraseRegister, [a, b, d] =>
    if c.Writable then c.change p c.mem (Function.update c.registers (address24 a b d / 4096) fun _ => 0xFF) else c
  | _, _ => c

/-- What the bytes between two edges of the select line change. -/
def execute (p : SpiPart) (c : SpiNor) : List UInt8 → SpiNor
  | [] => c
  | b :: rest =>
    match SpiOp.ofByte b with
    | none => c
    | some op => c.carryOut p op rest

/-- The status register: busy in bit 0, the write enable latch in bit 1. -/
def status (c : SpiNor) : UInt8 := (if c.busy = 0 then 0 else 1) ||| (if c.wel then 2 else 0)

/-- The byte that comes out after these bytes of an instruction; the line floats high when the chip says nothing. -/
def answer (p : SpiPart) (c : SpiNor) : List UInt8 → UInt8
  | [] => 0xFF
  | op :: rest =>
    match SpiOp.ofByte op, rest with
    | some .readStatus, _ => c.status
    | some .readData, a :: b :: d :: more =>
      if c.busy = 0 then c.mem ((address24 a b d + more.length) % p.size) else 0xFF
    | some .readRegister, a :: b :: d :: _ :: more =>
      if c.busy = 0 then c.registers (address24 a b d / 4096) ((address24 a b d + more.length) % 256) else 0xFF
    | _, _ => 0xFF

/-! ## 2. The host's moves -/

/-- The select line falls. -/
def select (c : SpiNor) : SpiNor := if c.shifted = none then { c with shifted := some [] } else c

/-- The select line rises. -/
def deselect (p : SpiPart) (c : SpiNor) : SpiNor :=
  match c.shifted with
  | none => c
  | some bs => { c with shifted := none }.execute p bs

/-- A byte goes in, and one comes out. -/
def shift (p : SpiPart) (b : UInt8) (c : SpiNor) : UInt8 × SpiNor :=
  match c.shifted with
  | none => (0xFF, c)
  | some bs => (c.answer p bs, { c with shifted := some (bs ++ [b]) })

/-- Bytes go in, what comes out is not looked at. -/
def send (p : SpiPart) : List UInt8 → SpiNor → SpiNor
  | [], c => c
  | b :: bs, c => send p bs (c.shift p b).2

/-- Zeros go in, what comes out is kept. -/
def receive (p : SpiPart) : Nat → SpiNor → List UInt8 × SpiNor
  | 0, c => ([], c)
  | n + 1, c =>
    let r := c.shift p 0
    let rest := receive p n r.2
    (r.1 :: rest.1, rest.2)

/-- Nothing is going on: the chip is not selected and not busy. -/
structure Idle (c : SpiNor) : Prop where
  free : c.busy = 0
  released : c.shifted = none

section Moves

variable (p : SpiPart) (c : SpiNor)

theorem select_released (h : c.shifted = none) : c.select = { c with shifted := some [] } := if_pos h

theorem deselect_selected {bs : List UInt8} (h : c.shifted = some bs) :
    c.deselect p = { c with shifted := none }.execute p bs := by
  unfold deselect
  rw [h]

theorem shift_selected {bs : List UInt8} (h : c.shifted = some bs) (b : UInt8) :
    c.shift p b = (c.answer p bs, { c with shifted := some (bs ++ [b]) }) := by
  unfold shift
  rw [h]

variable {c}

theorem send_selected {bs : List UInt8} (h : c.shifted = some bs) (xs : List UInt8) :
    send p xs c = { c with shifted := some (bs ++ xs) } := by
  induction xs generalizing c bs with
  | nil =>
    rw [List.append_nil, ← h]
    rfl
  | cons x xs ih =>
    rw [send, shift_selected p c h, ih rfl, List.append_assoc, List.singleton_append]

/-- The bytes after the line has fallen are the instruction. -/
theorem send_select (h : c.shifted = none) (xs : List UInt8) : send p xs c.select = { c with shifted := some xs } := by
  have hselected : shifted { c with shifted := some [] } = some [] := rfl
  rw [select_released c h, send_selected p hselected, List.nil_append]

/-- What is received is what the chip answers to a growing instruction. -/
theorem receive_selected {bs : List UInt8} (h : c.shifted = some bs) (n : Nat) :
    receive p n c = ((List.range n).map fun i => c.answer p (bs ++ List.replicate i 0),
      { c with shifted := some (bs ++ List.replicate n 0) }) := by
  induction n generalizing c bs with
  | zero =>
    rw [List.replicate_zero, List.append_nil, ← h]
    rfl
  | succ n ih =>
    have hgrow : ∀ i, bs ++ [0] ++ List.replicate i 0 = bs ++ List.replicate (i + 1) (0 : UInt8) := fun i => by
      rw [List.append_assoc, List.singleton_append, List.replicate_succ]
    have hrest := ih (c := { c with shifted := some (bs ++ [0]) }) rfl
    simp only [hgrow] at hrest
    simp only [receive, shift_selected p c h, hrest, List.range_succ_eq_map, List.map_cons, List.map_map,
      List.replicate_zero, List.append_nil]
    rfl

theorem send_append (as bs : List UInt8) : send p (as ++ bs) c = send p bs (send p as c) := by
  induction as generalizing c with
  | nil => rfl
  | cons a as ih => exact ih

/-- Carrying out an instruction does not touch the line. -/
theorem execute_shifted (bs : List UInt8) : (c.execute p bs).shifted = c.shifted := by
  have hop : ∀ op rest, (c.carryOut p op rest).shifted = c.shifted := by
    intro op rest
    unfold carryOut change
    split <;> (try split) <;> rfl
  unfold execute
  split
  · rfl
  · split
    · rfl
    · exact hop _ _

/-- **A busy chip carries out nothing** but a look at its status. -/
theorem execute_busy (h : c.busy ≠ 0) {b : UInt8} {op : SpiOp} (hb : SpiOp.ofByte b = some op) (hop : op ≠ .readStatus)
    (rest : List UInt8) : c.execute p (b :: rest) = c := by
  have hw : ¬ c.Writable := fun hw => h hw.1
  rw [execute, hb]
  simp only [carryOut]
  split
  · exact absurd rfl hop
  all_goals first | rfl | exact if_neg hw | exact if_neg h

theorem status_busy : c.status &&& 1 = 0 ↔ c.busy = 0 := by
  unfold status
  by_cases h : c.busy = 0
  · rw [if_pos h]
    refine iff_of_true ?_ h
    cases c.wel <;> decide
  · rw [if_neg h]
    refine iff_of_false ?_ h
    cases c.wel <;> decide

end Moves

end SpiNor

/-! ## 3. Programming from the page buffer -/

/-- Without a wrap the page buffer holds the bytes at their places. -/
theorem latch_eq {buf : Nat → UInt8} {i : Nat} {bs : List UInt8} (h : i + bs.length ≤ 256) (j : Nat) :
    latch buf i bs j = if i ≤ j then bs.getD (j - i) (buf j) else buf j := by
  induction bs generalizing buf i with
  | nil => rw [latch, List.getD_nil, ite_self]
  | cons b bs ih =>
    rw [List.length_cons] at h
    rw [latch, ih (by omega), Nat.mod_eq_of_lt (by omega)]
    by_cases hj : j = i
    · rw [if_neg (by omega), if_pos (by omega), hj, Function.update_self, Nat.sub_self, List.getD_cons_zero]
    · rw [Function.update_of_ne hj]
      by_cases hlt : i < j
      · rw [if_pos (by omega), if_pos (by omega), show j - i = j - (i + 1) + 1 by omega, List.getD_cons_succ]
      · rw [if_neg (by omega), if_neg (by omega)]

theorem latch_page {addr : Nat} (haddr : addr % 256 = 0) {bs : List UInt8} (h : bs.length ≤ 256) (j : Nat) :
    latch (fun _ => 0xFF) addr bs j = bs.getD j 0xFF := by
  have hmod : ∀ (buf : Nat → UInt8) (i i' : Nat), i % 256 = i' % 256 → latch buf i bs = latch buf i' bs := by
    clear h
    induction bs with
    | nil => exact fun _ _ _ _ => rfl
    | cons b bs ih =>
      intro buf i i' hi
      rw [latch, latch, hi, ih _ (i + 1) (i' + 1) (by omega)]
  rw [hmod _ addr 0 haddr, latch_eq (by omega), if_pos (Nat.zero_le j), Nat.sub_zero]

/-- A byte is known by the bytes under it. -/
theorem eq_of_under {x y : UInt8} (h : ∀ b, Under b x ↔ Under b y) : x = y :=
  Under.antisymm ((h x).1 (Under.refl x)) ((h y).2 (Under.refl y))

theorem under_full (b : UInt8) : Under b 0xFF := UInt8.and_neg_one

/-- **A page that begins where a page does** is programmed byte after byte. -/
theorem programPage_eq {size : Nat} (h256 : 256 ∣ size) (hsize : 0 < size) (m : Nat → UInt8) {addr : Nat}
    (haddr : addr % 256 = 0) {data : List UInt8} (hlen : data.length ≤ 256) :
    programPage size m addr data = program size m addr data := by
  funext a
  refine eq_of_under fun b => ?_
  obtain ⟨k, hk⟩ := h256
  obtain ⟨q, hq⟩ : ∃ q, addr % size = 256 * q := by
    refine ⟨addr % size / 256, ?_⟩
    have : addr % size % 256 = 0 := by rw [hk, Nat.mod_mul_right_mod, haddr]
    omega
  have hlt : addr % size < size := Nat.mod_lt _ hsize
  have hroom : 256 * q + 256 ≤ size := by
    have : q < k := by
      rw [hq, hk] at hlt
      exact Nat.lt_of_mul_lt_mul_left hlt
    omega
  -- no byte of the page wraps around the end of the memory
  have hplace : ∀ i, i < 256 → (addr + i) % size = 256 * q + i := by
    intro i hi
    rw [Nat.add_mod, hq, Nat.mod_eq_of_lt (show i < size by omega), Nat.mod_eq_of_lt (by omega)]
  rw [under_program]
  unfold programPage
  rw [hq, Nat.mul_div_cancel_left q (by decide), latch_page haddr hlen]
  by_cases hpage : a / 256 = q
  · rw [if_pos hpage, under_and]
    refine and_congr_right fun _ => ⟨fun hb i c hc hi => ?_, fun hall => ?_⟩
    · have hi256 : i < 256 := Nat.lt_of_lt_of_le (List.getElem?_eq_some_iff.1 hc).1 hlen
      rw [hplace i hi256] at hi
      have hmod : a % 256 = i := by omega
      rw [hmod, List.getD_eq_getElem?_getD, hc] at hb
      exact hb
    · rw [List.getD_eq_getElem?_getD]
      cases hc : data[a % 256]? with
      | none => exact under_full b
      | some c => exact hall (a % 256) c hc (by rw [hplace _ (Nat.mod_lt _ (by decide))]; omega)
  · rw [if_neg hpage]
    refine ⟨fun hb => ⟨hb, fun i c hc hi => ?_⟩, fun h => h.1⟩
    have hi256 : i < 256 := Nat.lt_of_lt_of_le (List.getElem?_eq_some_iff.1 hc).1 hlen
    rw [hplace i hi256] at hi
    omega

theorem programRegister_eq (r : Nat → UInt8) {addr : Nat} (haddr : addr % 256 = 0) {data : List UInt8}
    (hlen : data.length ≤ 256) : programRegister r addr data = fun a => r a &&& data.getD a 0xFF := by
  funext a
  rw [programRegister, latch_page haddr hlen]

end SmartHome.Lib
