/-
  Subject:   THE DRIVER OF THE EXTERNAL FLASH (ext_flash.c): from bytes on the bus to pages, sectors and slots.

  The bootloader gives its applications five calls. Each one is a few instructions to the chip, and those that
  change something wait for it: 200 looks at its status, five milliseconds apart. Nobody asks whether the wait
  ended because the chip was ready. So the calls do what they are for as long as no change takes longer than that;
  after one that does, the next change is not accepted, or half of it is: a slot can be written without having
  been erased.

  * `extFlashReadData`, `extFlashWritePage`, `extFlashEraseSector`, `extFlashWriteSystemData`,
    `extFlashReadSystemData` -- the source, over a chip of Lib/SpiNor.lean;
  * `Content`, `Content.call` -- what the calls are for, with the functions of OnlineUpdater.lean;
  * `perform_idle`, `perform_busy` -- an instruction that changes something, accepted or not;
  * **`driver_refines_iff`** -- every series of calls does what it is for exactly if no change takes more than 200
    looks; **`slot_mixed`** -- what a slot holds when its erasing was not accepted.
-/
import SmartHome.Firmware.OnlineUpdater
import SmartHome.Lib.SpiNor

namespace SmartHome.Firmware

open SmartHome.Lib

namespace SpiDriver

/-! ## 1. ext_flash.c -/

section Source

variable (p : SpiPart)

/-- The loop of `_ext_flash_wait_busy`; the recursion is on `retry`. -/
def waitBusyLoop : Nat → SpiNor → UInt8 × SpiNor
  | 0, c => (1, c)
  | retry + 1, c =>
    let r := (SpiNor.send p [0x05] c.select).shift p 0x00
    let c := r.2.deselect p
    if r.1 &&& 0x01 = 0 then (0, c) else waitBusyLoop retry c

/-- `_ext_flash_wait_busy`: `busy`, and the chip. -/
def extFlashWaitBusy (c : SpiNor) : UInt8 × SpiNor := waitBusyLoop p 200 (c.deselect p)

/-- `_ext_flash_write_enable`. -/
def extFlashWriteEnable (c : SpiNor) : SpiNor := ((SpiNor.send p [0x06] c.select).deselect p).select

/-- `_ext_flash_cmd_head`. -/
def extFlashCmdHead (cmdHead : Vector UInt8 4) (c : SpiNor) : SpiNor := SpiNor.send p cmdHead.toList c

/-- `ext_flash_read_data`: what is stored to `rd_buff`, and the chip. -/
def extFlashReadData (addr : UInt32) (len : Nat) (c : SpiNor) : List UInt8 × SpiNor :=
  let cmdHead : Vector UInt8 4 := #v[0x03, (addr >>> 16).toUInt8, (addr >>> 8).toUInt8, addr.toUInt8]
  let r := SpiNor.receive p len (extFlashCmdHead p cmdHead c.select)
  (r.1, r.2.deselect p)

/-- `ext_flash_write_page`; `count` has eight bits, so 256 bytes are sent. -/
def extFlashWritePage (offset : UInt32) (page : Vector UInt8 256) (c : SpiNor) : SpiNor :=
  let bytes : Vector UInt8 4 := #v[0x02, (offset >>> 16).toUInt8, (offset >>> 8).toUInt8, 0x00]
  (extFlashWaitBusy p (SpiNor.send p page.toList (extFlashCmdHead p bytes (extFlashWriteEnable p c)))).2

/-- `_ext_flash_do_cmd`. -/
def extFlashDoCmd (cmd : Vector UInt8 4) (c : SpiNor) : SpiNor :=
  (extFlashWaitBusy p (extFlashCmdHead p cmd (extFlashWriteEnable p c))).2

/-- `ext_flash_erase_sector`. -/
def extFlashEraseSector (offset : UInt32) (c : SpiNor) : SpiNor :=
  extFlashDoCmd p #v[0x20, (offset >>> 16).toUInt8, (offset >>> 8).toUInt8, 0x00] c

/-- `ext_flash_write_system_data` of a whole array. -/
def extFlashWriteSystemData (index : UInt8) (sysData : List UInt8) (c : SpiNor) : SpiNor :=
  if index > 2 ∨ sysData.length > 256 then c
  else
    let c := extFlashDoCmd p #v[0x44, 0x00, (index + 1) <<< 4, 0x00] c
    let c := extFlashCmdHead p #v[0x42, 0x00, (index + 1) <<< 4, 0x00] (extFlashWriteEnable p c)
    (extFlashWaitBusy p (SpiNor.send p sysData c)).2

/-- `ext_flash_read_system_data`: what is stored to `rd_buff`, and the chip. -/
def extFlashReadSystemData (index : UInt8) (len : Nat) (c : SpiNor) : List UInt8 × SpiNor :=
  if index > 2 ∨ len > 256 then ([], c)
  else
    let c := extFlashCmdHead p #v[0x48, 0x00, (index + 1) <<< 4, 0x00] c.select
    -- the dummy byte
    let r := SpiNor.receive p len (c.shift p 0x00).2
    (r.1, r.2.deselect p)

end Source

/-! ## 2. What the calls are for -/

/-- A call of the table `_flashapitab`. -/
inductive Call where
  | readData (addr : UInt32) (len : Nat)
  | writePage (offset : UInt32) (page : Vector UInt8 256)
  | eraseSector (offset : UInt32)
  | writeSystemData (index : UInt8) (sysData : List UInt8)
  | readSystemData (index : UInt8) (len : Nat)

/-- What a call gives, and the chip after it. -/
def Call.run (p : SpiPart) : Call → SpiNor → List UInt8 × SpiNor
  | .readData addr len, c => extFlashReadData p addr len c
  | .writePage offset page, c => ([], extFlashWritePage p offset page c)
  | .eraseSector offset, c => ([], extFlashEraseSector p offset c)
  | .writeSystemData index sysData, c => ([], extFlashWriteSystemData p index sysData c)
  | .readSystemData index len, c => extFlashReadSystemData p index len c

/-- A series of calls. -/
def session (p : SpiPart) : List Call → SpiNor → List (List UInt8) × SpiNor
  | [], c => ([], c)
  | call :: calls, c => ((call.run p c).1 :: (session p calls (call.run p c).2).1, (session p calls (call.run p c).2).2)

/-- What a chip is used to keep: the cells, and the slots of the system data. -/
@[ext] structure Content where
  flash : Flash
  slots : Nat → Nat → UInt8

/-- What a call is for. A slot is written as a whole: behind the data it is erased. -/
def Content.call (chip : Chip) (s : Content) : Call → List UInt8 × Content
  | .readData addr len => (Firmware.extFlashReadData chip s.flash addr.toNat len, s)
  | .writePage offset page =>
    ([], { s with flash := Firmware.extFlashWritePage chip s.flash offset.toNat page.toList })
  | .eraseSector offset => ([], { s with flash := Firmware.extFlashEraseSector chip s.flash offset.toNat })
  | .writeSystemData index sysData =>
    ([], if index > 2 ∨ sysData.length > 256 then s
      else { s with slots := Function.update s.slots index.toNat fun a => sysData.getD a 0xFF })
  | .readSystemData index len => (if index > 2 ∨ len > 256 then [] else (List.range len).map (s.slots index.toNat), s)

/-- A series of calls. -/
def Content.session (chip : Chip) : List Call → Content → List (List UInt8) × Content
  | [], s => ([], s)
  | call :: calls, s =>
    ((s.call chip call).1 :: (session chip calls (s.call chip call).2).1, (session chip calls (s.call chip call).2).2)

theorem Content.session_cons (chip : Chip) (call : Call) (calls : List Call) (s : Content) :
    (Content.session chip (call :: calls) s).2 = (Content.session chip calls (s.call chip call).2).2 := rfl

theorem Content.session_nil (chip : Chip) (s : Content) : (Content.session chip [] s).2 = s := rfl

theorem Content.session_append (chip : Chip) (as bs : List Call) (s : Content) :
    (Content.session chip (as ++ bs) s).2 = (Content.session chip bs (Content.session chip as s).2).2 := by
  induction as generalizing s with
  | nil => rfl
  | cons call as ih => exact ih _

/-- What the chip of the driver keeps; slot 0 is security register 1. -/
def content (c : SpiNor) : Content := ⟨c.mem, fun i => c.registers (i + 1)⟩

/-- A chip that takes its time as `latency` says. -/
def part (chip : Chip) (latency : Nat → Nat) : SpiPart := ⟨chip.size, latency⟩

theorem part_size (chip : Chip) (latency : Nat → Nat) : (part chip latency).size = chip.size := rfl

/-! ## 3. The instructions on the bus -/

section Instructions

variable (p : SpiPart) {c : SpiNor}

/-- A look at the status. -/
theorem poll_eq (h : c.shifted = none) :
    (SpiNor.send p [0x05] c.select).shift p 0x00 = (c.status, { c with shifted := some [0x05, 0x00] }) := by
  rw [SpiNor.send_select p h, SpiNor.shift_selected p _ rfl]
  rfl

theorem waitBusyLoop_eq (h : c.shifted = none) (retry : Nat) :
    waitBusyLoop p retry c = (if retry ≤ c.busy then 1 else 0, { c with busy := c.busy - retry }) := by
  induction retry generalizing c with
  | zero => rw [if_pos (Nat.zero_le _)]; rfl
  | succ retry ih =>
    have hlook : SpiNor.deselect p { c with shifted := some [0x05, 0x00] } = { c with busy := c.busy - 1 } := by
      rw [SpiNor.deselect_selected p _ rfl, ← h]
      rfl
    rw [waitBusyLoop, poll_eq p h]
    simp only [hlook, SpiNor.status_busy]
    by_cases hbusy : c.busy = 0
    · rw [if_pos hbusy, if_neg (by omega), show c.busy - 1 = c.busy - (retry + 1) by omega]
    · rw [if_neg hbusy, ih (c := { c with busy := c.busy - 1 }) h]
      simp only [show retry ≤ c.busy - 1 ↔ retry + 1 ≤ c.busy by omega, Nat.sub_sub, Nat.add_comm 1]

/-- Waiting for an instruction. -/
theorem waitBusy_eq {bs : List UInt8} (h : c.shifted = some bs)
    (hreleased : ({ c with shifted := none }.execute p bs).shifted = none) :
    (extFlashWaitBusy p c).2 =
      { ({ c with shifted := none }.execute p bs) with
        busy := ({ c with shifted := none }.execute p bs).busy - 200 } := by
  rw [extFlashWaitBusy, c.deselect_selected p h, waitBusyLoop_eq p hreleased]

/-- Enable, instruct, wait: the course of all calls that change something. -/
def perform (bs : List UInt8) (c : SpiNor) : SpiNor :=
  (extFlashWaitBusy p (SpiNor.send p bs (extFlashWriteEnable p c))).2

theorem writeEnable_eq (h : c.shifted = none) :
    extFlashWriteEnable p c = { c with wel := if c.busy = 0 then true else c.wel, shifted := some [] } := by
  have hexec : { c with shifted := none }.execute p [0x06] =
      { c with wel := if c.busy = 0 then true else c.wel, shifted := none } := by
    show (if c.busy = 0 then _ else _) = _
    split <;> rfl
  rw [extFlashWriteEnable, SpiNor.send_select p h, SpiNor.deselect_selected p _ rfl]
  simp only [hexec]
  rfl

theorem perform_eq (h : c.shifted = none) (bs : List UInt8) :
    perform p bs c = { ({ c with wel := if c.busy = 0 then true else c.wel }.execute p bs) with
        busy := ({ c with wel := if c.busy = 0 then true else c.wel }.execute p bs).busy - 200 } := by
  have hsame : ({ c with wel := if c.busy = 0 then true else c.wel, shifted := none } : SpiNor) =
      { c with wel := if c.busy = 0 then true else c.wel } := by rw [h]
  have hsent := SpiNor.send_selected p
    (rfl : SpiNor.shifted { c with wel := if c.busy = 0 then true else c.wel, shifted := some [] } = some []) bs
  rw [perform, writeEnable_eq p h, hsent, List.nil_append, waitBusy_eq p rfl (SpiNor.execute_shifted p bs)]
  simp only [hsame]

/-- **The chip is ready**: it carries the instruction out, and is given 200 looks. -/
theorem perform_idle (h : c.Idle) (bs : List UInt8) :
    perform p bs c =
      { ({ c with wel := true }.execute p bs) with busy := ({ c with wel := true }.execute p bs).busy - 200 } := by
  rw [perform_eq p h.released, if_pos h.free]

/-- **The chip is busy**: all that happens is that time passes. -/
theorem perform_busy (h : c.shifted = none) (hbusy : c.busy ≠ 0) {b : UInt8} {op : SpiOp}
    (hb : SpiOp.ofByte b = some op) (hop : op ≠ .readStatus) (rest : List UInt8) :
    perform p (b :: rest) c = { c with busy := c.busy - 200 } := by
  rw [perform_eq p h, if_neg hbusy, SpiNor.execute_busy p hbusy hb hop]

end Instructions

/-! ## 4. The calls -/

section Calls

variable (p : SpiPart) {c : SpiNor}

theorem writePage_eq (offset : UInt32) (page : Vector UInt8 256) :
    extFlashWritePage p offset page c =
      perform p (0x02 :: (offset >>> 16).toUInt8 :: (offset >>> 8).toUInt8 :: 0x00 :: page.toList) c := by
  rw [extFlashWritePage, perform, extFlashCmdHead, ← SpiNor.send_append]
  rfl

theorem writeSystemData_eq {index : UInt8} {sysData : List UInt8} (h : ¬ (index > 2 ∨ sysData.length > 256)) :
    extFlashWriteSystemData p index sysData c = perform p (0x42 :: 0x00 :: ((index + 1) <<< 4) :: 0x00 :: sysData)
        (perform p [0x44, 0x00, (index + 1) <<< 4, 0x00] c) := by
  rw [extFlashWriteSystemData, if_neg h]
  simp only [extFlashCmdHead, ← SpiNor.send_append]
  rfl

/-- The chip after a change that was waited for. -/
def settled (c : SpiNor) (mem : Flash) (registers : Nat → Nat → UInt8) : SpiNor :=
  { c with
    mem := mem, registers := registers, wel := false, busy := p.latency c.changes - 200, changes := c.changes + 1 }

theorem settled_registers (mem : Flash) (registers : Nat → Nat → UInt8) :
    (settled p c mem registers).registers = registers := rfl

theorem settled_released (h : c.Idle) (mem : Flash) (registers : Nat → Nat → UInt8) :
    (settled p c mem registers).shifted = none := h.released

theorem settled_idle (h : c.Idle) (hlatency : p.latency c.changes ≤ 200) (mem : Flash)
    (registers : Nat → Nat → UInt8) : (settled p c mem registers).Idle :=
  ⟨Nat.sub_eq_zero_of_le hlatency, h.released⟩

theorem writable_enabled (h : c.Idle) : ({ c with wel := true } : SpiNor).Writable := ⟨h.free, rfl⟩

theorem perform_program (h : c.Idle) (a b d : UInt8) {data : List UInt8} (hdata : data ≠ []) :
    perform p (0x02 :: a :: b :: d :: data) c =
      settled p c (programPage p.size c.mem (address24 a b d) data) c.registers := by
  obtain ⟨x, data, rfl⟩ := List.exists_cons_of_ne_nil hdata
  rw [perform_idle p h, show SpiNor.execute p _ (0x02 :: a :: b :: d :: x :: data) = _ from if_pos (writable_enabled h)]
  rfl

theorem perform_erase (h : c.Idle) (a b d : UInt8) :
    perform p [0x20, a, b, d] c =
      settled p c (fun x => if x / 4096 = address24 a b d % p.size / 4096 then 0xFF else c.mem x) c.registers := by
  rw [perform_idle p h, show SpiNor.execute p _ [0x20, a, b, d] = _ from if_pos (writable_enabled h)]
  rfl

theorem perform_eraseRegister (h : c.Idle) (a b d : UInt8) :
    perform p [0x44, a, b, d] c =
      settled p c c.mem (Function.update c.registers (address24 a b d / 4096) fun _ => 0xFF) := by
  rw [perform_idle p h, show SpiNor.execute p _ [0x44, a, b, d] = _ from if_pos (writable_enabled h)]
  rfl

theorem perform_programRegister (h : c.Idle) (a b d : UInt8) {data : List UInt8} (hdata : data ≠ []) :
    perform p (0x42 :: a :: b :: d :: data) c =
      settled p c c.mem (Function.update c.registers (address24 a b d / 4096)
        (programRegister (c.registers (address24 a b d / 4096)) (address24 a b d) data)) := by
  obtain ⟨x, data, rfl⟩ := List.exists_cons_of_ne_nil hdata
  rw [perform_idle p h, show SpiNor.execute p _ (0x42 :: a :: b :: d :: x :: data) = _ from if_pos (writable_enabled h)]
  rfl

/-- The course of a read; it leaves the chip as it was. -/
theorem fetch_eq (h : c.shifted = none) {b : UInt8} {op : SpiOp} (hb : SpiOp.ofByte b = some op)
    (hop : op = .readData ∨ op = .readRegister) (head : List UInt8) (len : Nat) :
    (SpiNor.receive p len (SpiNor.send p (b :: head) c.select)).1 =
        ((List.range len).map fun i => c.answer p (b :: (head ++ List.replicate i 0))) ∧
      (SpiNor.receive p len (SpiNor.send p (b :: head) c.select)).2.deselect p = c := by
  have hsame : ∀ rest, c.execute p (b :: rest) = c := by
    intro rest
    rw [SpiNor.execute, hb]
    obtain rfl | rfl := hop <;> rfl
  have hselected : SpiNor.shifted { c with shifted := some (b :: head) } = some (b :: head) := rfl
  rw [SpiNor.send_select p h, SpiNor.receive_selected p hselected]
  refine ⟨rfl, ?_⟩
  rw [SpiNor.deselect_selected p _ rfl]
  simp only [← h]
  exact hsame _

theorem readData_eq (h : c.Idle) (addr : UInt32) (len : Nat) :
    extFlashReadData p addr len c = ((List.range len).map fun i =>
        c.mem ((address24 (addr >>> 16).toUInt8 (addr >>> 8).toUInt8 addr.toUInt8 + i) % p.size), c) := by
  obtain ⟨hread, hchip⟩ := fetch_eq p h.released (b := 0x03) rfl (.inl rfl)
    [(addr >>> 16).toUInt8, (addr >>> 8).toUInt8, addr.toUInt8] len
  refine Prod.ext (hread.trans (List.map_congr_left fun i _ => ?_)) hchip
  show (if c.busy = 0 then c.mem ((_ + (List.replicate i 0).length) % p.size) else _) = _
  rw [if_pos h.free, List.length_replicate]

/-- A read that finds the chip busy reads the idle line. -/
theorem readData_busy (h : c.shifted = none) (hbusy : c.busy ≠ 0) (addr : UInt32) (len : Nat) :
    extFlashReadData p addr len c = ((List.range len).map fun _ => 0xFF, c) := by
  obtain ⟨hread, hchip⟩ := fetch_eq p h (b := 0x03) rfl (.inl rfl)
    [(addr >>> 16).toUInt8, (addr >>> 8).toUInt8, addr.toUInt8] len
  refine Prod.ext (hread.trans (List.map_congr_left fun i _ => ?_)) hchip
  show (if c.busy = 0 then _ else _) = _
  rw [if_neg hbusy]

theorem readSystemData_eq (h : c.Idle) {index : UInt8} {len : Nat} (hguard : ¬ (index > 2 ∨ len > 256)) :
    extFlashReadSystemData p index len c =
      ((List.range len).map fun i => c.registers (address24 0 ((index + 1) <<< 4) 0 / 4096)
        ((address24 0 ((index + 1) <<< 4) 0 + i) % 256), c) := by
  obtain ⟨hread, hchip⟩ := fetch_eq p h.released (b := 0x48) rfl (.inr rfl)
    [0x00, (index + 1) <<< 4, 0x00, 0x00] len
  rw [extFlashReadSystemData, if_neg hguard]
  refine Prod.ext (hread.trans (List.map_congr_left fun i _ => ?_)) hchip
  show (if c.busy = 0 then c.registers _ ((_ + (List.replicate i 0).length) % 256) else _) = _
  rw [if_pos h.free, List.length_replicate]

end Calls

/-! ## 5. The addresses -/

theorem address24_page (offset : UInt32) :
    address24 (offset >>> 16).toUInt8 (offset >>> 8).toUInt8 0x00 = commandAddress offset.toNat := by
  rw [address24, commandAddress, UInt32.toNat_toUInt8, UInt32.toNat_toUInt8, UInt32.toNat_shiftRight,
    UInt32.toNat_shiftRight, Nat.shiftRight_eq_div_pow, Nat.shiftRight_eq_div_pow,
    show 2 ^ ((16 : UInt32).toNat % 32) = 65536 from rfl, show 2 ^ ((8 : UInt32).toNat % 32) = 256 from rfl,
    show (0x00 : UInt8).toNat = 0 from rfl]
  omega

theorem address24_data (addr : UInt32) :
    address24 (addr >>> 16).toUInt8 (addr >>> 8).toUInt8 addr.toUInt8 = addr.toNat % 16777216 := by
  rw [address24, UInt32.toNat_toUInt8, UInt32.toNat_toUInt8, UInt32.toNat_toUInt8, UInt32.toNat_shiftRight,
    UInt32.toNat_shiftRight, Nat.shiftRight_eq_div_pow, Nat.shiftRight_eq_div_pow,
    show 2 ^ ((16 : UInt32).toNat % 32) = 65536 from rfl, show 2 ^ ((8 : UInt32).toNat % 32) = 256 from rfl]
  omega

/-- The security register of a slot. -/
theorem address24_slot {index : UInt8} (h : ¬ index > 2) :
    address24 0 ((index + 1) <<< 4) 0 = (index.toNat + 1) * 4096 := by
  have hle : index.toNat ≤ 2 := UInt8.le_iff_toNat_le.1 (UInt8.not_lt.1 h)
  have hcases : index = 0 ∨ index = 1 ∨ index = 2 := by
    simp only [← UInt8.toNat_inj]
    rw [show (0 : UInt8).toNat = 0 from rfl, show (1 : UInt8).toNat = 1 from rfl, show (2 : UInt8).toNat = 2 from rfl]
    omega
  obtain rfl | rfl | rfl := hcases <;> rfl

theorem size_pos (chip : Chip) : 0 < chip.size :=
  Nat.mul_pos (Nat.pos_of_dvd_of_pos chip.addressed (by decide)) (by decide)

theorem page_dvd_size (chip : Chip) : 256 ∣ chip.size := ⟨chip.sectors * 16, by rw [Chip.size]; omega⟩

theorem commandAddress_aligned (offset : Nat) : commandAddress offset % 256 = 0 := by
  unfold commandAddress
  omega

/-! ## 6. A chip that is fast enough -/

section Refines

variable (chip : Chip) (latency : Nat → Nat) {c : SpiNor}

theorem update_registers (c : SpiNor) (k : Nat) (v : Nat → UInt8) :
    (fun i => Function.update c.registers (k + 1) v (i + 1)) = Function.update (fun i => c.registers (i + 1)) k v := by
  funext i
  by_cases hi : i = k
  · rw [hi, Function.update_self, Function.update_self]
  · rw [Function.update_of_ne hi, Function.update_of_ne (by omega)]

/-- What a call that finds the chip ready has to leave: what the call is for, and the chip ready again. -/
structure Served (chip : Chip) (latency : Nat → Nat) (call : Call) (c : SpiNor) : Prop where
  answer : (call.run (part chip latency) c).1 = ((content c).call chip call).1
  kept : content (call.run (part chip latency) c).2 = ((content c).call chip call).2
  idle : (call.run (part chip latency) c).2.Idle

theorem served_readData (h : c.Idle) (addr : UInt32) (len : Nat) : Served chip latency (.readData addr len) c := by
  have hread := readData_eq (part chip latency) h addr len
  refine ⟨?_, ?_, ?_⟩
  · show (extFlashReadData (part chip latency) addr len c).1 = Firmware.extFlashReadData chip c.mem addr.toNat len
    rw [hread, address24_data, part_size]
    refine List.map_congr_left fun i _ => ?_
    show c.mem _ = c.mem _
    congr 1
    have hdvd := size_dvd chip
    rw [Nat.mod_mod_of_dvd _ hdvd, Nat.add_mod, Nat.mod_mod_of_dvd _ hdvd, ← Nat.add_mod]
  · show content (extFlashReadData (part chip latency) addr len c).2 = content c
    rw [hread]
  · show (extFlashReadData (part chip latency) addr len c).2.Idle
    rw [hread]
    exact h

theorem run_writePage (h : c.Idle) (offset : UInt32) (page : Vector UInt8 256) :
    (Call.run (part chip latency) (.writePage offset page) c).2 = settled (part chip latency) c
      (Firmware.extFlashWritePage chip c.mem offset.toNat page.toList) c.registers := by
  have hlen : page.toList.length = 256 := Vector.length_toList
  have hne : page.toList ≠ [] := by
    intro h0
    rw [h0] at hlen
    exact absurd hlen (by decide)
  show extFlashWritePage (part chip latency) offset page c = _
  rw [writePage_eq, perform_program _ h _ _ _ hne, address24_page, part_size,
    programPage_eq (page_dvd_size chip) (size_pos chip) c.mem (commandAddress_aligned _) (by omega)]
  rfl

theorem run_eraseSector (h : c.Idle) (offset : UInt32) :
    (Call.run (part chip latency) (.eraseSector offset) c).2 = settled (part chip latency) c
      (Firmware.extFlashEraseSector chip c.mem offset.toNat) c.registers := by
  refine (perform_erase (part chip latency) h (offset >>> 16).toUInt8 (offset >>> 8).toUInt8 0x00).trans ?_
  rw [address24_page]
  rfl

theorem served_writePage (h : c.Idle) (hlatency : ∀ n, latency n ≤ 200) (offset : UInt32) (page : Vector UInt8 256) :
    Served chip latency (.writePage offset page) c := by
  have hrun := run_writePage chip latency h offset page
  refine ⟨rfl, ?_, ?_⟩
  · rw [hrun]
    rfl
  · rw [hrun]
    exact settled_idle _ h (hlatency _) _ _

theorem served_eraseSector (h : c.Idle) (hlatency : ∀ n, latency n ≤ 200) (offset : UInt32) :
    Served chip latency (.eraseSector offset) c := by
  have hrun := run_eraseSector chip latency h offset
  refine ⟨rfl, ?_, ?_⟩
  · rw [hrun]
    rfl
  · rw [hrun]
    exact settled_idle _ h (hlatency _) _ _

theorem slot_register {index : UInt8} (h : ¬ index > 2) :
    address24 0 ((index + 1) <<< 4) 0 / 4096 = index.toNat + 1 := by
  rw [address24_slot h, Nat.mul_div_cancel _ (by decide)]

theorem slot_aligned {index : UInt8} (h : ¬ index > 2) : address24 0 ((index + 1) <<< 4) 0 % 256 = 0 := by
  rw [address24_slot h]
  omega

/-- Writing behind the erasing: the bytes are added to what the slot holds. -/
theorem perform_slot (p : SpiPart) (h : c.Idle) {index : UInt8} (hindex : ¬ index > 2) {sysData : List UInt8}
    (hlen : sysData.length ≤ 256) :
    (perform p (0x42 :: 0x00 :: ((index + 1) <<< 4) :: 0x00 :: sysData) c).mem = c.mem ∧
      (perform p (0x42 :: 0x00 :: ((index + 1) <<< 4) :: 0x00 :: sysData) c).registers =
        Function.update c.registers (index.toNat + 1)
          (fun a => c.registers (index.toNat + 1) a &&& sysData.getD a 0xFF) ∧
      (p.latency c.changes ≤ 200 → (perform p (0x42 :: 0x00 :: ((index + 1) <<< 4) :: 0x00 :: sysData) c).Idle) := by
  by_cases hdata : sysData = []
  · -- the chip does not begin a change without a byte of data
    have hsame : (fun a => c.registers (index.toNat + 1) a &&& ([] : List UInt8).getD a 0xFF) =
        c.registers (index.toNat + 1) := funext fun a => UInt8.and_neg_one
    rw [hdata, perform_idle p h, hsame, Function.update_eq_self]
    refine ⟨rfl, rfl, fun _ => ⟨?_, h.released⟩⟩
    show c.busy - 200 = 0
    rw [h.free]
  · rw [perform_programRegister p h _ _ _ hdata, slot_register hindex, programRegister_eq _ (slot_aligned hindex) hlen]
    exact ⟨rfl, rfl, fun hlatency => settled_idle p h hlatency _ _⟩

theorem served_writeSystemData (h : c.Idle) (hlatency : ∀ n, latency n ≤ 200) (index : UInt8) (sysData : List UInt8) :
    Served chip latency (.writeSystemData index sysData) c := by
  by_cases hguard : index > 2 ∨ sysData.length > 256
  · have hrun : (Call.run (part chip latency) (.writeSystemData index sysData) c).2 = c := if_pos hguard
    refine ⟨rfl, ?_, ?_⟩
    · rw [hrun]
      exact (if_pos hguard).symm
    · rw [hrun]
      exact h
  · obtain ⟨hindex, hlen⟩ := not_or.1 hguard
    have herase := perform_eraseRegister (part chip latency) h 0x00 ((index + 1) <<< 4) 0x00
    rw [slot_register hindex] at herase
    have hidle := settled_idle (part chip latency) h (hlatency c.changes) c.mem
      (Function.update c.registers (index.toNat + 1) fun _ => 0xFF)
    obtain ⟨hmem, hregisters, hready⟩ := perform_slot (part chip latency) hidle hindex (Nat.not_lt.1 hlen)
    have hrun : (Call.run (part chip latency) (.writeSystemData index sysData) c).2 = _ :=
      (writeSystemData_eq (part chip latency) hguard).trans (by rw [herase])
    have hfull : (fun a => (0xFF : UInt8) &&& sysData.getD a 0xFF) = fun a => sysData.getD a 0xFF :=
      funext fun a => (UInt8.and_comm _ _).trans UInt8.and_neg_one
    have hcall : ((content c).call chip (.writeSystemData index sysData)).2 =
        { content c with slots := Function.update (content c).slots index.toNat fun a => sysData.getD a 0xFF } :=
      if_neg hguard
    rw [settled_registers, Function.update_self, Function.update_idem, hfull] at hregisters
    refine ⟨rfl, ?_, ?_⟩
    · rw [hcall, hrun]
      refine Content.ext hmem ?_
      show (fun i => SpiNor.registers _ (i + 1)) = _
      rw [hregisters]
      exact update_registers c _ _
    · rw [hrun]
      exact hready (hlatency _)

theorem served_readSystemData (h : c.Idle) (index : UInt8) (len : Nat) :
    Served chip latency (.readSystemData index len) c := by
  by_cases hguard : index > 2 ∨ len > 256
  · have hrun : Call.run (part chip latency) (.readSystemData index len) c = ([], c) := if_pos hguard
    refine ⟨?_, ?_, ?_⟩
    · rw [hrun]
      exact (if_pos hguard).symm
    · rw [hrun]
      rfl
    · rw [hrun]
      exact h
  · obtain ⟨hindex, hlen⟩ := not_or.1 hguard
    have hrun : Call.run (part chip latency) (.readSystemData index len) c = _ :=
      readSystemData_eq (part chip latency) h hguard
    have hcell : ∀ i ∈ List.range len, c.registers (index.toNat + 1) (((index.toNat + 1) * 4096 + i) % 256) =
        c.registers (index.toNat + 1) i := by
      intro i hi
      have := List.mem_range.1 hi
      congr 1
      omega
    rw [slot_register hindex, address24_slot hindex, List.map_congr_left hcell] at hrun
    refine ⟨?_, ?_, ?_⟩
    · rw [hrun]
      exact (if_neg hguard).symm
    · rw [hrun]
      rfl
    · rw [hrun]
      exact h

/-- **One call.** -/
theorem served (h : c.Idle) (hlatency : ∀ n, latency n ≤ 200) (call : Call) : Served chip latency call c := by
  cases call with
  | readData addr len => exact served_readData chip latency h addr len
  | writePage offset page => exact served_writePage chip latency h hlatency offset page
  | eraseSector offset => exact served_eraseSector chip latency h hlatency offset
  | writeSystemData index sysData => exact served_writeSystemData chip latency h hlatency index sysData
  | readSystemData index len => exact served_readSystemData chip latency h index len

/-- **A series of calls.** -/
theorem session_eq (h : c.Idle) (hlatency : ∀ n, latency n ≤ 200) (calls : List Call) :
    (session (part chip latency) calls c).1 = (Content.session chip calls (content c)).1 ∧
      content (session (part chip latency) calls c).2 = (Content.session chip calls (content c)).2 := by
  induction calls generalizing c with
  | nil => exact ⟨rfl, rfl⟩
  | cons call calls ih =>
    obtain ⟨hanswer, hkept, hidle⟩ := served chip latency h hlatency call
    obtain ⟨hrest, hend⟩ := ih hidle
    rw [hkept] at hrest hend
    refine ⟨?_, hend⟩
    show _ :: _ = _ :: _
    rw [hanswer, hrest]

theorem session_idle (h : c.Idle) (hlatency : ∀ n, latency n ≤ 200) (calls : List Call) :
    (session (part chip latency) calls c).2.Idle := by
  induction calls generalizing c with
  | nil => exact h
  | cons call calls ih => exact ih (served chip latency h hlatency call).idle

end Refines

/-! ## 7. A chip that is not -/

/-- The chip as it was when it left the factory, after some changes. -/
def blankChip (changes : Nat) : SpiNor := ⟨fun _ => 0xFF, fun _ _ => 0xFF, false, 0, changes, none⟩

theorem blankChip_idle (n : Nat) : (blankChip n).Idle := ⟨rfl, rfl⟩

/-- A page of zeros, and its first byte. -/
def writeThenRead : List Call := [.writePage 0 (Vector.replicate 256 0), .readData 0 1]

theorem late_read {chip : Chip} {latency : Nat → Nat} {n : Nat} (h : 200 < latency n) :
    (session (part chip latency) writeThenRead (blankChip n)).1 = [[], [0xFF]] := by
  have hwrite := run_writePage chip latency (blankChip_idle n) 0 (Vector.replicate 256 0)
  have hbusy : (settled (part chip latency) (blankChip n)
      (Firmware.extFlashWritePage chip (blankChip n).mem (UInt32.toNat 0) (Vector.replicate 256 0).toList)
      (blankChip n).registers).busy ≠ 0 := by
    show latency n - 200 ≠ 0
    omega
  show [[], (extFlashReadData (part chip latency) 0 1
    (Call.run (part chip latency) (.writePage 0 (Vector.replicate 256 0)) (blankChip n)).2).1] = _
  rw [hwrite, readData_busy (part chip latency) rfl hbusy]
  rfl

theorem wanted_read (chip : Chip) (n : Nat) :
    (Content.session chip writeThenRead (content (blankChip n))).1 = [[], [0]] := by
  have hpage : Firmware.extFlashWritePage chip (fun _ => 0xFF) 0 (List.replicate 256 0) (0 % chip.size) = 0 := by
    refine program_holds.2 ⟨fun i b _ => under_full b, fun i j b c hb hc _ => ?_⟩ 0 0 rfl
    rw [List.eq_of_mem_replicate (List.mem_of_getElem? hb), List.eq_of_mem_replicate (List.mem_of_getElem? hc)]
  have hread : ∀ flash, Firmware.extFlashReadData chip flash 0 1 = [flash (0 % chip.size)] := fun flash => by
    simp [Firmware.extFlashReadData, Bootloader.extFlashReadData]
  have hzero : UInt32.toNat 0 = 0 := rfl
  simp only [writeThenRead, Content.session, Content.call, hzero, hread, Vector.toList_replicate]
  exact congrArg (fun b => [[], [b]]) hpage

/-- **Every series of calls does what it is for** exactly if no change takes more than 200 looks at the status. -/
theorem driver_refines_iff (chip : Chip) (latency : Nat → Nat) :
    (∀ c : SpiNor, c.Idle → ∀ calls,
      (session (part chip latency) calls c).1 = (Content.session chip calls (content c)).1 ∧
        content (session (part chip latency) calls c).2 = (Content.session chip calls (content c)).2) ↔
      ∀ n, latency n ≤ 200 := by
  constructor
  · intro h n
    by_contra hlate
    have hsame := (h (blankChip n) (blankChip_idle n) writeThenRead).1
    rw [late_read (Nat.not_le.1 hlate), wanted_read] at hsame
    exact absurd hsame (by decide)
  · exact fun h c hc calls => session_eq chip latency hc h calls

section Late

variable (chip : Chip) {latency : Nat → Nat} {c : SpiNor}

/-- A call that changes the cells. -/
def Call.Writes (call : Call) : Prop :=
  (∃ offset page, call = .writePage offset page) ∨ ∃ offset, call = .eraseSector offset

theorem run_writes (h : c.Idle) {call : Call} (hcall : call.Writes) :
    ∃ mem, (call.run (part chip latency) c).2 = settled (part chip latency) c mem c.registers := by
  obtain ⟨offset, page, rfl⟩ | ⟨offset, rfl⟩ := hcall
  · exact ⟨_, run_writePage chip latency h offset page⟩
  · exact ⟨_, run_eraseSector chip latency h offset⟩

/-- **A slot is written without having been erased** if the change before it takes more than 200 looks and no more
    than 400: the erasing is not accepted, the wait for it lets the chip finish, and the data then are. -/
theorem slot_mixed (h : c.Idle) {call : Call} (hcall : call.Writes) (hlate : 200 < latency c.changes)
    (hlate' : latency c.changes ≤ 400) {index : UInt8} {sysData : List UInt8}
    (hguard : ¬ (index > 2 ∨ sysData.length > 256)) :
    (content (session (part chip latency) [call, .writeSystemData index sysData] c).2).slots index.toNat =
      fun a => (content c).slots index.toNat a &&& sysData.getD a 0xFF := by
  obtain ⟨hindex, hlen⟩ := not_or.1 hguard
  obtain ⟨mem, hrun⟩ := run_writes chip h hcall
  have hbusy : (settled (part chip latency) c mem c.registers).busy ≠ 0 := by
    show latency c.changes - 200 ≠ 0
    omega
  have hskip := perform_busy (part chip latency) (settled_released _ h mem c.registers) hbusy
    (rfl : SpiOp.ofByte 0x44 = some .eraseRegister) (by decide) [0x00, (index + 1) <<< 4, 0x00]
  have hidle : SpiNor.Idle { settled (part chip latency) c mem c.registers with
      busy := (settled (part chip latency) c mem c.registers).busy - 200 } := by
    refine ⟨?_, h.released⟩
    show latency c.changes - 200 - 200 = 0
    omega
  have hslot := (perform_slot (part chip latency) hidle hindex (Nat.not_lt.1 hlen)).2.1
  show SpiNor.registers (extFlashWriteSystemData (part chip latency) index sysData
    (call.run (part chip latency) c).2) (index.toNat + 1) = _
  rw [hrun, writeSystemData_eq _ hguard, hskip, hslot]
  exact Function.update_self _ _ _

end Late

/-- A chip whose slots are in use. -/
def usedChip : SpiNor := ⟨fun _ => 0xFF, fun _ _ => 0xF0, false, 0, 0, none⟩

/-- Neither the old byte nor the new one. -/
theorem slot_mixed_byte :
    (content (session (part chip256 fun _ => 300) [.eraseSector 0, .writeSystemData 0 [0x0F]] usedChip).2).slots 0 0 =
      0 := by
  have hslot : (content (session (part chip256 fun _ => 300) [.eraseSector 0, .writeSystemData 0 [0x0F]]
      usedChip).2).slots (UInt8.toNat 0) = fun a => (content usedChip).slots (UInt8.toNat 0) a &&& [0x0F].getD a 0xFF :=
    slot_mixed chip256 ⟨rfl, rfl⟩ (.inr ⟨0, rfl⟩) (by decide) (by decide) (by decide)
  rw [show UInt8.toNat 0 = 0 from rfl] at hslot
  rw [hslot]
  rfl

end SpiDriver

end SmartHome.Firmware
