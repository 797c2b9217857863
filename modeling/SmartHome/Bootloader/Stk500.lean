/-
  Subject:   PROGRAMMING OVER THE SERIAL LINE (optiboot.c): the commands of the STK500 protocol.

  When neither the W5100 nor the external flash is asked for, the boot loader waits for commands on the serial
  line. It looks at one byte after the other, keeps an address, and programs a page as soon as its bytes and
  the blank behind them have come; the page is erased before, and below `NRWWSTART` even before its bytes have
  come. After anything but a blank at the end of a command it waits for the watchdog, which starts the app.

  * `getch`, `verifySpace`, `progPage`, `readPage`, `command` -- the source. What is done with a byte that comes
    is an argument of `getch`: without a byte the loop is left where it stands;
  * `Stk`, `Device` -- the commands as a host means them, and what they do to the chip;
  * **`session_served`** -- every sequence of commands is answered and carried out;
  * **`upload_verified`** -- a program that is uploaded stands in the flash, and is read back;
  * **`shortPage_stale`** -- a page that is sent in part is filled up with the one before;
  * **`serial_pages`** -- whatever comes on the line: pages are programmed as a whole, but one page at most is left
    erased.
-/
import Mathlib.Data.List.GetD
import SmartHome.Bootloader.Spm
import SmartHome.Lib.Loop

namespace SmartHome.Bootloader

open SmartHome.Lib

/-! ## 1. The source -/

/-- The settings of the watchdog: `WATCHDOG_1S` and `WATCHDOG_16MS`. -/
inductive Watchdog where
  | oneSecond
  | ms16
  deriving DecidableEq

/-- The serial line, the variables of `main`, the buffer at `RAMSTART` and the chip. -/
structure Serial where
  input : Bytes
  output : Bytes
  address : Nat
  buff : Nat → UInt8
  watchdog : Watchdog
  spm : Spm

/-- Why the loop is left: no byte comes, or the boot loader waits for the watchdog. -/
inductive Stop where
  | waiting
  | halted
  deriving DecidableEq

/-- How a piece of the loop ends. -/
abbrev Outcome := (Stop × Serial) ⊕ Serial

/-- `getch`. -/
def getch (s : Serial) (k : UInt8 → Serial → Outcome) : Outcome :=
  match s.input with
  | [] => .inl (.waiting, s)
  | ch :: input => k ch { s with input := input }

/-- `putch`. -/
def putch (ch : UInt8) (s : Serial) : Serial := { s with output := s.output ++ [ch] }

/-- `verifySpace`: `CRC_EOP` is 0x20, `STK_INSYNC` is 0x14. -/
def verifySpace (s : Serial) (k : Serial → Outcome) : Outcome :=
  getch s fun ch s => if ch ≠ 0x20 then .inl (.halted, { s with watchdog := .ms16 }) else k (putch 0x14 s)

/-- Bytes that are not looked at. -/
def skip : Nat → Serial → (Serial → Outcome) → Outcome
  | 0, s, k => k s
  | n + 1, s, k => getch s fun _ s => skip n s k

/-- `getNch`. -/
def getNch (count : Nat) (s : Serial) (k : Serial → Outcome) : Outcome := skip count s fun s => verifySpace s k

/-- The rounds of `do … while (--length)`. -/
def rounds (length : UInt8) : Nat := if length = 0 then 256 else length.toNat

/-- `do *bufPtr++ = getch(); while (--length)`. -/
def readBuff : Nat → Nat → Serial → (Serial → Outcome) → Outcome
  | 0, _, s, k => k s
  | n + 1, i, s, k => getch s fun ch s => readBuff n (i + 1) { s with buff := Function.update s.buff i ch } k

/-- `do putch(pgm_read_byte_near(address++)); while (--length)`; the flash has 32 KiB. -/
def sendFlash : Nat → Serial → Serial
  | 0, s => s
  | n + 1, s => sendFlash n { putch (s.spm.mem (s.address % 32768)) s with address := (s.address + 1) % 65536 }

/-- `putch(STK_OK)`, and the next round. -/
def done (s : Serial) : Outcome := .inr (putch 0x10 s)

/-- `STK_LOAD_ADDRESS`: a word address, low byte first. -/
def loadAddress (s : Serial) : Outcome :=
  getch s fun low s => getch s fun high s =>
    verifySpace { s with address := (low.toNat + 256 * high.toNat) * 2 % 65536 } done

/-- `__boot_page_erase_short(address)`. -/
def Serial.erase (s : Serial) : Serial := { s with spm := bootPageErase s.address s.spm }

/-- The buffer into the page buffer, and from there into the page. -/
def Serial.write (s : Serial) : Serial :=
  { s with spm := bootPageWrite s.address (fillWords s.address s.buff 64 s.spm) }

/-- `STK_PROG_PAGE`; `NRWWSTART` is 0x7000. -/
def progPage (s : Serial) : Outcome :=
  getch s fun _ s => getch s fun length s => getch s fun _ s =>
    readBuff (rounds length) 0 (if s.address < 0x7000 then s.erase else s) fun s =>
      verifySpace (if s.address ≥ 0x7000 then s.erase else s) fun s => done s.write

/-- `STK_READ_PAGE`. -/
def readPage (s : Serial) : Outcome :=
  getch s fun _ s => getch s fun length s => getch s fun _ s =>
    verifySpace s fun s => done (sendFlash (rounds length) s)

/-- What `STK_GET_PARAMETER` answers: `OPTIBOOT_MINVER`, `OPTIBOOT_MAJVER`, or 3 for any other. -/
def parameter (which : UInt8) : UInt8 := if which = 0x82 then 4 else if which = 0x81 then 4 else 3

/-- A round of the loop: one command. -/
def command (s : Serial) : Outcome :=
  getch s fun ch s =>
    if ch = 0x41 then
      getch s fun which s => verifySpace s fun s => done (putch (parameter which) s)
    else if ch = 0x42 then getNch 20 s done
    else if ch = 0x45 then getNch 5 s done
    else if ch = 0x55 then loadAddress s
    else if ch = 0x56 then getNch 4 s fun s => done (putch 0x00 s)
    else if ch = 0x64 then progPage s
    else if ch = 0x74 then readPage s
    -- the signature of the ATmega328P
    else if ch = 0x75 then verifySpace s fun s => done (putch 0x0F (putch 0x95 (putch 0x1E s)))
    else if ch = 0x51 then verifySpace { s with watchdog := .ms16 } done
    else verifySpace s done

/-- The loop of `main`. -/
def serve (s : Serial) : Stop × Serial := loop command (fun s => (.waiting, s)) (s.input.length + 1) s

/-! ## 2. The commands -/

/-- The commands, with what a host puts into them. -/
inductive Stk where
  | getParameter (which : UInt8)
  | setDevice (params : Bytes)
  | setDeviceExt (params : Bytes)
  | loadAddress (low high : UInt8)
  | universal (params : Bytes)
  | progPage (high kind : UInt8) (data : Bytes)
  | readPage (high kind : UInt8) (length : UInt8)
  | readSign
  | leaveProgmode
  | other (ch : UInt8)

namespace Stk

/-- Numbers of parameters the boot loader expects. -/
def Proper : Stk → Prop
  | setDevice params => params.length = 20
  | setDeviceExt params => params.length = 5
  | universal params => params.length = 4
  | progPage _ _ data => 1 ≤ data.length ∧ data.length ≤ 256
  | other ch => ch ∉ [0x41, 0x42, 0x45, 0x55, 0x56, 0x64, 0x74, 0x75, 0x51]
  | _ => True

/-- The bytes of a command. -/
def encode : Stk → Bytes
  | getParameter which => [0x41, which, 0x20]
  | setDevice params => 0x42 :: params ++ [0x20]
  | setDeviceExt params => 0x45 :: params ++ [0x20]
  | loadAddress low high => [0x55, low, high, 0x20]
  | universal params => 0x56 :: params ++ [0x20]
  | progPage high kind data => 0x64 :: high :: UInt8.ofNat data.length :: kind :: data ++ [0x20]
  | readPage high kind length => [0x74, high, length, kind, 0x20]
  | readSign => [0x75, 0x20]
  | leaveProgmode => [0x51, 0x20]
  | other ch => [ch, 0x20]

end Stk

/-- What the commands work on. -/
structure Device where
  spm : Spm
  address : Nat
  buff : Nat → UInt8
  watchdog : Watchdog

/-- Bytes into the buffer. -/
def store : (Nat → UInt8) → Nat → Bytes → Nat → UInt8
  | buff, _, [] => buff
  | buff, i, b :: bs => store (Function.update buff i b) (i + 1) bs

namespace Device

/-- What is read from the address on. -/
def bytes (d : Device) (n : Nat) : Bytes :=
  (List.range n).map fun i => d.spm.mem ((d.address + i) % 32768)

/-- What a command does. -/
def perform (d : Device) : Stk → Device
  | .loadAddress low high => { d with address := (low.toNat + 256 * high.toNat) * 2 % 65536 }
  | .progPage _ _ data =>
    let buff := store d.buff 0 data
    { d with buff := buff, spm := flashPage d.address buff d.spm }
  | .readPage _ _ length => { d with address := (d.address + rounds length) % 65536 }
  | .leaveProgmode => { d with watchdog := .ms16 }
  | _ => d

/-- What is answered between `STK_INSYNC` and `STK_OK`. -/
def answer (d : Device) : Stk → Bytes
  | .getParameter which => [parameter which]
  | .universal _ => [0x00]
  | .readPage _ _ length => d.bytes (rounds length)
  | .readSign => [0x1E, 0x95, 0x0F]
  | _ => []

/-- All commands. -/
def performAll (d : Device) (cmds : List Stk) : Device := cmds.foldl perform d

/-- All answers. -/
def answers : Device → List Stk → Bytes
  | _, [] => []
  | d, cmd :: cmds => 0x14 :: d.answer cmd ++ 0x10 :: (d.perform cmd).answers cmds

end Device

/-- The boot loader over a device. -/
def Device.serial (d : Device) (input output : Bytes) : Serial :=
  ⟨input, output, d.address, d.buff, d.watchdog, d.spm⟩

/-! ## 3. Every sequence of commands is carried out -/

section Session

variable (d : Device) (input output : Bytes)

@[simp]
theorem getch_serial (ch : UInt8) (k : UInt8 → Serial → Outcome) :
    getch (d.serial (ch :: input) output) k = k ch (d.serial input output) := rfl

@[simp]
theorem putch_serial (ch : UInt8) : putch ch (d.serial input output) = d.serial input (output ++ [ch]) := rfl

@[simp]
theorem verifySpace_serial (k : Serial → Outcome) :
    verifySpace (d.serial (0x20 :: input) output) k = k (d.serial input (output ++ [0x14])) := rfl

theorem skip_serial (params : Bytes) (k : Serial → Outcome) :
    skip params.length (d.serial (params ++ input) output) k = k (d.serial input output) := by
  induction params with
  | nil => rfl
  | cons p params ih => exact ih

theorem getNch_serial {count : Nat} {params : Bytes} (h : params.length = count) (k : Serial → Outcome) :
    getNch count (d.serial (params ++ 0x20 :: input) output) k = k (d.serial input (output ++ [0x14])) := by
  rw [← h, getNch, skip_serial]
  rfl

theorem readBuff_serial (i : Nat) (data : Bytes) (k : Serial → Outcome) :
    readBuff data.length i (d.serial (data ++ input) output) k =
      k ({ d with buff := store d.buff i data }.serial input output) := by
  induction data generalizing d i with
  | nil => rfl
  | cons b data ih => exact ih { d with buff := Function.update d.buff i b } (i + 1)

theorem sendFlash_serial (n : Nat) (ha : d.address < 65536) :
    sendFlash n (d.serial input output) =
      { d with address := (d.address + n) % 65536 }.serial input (output ++ d.bytes n) := by
  induction n generalizing d output with
  | zero =>
    rw [sendFlash, Nat.add_zero, Nat.mod_eq_of_lt ha]
    exact congrArg (d.serial input) (List.append_nil output).symm
  | succ n ih =>
    have hstep : sendFlash (n + 1) (d.serial input output) =
        sendFlash n ({ d with address := (d.address + 1) % 65536 }.serial input
          (output ++ [d.spm.mem (d.address % 32768)])) := rfl
    have hbytes : d.bytes (n + 1) =
        d.spm.mem (d.address % 32768) :: { d with address := (d.address + 1) % 65536 }.bytes n := by
      unfold Device.bytes
      rw [List.range_succ_eq_map, List.map_cons, List.map_map, Nat.add_zero]
      refine congrArg _ (List.map_congr_left fun i _ => ?_)
      simp only [Function.comp_apply]
      congr 1
      omega
    rw [hstep, ih _ _ (Nat.mod_lt _ (by decide)), hbytes, List.append_assoc]
    congr 2
    simp only [Nat.add_assoc, Nat.mod_add_mod]
    rw [Nat.add_comm 1 n]

theorem rounds_ofNat {n : Nat} (h1 : 1 ≤ n) (h256 : n ≤ 256) : rounds (UInt8.ofNat n) = n := by
  unfold rounds
  have hnat : (UInt8.ofNat n).toNat = n % 256 := UInt8.toNat_ofNat'
  by_cases hn : n = 256
  · rw [hn, if_pos (by decide)]
  · have hne : UInt8.ofNat n ≠ 0 := by
      intro h0
      have := congrArg UInt8.toNat h0
      rw [hnat, UInt8.toNat_zero] at this
      omega
    rw [if_neg hne, hnat, Nat.mod_eq_of_lt (by omega)]

/-- The page is erased before its bytes are read, or behind them. -/
theorem progPage_serial (high kind : UInt8) {data : Bytes} (h : 1 ≤ data.length ∧ data.length ≤ 256) :
    progPage (d.serial (high :: UInt8.ofNat data.length :: kind :: (data ++ 0x20 :: input)) output) =
      done ({ d with buff := store d.buff 0 data, spm := flashPage d.address (store d.buff 0 data) d.spm }.serial input
        (output ++ [0x14])) := by
  rw [progPage, getch_serial, getch_serial, getch_serial, rounds_ofNat h.1 h.2]
  by_cases hlow : d.address < 0x7000
  · have herase : (if (d.serial (data ++ 0x20 :: input) output).address < 0x7000 then
          (d.serial (data ++ 0x20 :: input) output).erase else d.serial (data ++ 0x20 :: input) output) =
        { d with spm := bootPageErase d.address d.spm }.serial (data ++ 0x20 :: input) output := if_pos hlow
    rw [herase, readBuff_serial]
    exact congrArg (verifySpace · _) (if_neg (Nat.not_le.2 hlow))
  · have hkeep : (if (d.serial (data ++ 0x20 :: input) output).address < 0x7000 then
          (d.serial (data ++ 0x20 :: input) output).erase else d.serial (data ++ 0x20 :: input) output) =
        d.serial (data ++ 0x20 :: input) output := if_neg hlow
    rw [hkeep, readBuff_serial]
    exact congrArg (verifySpace · _) (if_pos (Nat.not_lt.1 hlow))

/-- **One command.** -/
theorem command_serial {cmd : Stk} (h : cmd.Proper) (ha : d.address < 65536) :
    command (d.serial (cmd.encode ++ input) output) =
      .inr ((d.perform cmd).serial input (output ++ 0x14 :: d.answer cmd ++ [0x10])) := by
  cases cmd with
  | getParameter which => simp [command, Stk.encode, done, Device.perform, Device.answer]
  | setDevice params | setDeviceExt params =>
    simp [command, Stk.encode, done, Device.perform, Device.answer, getNch_serial d input output h]
  | loadAddress low high =>
    show verifySpace ((d.perform (.loadAddress low high)).serial (0x20 :: input) output) done = _
    simp [done, Device.answer]
  | universal params =>
    simp [command, Stk.encode, done, Device.perform, Device.answer, getNch_serial d input output h]
  | progPage high kind data =>
    simp [command, Stk.encode, done, Device.perform, Device.answer, progPage_serial d input output high kind h]
  | readPage high kind length =>
    simp [command, Stk.encode, readPage, done, Device.perform, Device.answer, sendFlash_serial _ _ _ _ ha]
  | readSign => simp [command, Stk.encode, done, Device.perform, Device.answer]
  | leaveProgmode =>
    show verifySpace ((d.perform .leaveProgmode).serial (0x20 :: input) output) done = _
    simp [done, Device.answer]
  | other ch =>
    simp only [Stk.Proper, List.mem_cons, List.not_mem_nil, or_false, not_or] at h
    simp [command, Stk.encode, done, Device.perform, Device.answer, h]

theorem perform_address (cmd : Stk) (ha : d.address < 65536) : (d.perform cmd).address < 65536 := by
  cases cmd with
  | loadAddress | readPage => exact Nat.mod_lt _ (by decide)
  | _ => exact ha

theorem encode_length (cmd : Stk) : 1 ≤ cmd.encode.length := by
  cases cmd with
  | _ => simp [Stk.encode]

/-- Some commands. -/
theorem loop_serial {cmds : List Stk} (h : ∀ cmd ∈ cmds, cmd.Proper) (ha : d.address < 65536) {n : Nat}
    (hn : (cmds.flatMap Stk.encode).length < n) :
    loop command (fun s => (.waiting, s)) n (d.serial (cmds.flatMap Stk.encode) output) =
      (.waiting, (d.performAll cmds).serial [] (output ++ d.answers cmds)) := by
  induction cmds generalizing d output n with
  | nil =>
    obtain ⟨n, rfl⟩ := Nat.exists_eq_add_one_of_ne_zero (Nat.ne_of_gt (Nat.lt_of_le_of_lt (Nat.zero_le _) hn))
    have hstop : command (d.serial [] output) = .inl (.waiting, d.serial [] output) := rfl
    rw [List.flatMap_nil, loop_stop n hstop, Device.answers, List.append_nil]
    rfl
  | cons cmd cmds ih =>
    have hlen := encode_length cmd
    rw [List.flatMap_cons, List.length_append] at hn
    obtain ⟨n, rfl⟩ := Nat.exists_eq_add_one_of_ne_zero (Nat.ne_of_gt (Nat.lt_of_le_of_lt (Nat.zero_le _) hn))
    rw [List.flatMap_cons, loop_more n (command_serial d _ output (h cmd List.mem_cons_self) ha),
      ih _ _ (fun c hc => h c (List.mem_cons_of_mem cmd hc)) (perform_address d cmd ha) (by omega)]
    simp [Device.performAll, Device.answers]

end Session

/-- **Every sequence of commands is carried out**, each one answered with `STK_INSYNC`, what it asks for and
    `STK_OK`. -/
theorem session_served (d : Device) (ha : d.address < 65536) (cmds : List Stk) (h : ∀ cmd ∈ cmds, cmd.Proper) :
    serve (d.serial (cmds.flatMap Stk.encode) []) = (.waiting, (d.performAll cmds).serial [] (d.answers cmds)) :=
  loop_serial d [] h ha (Nat.lt_succ_self _)

/-- A chip that has nothing in it. -/
def blankDevice : Device := ⟨⟨fun _ => 0xFF, fun _ => 0xFF, []⟩, 0, fun _ => 0, .oneSecond⟩

theorem session_served_hello :
    serve (blankDevice.serial ([.getParameter 0x81, .readSign, .leaveProgmode].flatMap Stk.encode) []) =
      (.waiting, { blankDevice with watchdog := .ms16 }.serial []
        [0x14, 4, 0x10, 0x14, 0x1E, 0x95, 0x0F, 0x10, 0x14, 0x10]) :=
  session_served blankDevice (by decide) [.getParameter 0x81, .readSign, .leaveProgmode] fun cmd hcmd => by
    simp only [List.mem_cons, List.not_mem_nil, or_false] at hcmd
    rcases hcmd with rfl | rfl | rfl <;> trivial

/-! ## 4. Uploading a program -/

/-- The address of a page, in words. -/
def pageAddress (n : Nat) : Stk := .loadAddress (UInt8.ofNat (n * 64)) (UInt8.ofNat (n * 64 / 256))

/-- Pages from page `n` on. -/
def uploadFrom : Nat → List Bytes → List Stk
  | _, [] => []
  | n, page :: pages => pageAddress n :: .progPage 0 0x46 page :: uploadFrom (n + 1) pages

/-- Reading them. -/
def verifyFrom : Nat → List Bytes → List Stk
  | _, [] => []
  | n, _ :: pages => pageAddress n :: .readPage 0 0x46 128 :: verifyFrom (n + 1) pages

section Upload

variable {d : Device}

theorem perform_pageAddress {n : Nat} (hn : n < 256) :
    d.perform (pageAddress n) = { d with address := n * 128 } := by
  have hlow : (UInt8.ofNat (n * 64)).toNat = n * 64 % 256 := UInt8.toNat_ofNat'
  have hhigh : (UInt8.ofNat (n * 64 / 256)).toNat = n * 64 / 256 % 256 := UInt8.toNat_ofNat'
  unfold pageAddress Device.perform
  simp only [hlow, hhigh]
  congr 1
  omega

theorem store_getElem (buff : Nat → UInt8) (i : Nat) (data : Bytes) (j : Nat) :
    store buff i data j = if i ≤ j ∧ j < i + data.length then data.getD (j - i) 0 else buff j := by
  induction data generalizing buff i with
  | nil => rw [store, if_neg (by simp only [List.length_nil]; omega)]
  | cons b data ih =>
    rw [store, ih, List.length_cons]
    by_cases hj : j = i
    · subst hj
      rw [if_neg (by omega), if_pos (by omega), Function.update_self, Nat.sub_self]
      rfl
    · rw [Function.update_of_ne hj]
      by_cases hin : i + 1 ≤ j ∧ j < i + 1 + data.length
      · rw [if_pos hin, if_pos (by omega), show j - i = j - (i + 1) + 1 by omega, List.getD_cons_succ]
      · rw [if_neg hin, if_neg (by omega)]

/-- The device with a page programmed. -/
theorem perform_page {n : Nat} (hn : n < 256) {page : Bytes} (hpage : page.length = 128) (a : Nat) :
    ((d.perform (pageAddress n)).perform (.progPage 0 0x46 page)).spm.mem a =
      if a / 128 = n then page.getD (a % 128) 0 else d.spm.mem a := by
  have haligned : n * 128 % 128 = 0 := Nat.mul_mod_left n 128
  have hno : pageNo (n * 128) = n := by
    unfold pageNo
    omega
  rw [perform_pageAddress hn]
  show (flashPage (n * 128) (store d.buff 0 page) d.spm).mem a = _
  have hbyte : store d.buff 0 page (a % 128) = page.getD (a % 128) 0 := by
    rw [store_getElem, if_pos (by omega), Nat.sub_zero]
  rw [flashPage_mem haligned, hno, hbyte]

theorem uploadFrom_mem (pages : List Bytes) {n : Nat} (hn : n + pages.length ≤ 256)
    (hpages : ∀ page ∈ pages, page.length = 128) (a : Nat) :
    (d.performAll (uploadFrom n pages)).spm.mem a =
      if n ≤ a / 128 ∧ a / 128 < n + pages.length then (pages.getD (a / 128 - n) []).getD (a % 128) 0
      else d.spm.mem a := by
  induction pages generalizing d n with
  | nil => rw [if_neg (by simp only [List.length_nil]; omega)]; rfl
  | cons page pages ih =>
    rw [List.length_cons] at hn ⊢
    show (((d.perform (pageAddress n)).perform (.progPage 0 0x46 page)).performAll
      (uploadFrom (n + 1) pages)).spm.mem a = _
    rw [ih (by omega) (fun p hp => hpages p (List.mem_cons_of_mem page hp)),
      perform_page (by omega) (hpages page List.mem_cons_self)]
    by_cases ha : a / 128 = n
    · rw [if_neg (by omega), if_pos ha, if_pos (by omega), ha, Nat.sub_self]
      rfl
    · rw [if_neg ha]
      by_cases hin : n + 1 ≤ a / 128 ∧ a / 128 < n + 1 + pages.length
      · rw [if_pos hin, if_pos (by omega), show a / 128 - n = a / 128 - (n + 1) + 1 by omega, List.getD_cons_succ]
      · rw [if_neg hin, if_neg (by omega)]

theorem uploadFrom_answers (pages : List Bytes) (n : Nat) :
    d.answers (uploadFrom n pages) = pages.flatMap fun _ => [0x14, 0x10, 0x14, 0x10] := by
  induction pages generalizing d n with
  | nil => rfl
  | cons page pages ih =>
    rw [uploadFrom, Device.answers, Device.answers, ih]
    rfl

/-- What is read are the pages, where they stand in the flash. -/
theorem verifyFrom_answers (pages : List Bytes) {n : Nat} (hn : n + pages.length ≤ 256)
    (hpages : ∀ page ∈ pages, page.length = 128)
    (hmem : ∀ k i, k < pages.length → i < 128 → d.spm.mem ((n + k) * 128 + i) = (pages.getD k []).getD i 0) :
    d.answers (verifyFrom n pages) = pages.flatMap fun page => [0x14, 0x10, 0x14] ++ page ++ [0x10] := by
  induction pages generalizing d n with
  | nil => rfl
  | cons page pages ih =>
    rw [List.length_cons] at hn
    have hpage := hpages page List.mem_cons_self
    have hbytes : (d.perform (pageAddress n)).bytes 128 = page := by
      rw [perform_pageAddress (by omega)]
      unfold Device.bytes
      refine List.ext_getElem (by simp [hpage]) fun i hi hi' => ?_
      have hlt : i < 128 := hpage ▸ hi'
      have hcell := hmem 0 i (Nat.succ_pos _) hlt
      rw [List.getElem_map, List.getElem_range]
      show d.spm.mem ((n * 128 + i) % 32768) = page[i]
      rw [Nat.mod_eq_of_lt (by omega)]
      rw [show n * 128 + i = (n + 0) * 128 + i by omega, hcell]
      simp [hi']
    have hanswer : (d.perform (pageAddress n)).answer (.readPage 0 0x46 128) = page := hbytes
    rw [verifyFrom, Device.answers, Device.answers, hanswer, ih (n := n + 1)]
    · simp [Device.answer, pageAddress]
    · omega
    · exact fun p hp => hpages p (List.mem_cons_of_mem page hp)
    · intro k i hk hi
      have hcell := hmem (k + 1) i (Nat.succ_lt_succ hk) hi
      rw [show n + (k + 1) = n + 1 + k by omega] at hcell
      exact hcell

theorem uploadFrom_proper (pages : List Bytes) (n : Nat) (hpages : ∀ page ∈ pages, page.length = 128) :
    ∀ cmd ∈ uploadFrom n pages, cmd.Proper := by
  induction pages generalizing n with
  | nil => exact fun cmd hcmd => absurd hcmd List.not_mem_nil
  | cons page pages ih =>
    intro cmd hcmd
    have hpage := hpages page List.mem_cons_self
    rcases List.mem_cons.1 hcmd with rfl | hcmd
    · trivial
    rcases List.mem_cons.1 hcmd with rfl | hcmd
    · show 1 ≤ page.length ∧ page.length ≤ 256
      omega
    · exact ih (n + 1) (fun p hp => hpages p (List.mem_cons_of_mem page hp)) cmd hcmd

theorem verifyFrom_proper (pages : List Bytes) (n : Nat) : ∀ cmd ∈ verifyFrom n pages, cmd.Proper := by
  induction pages generalizing n with
  | nil => exact fun cmd hcmd => absurd hcmd List.not_mem_nil
  | cons page pages ih =>
    intro cmd hcmd
    rcases List.mem_cons.1 hcmd with rfl | hcmd
    · trivial
    rcases List.mem_cons.1 hcmd with rfl | hcmd
    · trivial
    · exact ih (n + 1) cmd hcmd

theorem answers_append (cmds cmds' : List Stk) :
    d.answers (cmds ++ cmds') = d.answers cmds ++ (d.performAll cmds).answers cmds' := by
  induction cmds generalizing d with
  | nil => rfl
  | cons cmd cmds ih =>
    rw [List.cons_append, Device.answers, ih, Device.answers]
    simp [Device.performAll]

theorem verifyFrom_spm (pages : List Bytes) (n : Nat) : (d.performAll (verifyFrom n pages)).spm = d.spm := by
  induction pages generalizing d n with
  | nil => rfl
  | cons page pages ih => exact ih (n + 1)

end Upload

/-- **An upload**: the pages stand in the flash, all else is as before; every command is answered, and reading them back
    gives the pages. -/
theorem upload_verified (d : Device) (ha : d.address < 65536) (pages : List Bytes) (hlen : pages.length ≤ 256)
    (hpages : ∀ page ∈ pages, page.length = 128) :
    ∃ s, serve (d.serial ((uploadFrom 0 pages ++ verifyFrom 0 pages).flatMap Stk.encode) []) = (.waiting, s) ∧
      (∀ a, s.spm.mem a =
        if a / 128 < pages.length then (pages.getD (a / 128) []).getD (a % 128) 0 else d.spm.mem a) ∧
      s.output = (pages.flatMap fun _ => [0x14, 0x10, 0x14, 0x10]) ++
        pages.flatMap fun page => [0x14, 0x10, 0x14] ++ page ++ [0x10] := by
  have hproper : ∀ cmd ∈ uploadFrom 0 pages ++ verifyFrom 0 pages, cmd.Proper := by
    intro cmd hcmd
    rcases List.mem_append.1 hcmd with hcmd | hcmd
    · exact uploadFrom_proper pages 0 hpages cmd hcmd
    · exact verifyFrom_proper pages 0 cmd hcmd
  have hmem : ∀ a, (d.performAll (uploadFrom 0 pages)).spm.mem a =
      if a / 128 < pages.length then (pages.getD (a / 128) []).getD (a % 128) 0 else d.spm.mem a := by
    intro a
    rw [uploadFrom_mem pages (by omega) hpages, Nat.sub_zero, Nat.zero_add]
    simp only [Nat.zero_le, true_and]
  refine ⟨_, session_served d ha _ hproper, fun a => ?_, ?_⟩
  · rw [← hmem a]
    show (d.performAll (uploadFrom 0 pages ++ verifyFrom 0 pages)).spm.mem a = _
    rw [Device.performAll, List.foldl_append]
    exact congrArg (fun f : Spm => f.mem a) (verifyFrom_spm pages 0)
  · show d.answers (uploadFrom 0 pages ++ verifyFrom 0 pages) = _
    rw [answers_append, uploadFrom_answers, verifyFrom_answers pages (by omega) hpages]
    intro k i hk hi
    rw [hmem, if_pos (by omega), show ((0 + k) * 128 + i) / 128 = k by omega,
      show ((0 + k) * 128 + i) % 128 = i by omega]

/-- Two pages that differ. -/
def twoPages : List Bytes := [List.replicate 128 0x5A, List.replicate 128 0xA5]

theorem upload_verified_page :
    ∃ s, serve (blankDevice.serial ((uploadFrom 0 twoPages ++ verifyFrom 0 twoPages).flatMap Stk.encode) []) =
        (.waiting, s) ∧ s.spm.mem 127 = 0x5A ∧ s.spm.mem 128 = 0xA5 ∧ s.spm.mem 255 = 0xA5 ∧ s.spm.mem 256 = 0xFF ∧
      s.output = [0x14, 0x10, 0x14, 0x10, 0x14, 0x10, 0x14, 0x10] ++
        twoPages.flatMap fun page => [0x14, 0x10, 0x14] ++ page ++ [0x10] := by
  obtain ⟨s, hs, hmem, hout⟩ := upload_verified blankDevice (by decide) twoPages (by decide) fun page hpage => by
    rcases List.mem_pair.1 hpage with rfl | rfl <;> exact List.length_replicate
  exact ⟨s, hs, (hmem 127).trans (by decide), (hmem 128).trans (by decide), (hmem 255).trans (by decide), hmem 256,
    hout⟩

/-- **A page that is sent in part is filled up with the one before**: the buffer is not cleared in between. -/
theorem shortPage_stale (d : Device) (ha : d.address < 65536) (n : Nat) {m : Nat} (hm : m < 256)
    {page data : Bytes} (hpage : page.length = 128) (hdata : 1 ≤ data.length ∧ data.length ≤ 128) :
    ∃ s, serve (d.serial ([pageAddress n, .progPage 0 0x46 page, pageAddress m, .progPage 0 0x46 data].flatMap
        Stk.encode) []) = (.waiting, s) ∧
      ∀ i < 128, s.spm.mem (m * 128 + i) = (data ++ page.drop data.length).getD i 0 := by
  refine ⟨_, session_served d ha _ fun cmd hcmd => ?_, fun i hi => ?_⟩
  · simp only [List.mem_cons, List.not_mem_nil, or_false] at hcmd
    rcases hcmd with rfl | rfl | rfl | rfl
    · trivial
    · show 1 ≤ page.length ∧ page.length ≤ 256
      omega
    · trivial
    · show 1 ≤ data.length ∧ data.length ≤ 256
      omega
  · have hno : pageNo (m * 128) = m := by
      unfold pageNo
      omega
    show (((d.perform (pageAddress n)).perform (.progPage 0 0x46 page)).perform (pageAddress m)
      |>.perform (.progPage 0 0x46 data)).spm.mem (m * 128 + i) = _
    rw [perform_pageAddress hm]
    show (flashPage (m * 128) (store (store d.buff 0 page) 0 data) _).mem (m * 128 + i) = _
    rw [flashPage_mem (Nat.mul_mod_left m 128), hno, if_pos (by omega), show (m * 128 + i) % 128 = i by omega,
      store_getElem, store_getElem]
    by_cases hshort : i < data.length
    · rw [if_pos (by omega), Nat.sub_zero, List.getD_append _ _ _ _ hshort]
    · rw [if_neg (by omega), if_pos (by omega), Nat.sub_zero, List.getD_append_right _ _ _ _ (Nat.not_lt.1 hshort)]
      rw [List.getD_eq_getElem?_getD, List.getD_eq_getElem?_getD, List.getElem?_drop]
      congr 2
      omega

theorem shortPage_stale_byte :
    ∃ s, serve (blankDevice.serial ([pageAddress 0, .progPage 0 0x46 (List.replicate 128 0x11), pageAddress 1,
        .progPage 0 0x46 [0x22]].flatMap Stk.encode) []) = (.waiting, s) ∧
      s.spm.mem 128 = 0x22 ∧ s.spm.mem 129 = 0x11 := by
  obtain ⟨s, hs, hmem⟩ := shortPage_stale blankDevice (by decide) 0 (show 1 < 256 by decide)
    (List.length_replicate (n := 128) (a := (0x11 : UInt8)))
    (show 1 ≤ [(0x22 : UInt8)].length ∧ [(0x22 : UInt8)].length ≤ 128 by decide)
  exact ⟨s, hs, hmem 0 (by decide), (hmem 1 (by decide)).trans (by decide)⟩

/-! ## 5. Whatever comes on the line -/

/-- Bytes may have been read and answered; the chip and the address are the same. -/
structure Quiet (s s' : Serial) : Prop where
  spm : s'.spm = s.spm
  address : s'.address = s.address
  input : s'.input.length ≤ s.input.length

theorem Quiet.refl (s : Serial) : Quiet s s := ⟨rfl, rfl, Nat.le_refl _⟩

theorem Quiet.trans {s s' s'' : Serial} (h : Quiet s s') (h' : Quiet s' s'') : Quiet s s'' :=
  ⟨h'.spm.trans h.spm, h'.address.trans h.address, Nat.le_trans h'.input h.input⟩

section Rules

variable {Q : Outcome → Prop} {s : Serial}

theorem getch_rule {k : UInt8 → Serial → Outcome} (hstop : ∀ stop s', Quiet s s' → Q (.inl (stop, s')))
    (hk : ∀ ch s', Quiet s s' → s'.input.length < s.input.length → Q (k ch s')) : Q (getch s k) := by
  unfold getch
  split
  · exact hstop _ s (Quiet.refl s)
  · rename_i ch input hinput
    refine hk ch { s with input := input } ⟨rfl, rfl, ?_⟩ ?_
    · rw [hinput]
      exact Nat.le_succ _
    · rw [hinput]
      exact Nat.lt_succ_self _

theorem verifySpace_rule {k : Serial → Outcome} (hstop : ∀ stop s', Quiet s s' → Q (.inl (stop, s')))
    (hk : ∀ s', Quiet s s' → Q (k s')) : Q (verifySpace s k) := by
  refine getch_rule hstop fun ch s' hs' _ => ?_
  split
  · exact hstop .halted _ ⟨hs'.spm, hs'.address, hs'.input⟩
  · exact hk _ ⟨hs'.spm, hs'.address, hs'.input⟩

theorem skip_rule (n : Nat) {k : Serial → Outcome} (hstop : ∀ stop s', Quiet s s' → Q (.inl (stop, s')))
    (hk : ∀ s', Quiet s s' → Q (k s')) : Q (skip n s k) := by
  induction n generalizing s with
  | zero => exact hk s (Quiet.refl s)
  | succ n ih =>
    refine getch_rule hstop fun ch s' hs' _ => ?_
    exact ih (fun stop s'' hs'' => hstop stop s'' (hs'.trans hs'')) fun s'' hs'' => hk s'' (hs'.trans hs'')

theorem getNch_rule (n : Nat) {k : Serial → Outcome} (hstop : ∀ stop s', Quiet s s' → Q (.inl (stop, s')))
    (hk : ∀ s', Quiet s s' → Q (k s')) : Q (getNch n s k) := by
  refine skip_rule n hstop fun s' hs' => ?_
  exact verifySpace_rule (fun stop s'' hs'' => hstop stop s'' (hs'.trans hs'')) fun s'' hs'' => hk s'' (hs'.trans hs'')

theorem readBuff_rule (n i : Nat) {k : Serial → Outcome} (hstop : ∀ stop s', Quiet s s' → Q (.inl (stop, s')))
    (hk : ∀ s', Quiet s s' → Q (k s')) : Q (readBuff n i s k) := by
  induction n generalizing s i with
  | zero => exact hk s (Quiet.refl s)
  | succ n ih =>
    refine getch_rule hstop fun ch s' hs' _ => ?_
    have hstored : Quiet s { s' with buff := Function.update s'.buff i ch } := ⟨hs'.spm, hs'.address, hs'.input⟩
    exact ih (i + 1) (fun stop s'' hs'' => hstop stop s'' (hstored.trans hs''))
      fun s'' hs'' => hk s'' (hstored.trans hs'')

end Rules

/-- What a command may have done to the chip: nothing; a page is erased when the loop is left, and programmed when
    it goes on. -/
def Fair (s : Serial) : Outcome → Prop
  | .inl (_, s') => s'.spm = s.spm ∨ ∃ addr, s'.spm = bootPageErase addr s.spm
  | .inr s' => (s'.spm = s.spm ∨ ∃ addr page, s'.spm = flashPage addr page s.spm) ∧ s'.input.length < s.input.length

theorem sendFlash_quiet (n : Nat) (s : Serial) : (sendFlash n s).spm = s.spm ∧ (sendFlash n s).input = s.input := by
  induction n generalizing s with
  | zero => exact ⟨rfl, rfl⟩
  | succ n ih => exact ih _

section Fair

variable {s s₁ : Serial} (hspm : s₁.spm = s.spm) (hless : s₁.input.length < s.input.length)

include hspm

theorem verifySpace_fair {k : Serial → Outcome} (hk : ∀ s', Quiet s₁ s' → Fair s (k s')) : Fair s (verifySpace s₁ k) :=
  verifySpace_rule (fun _ _ hs' => .inl (hs'.spm.trans hspm)) hk

theorem getNch_fair (n : Nat) {k : Serial → Outcome} (hk : ∀ s', Quiet s₁ s' → Fair s (k s')) :
    Fair s (getNch n s₁ k) :=
  getNch_rule n (fun _ _ hs' => .inl (hs'.spm.trans hspm)) hk

include hless

theorem fair_done {s' : Serial} (hspm' : s'.spm = s₁.spm) (hinput : s'.input.length ≤ s₁.input.length) :
    Fair s (done s') :=
  ⟨.inl (hspm'.trans hspm), Nat.lt_of_le_of_lt hinput hless⟩

theorem getch_fair {k : UInt8 → Serial → Outcome}
    (hk : ∀ ch s', s'.spm = s.spm → s'.address = s₁.address → s'.input.length < s.input.length → Fair s (k ch s')) :
    Fair s (getch s₁ k) :=
  getch_rule (fun _ _ hs' => .inl (hs'.spm.trans hspm)) fun ch s' hs' _ =>
    hk ch s' (hs'.spm.trans hspm) hs'.address (Nat.lt_of_le_of_lt hs'.input hless)

theorem loadAddress_fair : Fair s (loadAddress s₁) := by
  refine getch_fair hspm hless fun low s₂ hspm₂ _ hless₂ => ?_
  refine getch_fair hspm₂ hless₂ fun high s₃ hspm₃ _ hless₃ => ?_
  exact verifySpace_rule (fun _ _ hs' => .inl (hs'.spm.trans hspm₃)) fun s' hs' =>
    fair_done hspm₃ hless₃ hs'.spm hs'.input

theorem readPage_fair : Fair s (readPage s₁) := by
  refine getch_fair hspm hless fun _ s₂ hspm₂ _ hless₂ => ?_
  refine getch_fair hspm₂ hless₂ fun length s₃ hspm₃ _ hless₃ => ?_
  refine getch_fair hspm₃ hless₃ fun _ s₄ hspm₄ _ hless₄ => ?_
  refine verifySpace_fair hspm₄ fun s' hs' => ?_
  obtain ⟨hsend, hinput⟩ := sendFlash_quiet (rounds length) s'
  exact fair_done hspm₄ hless₄ (hsend.trans hs'.spm) (hinput ▸ hs'.input)

/-- The page is erased, and written only when all of it has come. -/
theorem progPage_fair : Fair s (progPage s₁) := by
  refine getch_fair hspm hless fun _ s₂ hspm₂ _ hless₂ => ?_
  refine getch_fair hspm₂ hless₂ fun length s₃ hspm₃ _ hless₃ => ?_
  refine getch_fair hspm₃ hless₃ fun _ s₄ hspm₄ _ hless₄ => ?_
  have hwrite : ∀ s' : Serial, s'.spm = bootPageErase s'.address s.spm → s'.input.length < s.input.length →
      Fair s (done s'.write) := by
    intro s' herased hlt
    refine ⟨.inr ⟨s'.address, s'.buff, ?_⟩, hlt⟩
    exact congrArg (fun f => bootPageWrite s'.address (fillWords s'.address s'.buff 64 f)) herased
  by_cases hlow : s₄.address < 0x7000
  · rw [if_pos hlow]
    have herased : s₄.erase.spm = bootPageErase s₄.address s.spm := congrArg (bootPageErase s₄.address) hspm₄
    refine readBuff_rule _ _ (fun _ s' hs' => .inr ⟨_, hs'.spm.trans herased⟩) fun s₅ h₅ => ?_
    have haddr : s₅.address = s₄.address := h₅.address
    rw [if_neg (by rw [haddr]; exact Nat.not_le.2 hlow)]
    refine verifySpace_rule (fun _ s' hs' => .inr ⟨_, (h₅.trans hs').spm.trans herased⟩) fun s₆ h₆ => ?_
    have h₆ := h₅.trans h₆
    refine hwrite s₆ ?_ (Nat.lt_of_le_of_lt h₆.input hless₄)
    rw [h₆.spm, herased, show s₆.address = s₄.address from h₆.address]
  · rw [if_neg hlow]
    refine readBuff_rule _ _ (fun _ s' hs' => .inl (hs'.spm.trans hspm₄)) fun s₅ h₅ => ?_
    have herased : s₅.erase.spm = bootPageErase s₅.address s.spm :=
      congrArg (bootPageErase s₅.address) (h₅.spm.trans hspm₄)
    rw [if_pos (by rw [h₅.address]; exact Nat.not_lt.1 hlow)]
    refine verifySpace_rule (fun _ s' hs' => .inr ⟨_, hs'.spm.trans herased⟩) fun s₆ h₆ => ?_
    refine hwrite s₆ ?_ (Nat.lt_of_le_of_lt (Nat.le_trans h₆.input h₅.input) hless₄)
    rw [h₆.spm, herased, show s₆.address = s₅.address from h₆.address]

end Fair

/-- **One command**, whatever has come of it. -/
theorem command_fair (s : Serial) : Fair s (command s) := by
  refine getch_rule (fun _ _ hs' => .inl hs'.spm) fun ch s₁ h₁ hless => ?_
  have hquiet : ∀ s', Quiet s₁ s' → Fair s (done s') := fun s' hs' => fair_done h₁.spm hless hs'.spm hs'.input
  split
  · refine getch_fair h₁.spm hless fun which s₂ hspm₂ _ hless₂ => ?_
    exact verifySpace_fair hspm₂ fun s' hs' => fair_done hspm₂ hless₂ hs'.spm hs'.input
  split
  · exact getNch_fair h₁.spm 20 hquiet
  split
  · exact getNch_fair h₁.spm 5 hquiet
  split
  · exact loadAddress_fair h₁.spm hless
  split
  · exact getNch_fair h₁.spm 4 fun s' hs' => fair_done h₁.spm hless hs'.spm hs'.input
  split
  · exact progPage_fair h₁.spm hless
  split
  · exact readPage_fair h₁.spm hless
  split
  · exact verifySpace_fair h₁.spm fun s' hs' => fair_done h₁.spm hless hs'.spm hs'.input
  split
  · exact verifySpace_rule (fun _ _ hs' => .inl (hs'.spm.trans h₁.spm)) fun s' hs' =>
      fair_done h₁.spm hless hs'.spm hs'.input
  · exact verifySpace_fair h₁.spm hquiet

/-- The last operation on a page. -/
def lastOn (ops : List SpmOp) (n : Nat) : Option SpmOp := ops.reverse.find? fun op => pageNo op.addr == n

/-- What a byte of a page is after the last operation on it. -/
def byteAfter (old : UInt8) (i : Nat) : Option SpmOp → UInt8
  | none => old
  | some (.erase _) => 0xFF
  | some (.write _ page) => page.getD i 0

/-- The flash after some operations holds what the last one on each page has put there. -/
structure Replayed (f f' : Spm) (ops : List SpmOp) : Prop where
  log : f'.log = f.log ++ ops
  mem : ∀ a, f'.mem a = byteAfter (f.mem a) (a % 128) (lastOn ops (a / 128))

/-- Pages that are programmed as a whole. -/
def wholePages (ps : List (Nat × Bytes)) : List SpmOp := ps.flatMap fun p => [.erase p.1, .write p.1 p.2]

theorem lastOn_same (ops : List SpmOp) (op : SpmOp) {n : Nat} (h : pageNo op.addr = n) :
    lastOn (ops ++ [op]) n = some op := by
  unfold lastOn
  rw [List.reverse_append, List.reverse_singleton, List.singleton_append, List.find?_cons, h, beq_self_eq_true]

theorem lastOn_other (ops : List SpmOp) (op : SpmOp) {n : Nat} (h : pageNo op.addr ≠ n) :
    lastOn (ops ++ [op]) n = lastOn ops n := by
  unfold lastOn
  rw [List.reverse_append, List.reverse_singleton, List.singleton_append, List.find?_cons, beq_eq_false_iff_ne.2 h]

section Replayed

variable {f f' : Spm} {ops : List SpmOp} (h : Replayed f f' ops)

include h

theorem Replayed.erase (addr : Nat) : Replayed f (bootPageErase addr f') (ops ++ [.erase addr]) := by
  refine ⟨?_, fun a => ?_⟩
  · rw [← List.append_assoc, ← h.log]
    rfl
  · show (if a / 128 = pageNo addr then 0xFF else f'.mem a) = _
    by_cases ha : pageNo addr = a / 128
    · rw [if_pos ha.symm, lastOn_same ops (.erase addr) ha]
      rfl
    · rw [if_neg (Ne.symm ha), lastOn_other ops (.erase addr) ha, h.mem]

theorem Replayed.flash (addr : Nat) (page : Nat → UInt8) :
    ∃ p, Replayed f (flashPage addr page f') (ops ++ [.erase addr, .write addr p]) := by
  have herase := h.erase addr
  obtain ⟨hmem, hlog⟩ := fillWords_mem addr page (bootPageErase addr f') 64
  have hsplit : ∀ p, ops ++ [.erase addr, .write addr p] = (ops ++ [.erase addr]) ++ [.write addr p] := fun p => by
    rw [List.append_assoc, List.singleton_append]
  refine ⟨(List.range 128).map (fillWords addr page 64 (bootPageErase addr f')).buf, ?_, fun a => ?_⟩
  · rw [hsplit, ← List.append_assoc, ← herase.log, ← hlog]
    rfl
  · have hbyte : (flashPage addr page f').mem a =
        if a / 128 = pageNo addr then
          (bootPageErase addr f').mem a &&& (fillWords addr page 64 (bootPageErase addr f')).buf (a % 128)
        else (bootPageErase addr f').mem a := by
      rw [← hmem]
      rfl
    rw [hbyte, hsplit]
    by_cases ha : pageNo addr = a / 128
    · have hff : (bootPageErase addr f').mem a = 0xFF := if_pos ha.symm
      have hlt : a % 128 < 128 := Nat.mod_lt _ (by decide)
      rw [if_pos ha.symm, lastOn_same _ (.write addr _) ha, hff, ff_and]
      simp [byteAfter, hlt]
    · rw [if_neg (Ne.symm ha), lastOn_other _ (.write addr _) ha, herase.mem]

end Replayed

/-- Whole pages have been programmed. -/
def Programmed (f f' : Spm) : Prop := ∃ ps, Replayed f f' (wholePages ps)

theorem Programmed.refl (f : Spm) : Programmed f f := ⟨[], (List.append_nil _).symm, fun _ => rfl⟩

theorem Programmed.flash {f f' : Spm} (h : Programmed f f') (addr : Nat) (page : Nat → UInt8) :
    Programmed f (flashPage addr page f') := by
  obtain ⟨ps, hps⟩ := h
  obtain ⟨p, hp⟩ := hps.flash addr page
  refine ⟨ps ++ [(addr, p)], ?_⟩
  unfold wholePages
  rw [List.flatMap_append]
  exact hp

/-- All commands. -/
theorem loop_programmed {f₀ : Spm} {n : Nat} {s : Serial} (hn : s.input.length < n) (h : Programmed f₀ s.spm) :
    ∃ f, Programmed f₀ f ∧ ((loop command (fun s => (.waiting, s)) n s).2.spm = f ∨
      ∃ addr, (loop command (fun s => (.waiting, s)) n s).2.spm = bootPageErase addr f) := by
  induction n generalizing s with
  | zero => exact absurd hn (Nat.not_lt_zero _)
  | succ n ih =>
    have hfair := command_fair s
    cases hcmd : command s with
    | inl r =>
      rw [hcmd] at hfair
      rw [loop_stop n hcmd]
      exact ⟨s.spm, h, hfair⟩
    | inr s' =>
      rw [hcmd] at hfair
      obtain ⟨hchip, hless⟩ := hfair
      rw [loop_more n hcmd]
      refine ih (by omega) ?_
      rcases hchip with hspm | ⟨addr, page, hspm⟩
      · rw [hspm]
        exact h
      · rw [hspm]
        exact h.flash addr page

/-- **Whatever comes on the line**: the flash is what whole pages have left of it, each erased and then written, but for
    one page at most, which is erased and not written when the last command is broken off. -/
theorem serial_pages (s : Serial) :
    ∃ ps tail, (tail = [] ∨ ∃ addr, tail = [.erase addr]) ∧
      Replayed s.spm (serve s).2.spm (wholePages ps ++ tail) := by
  obtain ⟨f, ⟨ps, hps⟩, hend⟩ := loop_programmed (Nat.lt_succ_self s.input.length) (Programmed.refl s.spm)
  rcases hend with hend | ⟨addr, hend⟩
  · refine ⟨ps, [], .inl rfl, ?_⟩
    rw [List.append_nil, serve, hend]
    exact hps
  · refine ⟨ps, [.erase addr], .inr ⟨addr, rfl⟩, ?_⟩
    rw [serve, hend]
    exact hps.erase addr

end SmartHome.Bootloader
