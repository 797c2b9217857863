/-
  Subject:   NETWORK SETTINGS, from the configurator to the bootloader (`tftp_ip_config` of
             Hellduino_SystemDataConfig.ino, `netInit` of net.c).

  Four lines are typed, read with `sscanf` and stored as 20 bytes; the bootloader copies 18 of them to the
  registers of the chip. Every conversion stores two bytes where there is room for one; the next one, or the
  end mark, repairs it. So each register gets the low byte of what was read. But what is read need not be what
  was typed: no number is compared with 255, nothing is said about what follows the last number, and of a last
  number of the hardware address only two characters are read.

  * `readLine` -- how a line is typed; `readLine_line` -- what can be typed;
  * `scanInt`, `scanHex2`, `sscanf`, `tftpIpConfig`, `netInit` -- the source;
  * `tftpIpConfig_some_iff`, `netInit_stored` -- the 20 bytes, and what the bootloader makes of them;
  * **`settingsSurvive_iff`** -- the registers hold the numbers typed exactly if the lines that are read hold as many
    numbers as asked for, all of one byte, and the last one of the hardware address is not cut;
    `address300_stored` -- 300 becomes 44.
-/
import Mathlib.Data.List.GetD
import SmartHome.Lib.CString
import SmartHome.Lib.Numerals

namespace SmartHome.Firmware

open SmartHome.Lib

/-! ## 1. read_line -/

/-- A character that `Serial.read` gives, `none` if it finds nothing: the buffer after it. -/
def typeChar (line : List UInt8) : Option UInt8 → List UInt8
  | none => line
  | some c => if c = 8 then line.dropLast else if 32 < c ∧ c < 126 then line ++ [c] else line

/-- The loop of `read_line`; it waits for more if the input ends. -/
def readLineLoop (buffLen : Nat) : List UInt8 → List (Option UInt8) → Option (List UInt8)
  | _, [] => none
  | line, c :: input =>
    if c = some 13 ∨ c = some 10 then some line
    else if (typeChar line c).length < buffLen - 1 then readLineLoop buffLen (typeChar line c) input
    else some (typeChar line c)

/-- `read_line`. -/
def readLine (buffLen : Nat) (input : List (Option UInt8)) : Option (List UInt8) := readLineLoop buffLen [] input

/-- What fits into a buffer, without blanks. -/
def IsLine (buffLen : Nat) (line : List UInt8) : Prop := line.length ≤ buffLen - 1 ∧ ∀ c ∈ line, 32 < c ∧ c < 126

theorem isLine_of_all {buffLen : Nat} {line : List UInt8} (hlen : line.length ≤ buffLen - 1)
    (hall : line.all (fun c => decide (32 < c ∧ c < 126)) = true) : IsLine buffLen line :=
  ⟨hlen, fun c hc => of_decide_eq_true (List.all_eq_true.1 hall c hc)⟩

/-- A line of `tftp_ip_config`. -/
abbrev Line := { line : List UInt8 // IsLine 20 line }

theorem typeChar_line {buffLen : Nat} {line : List UInt8} (hline : IsLine buffLen line)
    (hroom : line.length < buffLen - 1) (c : Option UInt8) : IsLine buffLen (typeChar line c) := by
  cases c with
  | none => exact hline
  | some c =>
    rw [typeChar]
    by_cases h8 : c = 8
    · rw [if_pos h8]
      exact ⟨by rw [List.length_dropLast]; omega, fun d hd => hline.2 d (List.mem_of_mem_dropLast hd)⟩
    · rw [if_neg h8]
      by_cases hc : 32 < c ∧ c < 126
      · rw [if_pos hc]
        refine ⟨by rw [List.length_append, List.length_singleton]; omega, fun d hd => ?_⟩
        rcases List.mem_append.1 hd with hd | hd
        · exact hline.2 d hd
        · rw [List.mem_singleton.1 hd]
          exact hc
      · rw [if_neg hc]
        exact hline

theorem readLineLoop_line {buffLen : Nat} {input : List (Option UInt8)} {line line' : List UInt8}
    (hline : IsLine buffLen line) (hroom : line.length < buffLen - 1)
    (h : readLineLoop buffLen line input = some line') : IsLine buffLen line' := by
  induction input generalizing line with
  | nil => cases h
  | cons c input ih =>
    have htyped := typeChar_line hline hroom c
    rw [readLineLoop] at h
    split at h
    · injection h with h
      exact h ▸ hline
    · split at h
      · rename_i hroom'
        exact ih htyped hroom' h
      · injection h with h
        exact h ▸ htyped

/-- What is read fits, and has no blanks. -/
theorem readLine_line {buffLen : Nat} {input : List (Option UInt8)} {line : List UInt8} (hbuff : 2 ≤ buffLen)
    (h : readLine buffLen input = some line) : IsLine buffLen line := by
  have hnil : IsLine buffLen [] := ⟨Nat.zero_le _, fun c hc => absurd hc List.not_mem_nil⟩
  have hroom : ([] : List UInt8).length < buffLen - 1 := by
    rw [List.length_nil]
    omega
  exact readLineLoop_line hnil hroom h

/-! ## 2. sscanf -/

/-- A conversion: the number at the front of a text, and the rest. Lines have no blanks that it would skip. -/
abbrev Conversion := List UInt8 → Option (Int × List UInt8)

/-- `%d`. -/
def scanInt : Conversion := fun s => (takeNumeral 10 s).map fun p => (p.1.value 10, p.2)

/-- `%02x`: of two characters at most. `lone0x` is whether "0x" without a digit is read as 0, as the C library of
    the AVR does, or not at all, as ISO C wants it. -/
def scanHex2 (lone0x : Bool) : Conversion := fun s =>
  if s.take 2 = [48, 120] ∨ s.take 2 = [48, 88] then
    if lone0x then some (0, s.drop 2) else none
  else (takeNumeral 16 (s.take 2)).map fun p => (p.1.value 16, p.2 ++ s.drop 2)

/-- A part of a format: a conversion with the place for its number, or a character. -/
inductive Directive where
  | number (conversion : Conversion) (addr : Int)
  | char (c : UInt8)

def lowByte (v : Int) : UInt8 := (v % 256).toNat.toUInt8

/-- An `int` of sixteen bits, low byte first. -/
def store16 (cfg : Memory) (addr v : Int) : Memory :=
  Function.update (Function.update cfg addr (lowByte v)) (addr + 1) (lowByte (v / 256))

/-- `sscanf`: the number of conversions done, and the memory. -/
def sscanf : List Directive → List UInt8 → Memory → Nat × Memory
  | [], _, cfg => (0, cfg)
  | .number conversion addr :: format, s, cfg =>
    match conversion s with
    | none => (0, cfg)
    | some (v, rest) =>
      let r := sscanf format rest (store16 cfg addr v)
      (r.1 + 1, r.2)
  | .char c :: format, s, cfg =>
    match s with
    | [] => (0, cfg)
    | d :: rest => if d = c then sscanf format rest cfg else (0, cfg)

/-- The format of `n` numbers with a character between them, for places one after the other. -/
def numbersFormat (conversion : Conversion) (sep : UInt8) : Nat → Int → List Directive
  | 0, _ => []
  | 1, addr => [.number conversion addr]
  | n + 2, addr => .number conversion addr :: .char sep :: numbersFormat conversion sep (n + 1) (addr + 1)

/-- `"%d.%d.%d.%d"`. -/
def ipFormat (addr : Int) : List Directive := numbersFormat scanInt 46 4 addr

/-- `"%02x:%02x:%02x:%02x:%02x:%02x"`. -/
def macFormat (lone0x : Bool) (addr : Int) : List Directive := numbersFormat (scanHex2 lone0x) 58 6 addr

example : ipFormat 1 = [.number scanInt 1, .char 46, .number scanInt 2, .char 46, .number scanInt 3, .char 46,
    .number scanInt 4] := rfl

/-! ## 3. tftp_ip_config and netInit -/

/-- What was typed. -/
structure TftpLines where
  ip : Line
  mask : Line
  gateway : Line
  mac : Line

/-- From the first `sscanf` on; `cfg` is `tftp_cfg`, not initialised, `key` the key pressed at the end. What is
    written to slot 1, if anything is. -/
def storeConfig (lone0x : Bool) (lines : TftpLines) (cfg : Memory) (key : UInt8) : Option (List UInt8) :=
  let gateway := sscanf (ipFormat 1) lines.gateway.1 (Function.update cfg 0 0x55)
  if gateway.1 ≠ 4 then none else
  let mask := sscanf (ipFormat 5) lines.mask.1 gateway.2
  if mask.1 ≠ 4 then none else
  let mac := sscanf (macFormat lone0x 9) lines.mac.1 mask.2
  if mac.1 ≠ 6 then none else
  let ip := sscanf (ipFormat 15) lines.ip.1 mac.2
  if ip.1 ≠ 4 then none else
  if key = 121 ∨ key = 89 then some (bytesFrom (Function.update ip.2 19 0xAA) 20 0) else none

/-- `tftp_ip_config`: an empty line aborts. -/
def tftpIpConfig (lone0x : Bool) (lines : TftpLines) (cfg : Memory) (key : UInt8) : Option (List UInt8) :=
  if lines.ip.1 = [] ∨ lines.mask.1 = [] ∨ lines.gateway.1 = [] ∨ lines.mac.1 = [] then none
  else storeConfig lone0x lines cfg key

/-- `registerBuffer` as it is initialised. -/
def registerBuffer : List UInt8 :=
  [0x80, 192, 168, 0, 17, 255, 255, 255, 0, 0x12, 0x34, 0x45, 0x78, 0x9A, 0xBC, 192, 168, 0, 1,
    0, 0, 0, 0, 0x07, 0xd0, 0x80, 0x55, 0x55]

/-- A loop that writes `f i` to `i`, for `n` values of `i` from `start` on. -/
def writeLoop (f : Nat → UInt8) (start n : Nat) (mem : Nat → UInt8) : Nat → UInt8 :=
  (List.range' start n).foldl (fun mem i => Function.update mem i (f i)) mem

/-- `netInit`, with the 20 bytes of slot 1: the registers of the chip. -/
def netInit (tftpRegs : List UInt8) (chip : Nat → UInt8) : Nat → UInt8 :=
  let buffer : Nat → UInt8 := fun i => registerBuffer.getD i 0
  let buffer := if tftpRegs.getD 0 0 = 0x55 ∧ tftpRegs.getD 19 0 = 0xAA then
      writeLoop (fun i => tftpRegs.getD i 0) 1 18 buffer
    else buffer
  writeLoop buffer 0 28 chip

/-! ## 4. The bytes -/

theorem writeLoop_apply (f : Nat → UInt8) (start n : Nat) (mem : Nat → UInt8) (a : Nat) :
    writeLoop f start n mem a = if start ≤ a ∧ a < start + n then f a else mem a := by
  unfold writeLoop
  induction n generalizing start mem with
  | zero =>
    rw [if_neg (by omega)]
    rfl
  | succ n ih =>
    rw [List.range'_succ, List.foldl_cons, ih]
    by_cases h : start + 1 ≤ a ∧ a < start + 1 + n
    · rw [if_pos h, if_pos (by omega)]
    · rw [if_neg h]
      by_cases ha : a = start
      · rw [ha, Function.update_self, if_pos (by omega)]
      · rw [Function.update_of_ne ha, if_neg (by omega)]

/-- The registers from an address on. -/
def registersFrom (chip : Nat → UInt8) (addr n : Nat) : List Int :=
  (List.range' addr n).map fun a => ((chip a).toNat : Int)

/-- **The bootloader takes over what stands between the marks.** -/
theorem netInit_stored (content : List UInt8) (h : content.length = 18) (chip : Nat → UInt8) (a : Nat) (ha : a < 18) :
    netInit (0x55 :: content ++ [0xAA]) chip (a + 1) = content.getD a 0 := by
  have hend : (0x55 :: content ++ [0xAA]).getD 19 0 = 0xAA := by
    rw [List.cons_append, List.getD_cons_succ, List.getD_append_right _ _ _ _ (by omega), h]
    rfl
  unfold netInit
  rw [writeLoop_apply, if_pos (by omega), if_pos ⟨rfl, hend⟩, writeLoop_apply, if_pos (by omega), List.cons_append,
    List.getD_cons_succ, List.getD_append _ _ _ _ (by omega)]

/-- Conversions one after the other. -/
def storeAll (cfg : Memory) : Int → List Int → Memory
  | _, [] => cfg
  | addr, v :: vs => storeAll (store16 cfg addr v) (addr + 1) vs

/-- Only the places of the numbers and the one behind are written. -/
theorem storeAll_frame {cfg : Memory} {addr x : Int} {vs : List Int} (h : x < addr ∨ addr + vs.length < x) :
    storeAll cfg addr vs x = cfg x := by
  induction vs generalizing cfg addr with
  | nil => rfl
  | cons v vs ih =>
    rw [List.length_cons] at h
    rw [storeAll, ih (by omega), store16, Function.update_of_ne (by omega), Function.update_of_ne (by omega)]

/-- **Every place holds the low byte of its number**: what the conversion before it put there is overwritten. -/
theorem storeAll_bytes (cfg : Memory) (addr : Int) (vs : List Int) :
    bytesFrom (storeAll cfg addr vs) vs.length addr = vs.map lowByte := by
  induction vs generalizing cfg addr with
  | nil => rfl
  | cons v vs ih =>
    have hfirst : storeAll cfg addr (v :: vs) addr = lowByte v := by
      rw [storeAll, storeAll_frame (by omega), store16, Function.update_of_ne (by omega), Function.update_self]
    rw [List.length_cons, bytesFrom, hfirst, storeAll, ih]
    rfl

theorem storeAll_append (cfg : Memory) (addr : Int) (vs ws : List Int) :
    storeAll cfg addr (vs ++ ws) = storeAll (storeAll cfg addr vs) (addr + vs.length) ws := by
  induction vs generalizing cfg addr with
  | nil =>
    rw [List.length_nil, Int.natCast_zero, Int.add_zero]
    rfl
  | cons v vs ih =>
    rw [List.cons_append, storeAll, storeAll, ih, List.length_cons, Int.natCast_add, Int.natCast_one,
      Int.add_comm (vs.length : Int), ← Int.add_assoc]

/-- Eighteen numbers between the marks. -/
theorem stored_bytes (cfg : Memory) {vs : List Int} (h : vs.length = 18) :
    bytesFrom (Function.update (storeAll (Function.update cfg 0 0x55) 1 vs) 19 0xAA) 20 0 =
      0x55 :: vs.map lowByte ++ [0xAA] := by
  have hbytes := storeAll_bytes (Function.update cfg 0 0x55) 1 vs
  rw [h] at hbytes
  have hinner : bytesFrom (Function.update (storeAll (Function.update cfg 0 0x55) 1 vs) 19 0xAA) 18 1 =
      vs.map lowByte := by
    rw [← hbytes]
    exact bytesFrom_congr fun x _ hx => Function.update_of_ne (by omega) _ _
  have hfirst : Function.update (storeAll (Function.update cfg 0 0x55) 1 vs) 19 0xAA 0 = 0x55 := by
    rw [Function.update_of_ne (by omega), storeAll_frame (by omega), Function.update_self]
  have hlast : Function.update (storeAll (Function.update cfg 0 0x55) 1 vs) 19 0xAA 19 = 0xAA := Function.update_self ..
  rw [show 20 = 1 + (18 + 1) from rfl, bytesFrom_add, bytesFrom_add]
  simp only [Int.natCast_one, Int.zero_add]
  rw [hinner]
  simp only [bytesFrom, hfirst]
  rw [show (1 : Int) + (18 : Nat) = 19 from rfl, hlast]
  rfl

/-! ## 5. What is read -/

/-- `n` numbers at the front of a text, with a character between them. -/
def readNumbers (conversion : Conversion) (sep : UInt8) : Nat → List UInt8 → Option (List Int)
  | 0, _ => some []
  | 1, s => (conversion s).map fun p => [p.1]
  | n + 2, s =>
    match conversion s with
    | some (v, c :: rest) => if c = sep then (readNumbers conversion sep (n + 1) rest).map (v :: ·) else none
    | _ => none

section Reading

variable {conversion : Conversion} {sep : UInt8}

theorem length_readNumbers {n : Nat} {s : List UInt8} {vs : List Int} (h : readNumbers conversion sep n s = some vs) :
    vs.length = n := by
  induction n using Nat.twoStepInduction generalizing s vs with
  | zero =>
    cases h
    rfl
  | one =>
    rw [readNumbers, Option.map_eq_some_iff] at h
    obtain ⟨p, -, rfl⟩ := h
    rfl
  | more n _ ih =>
    rw [readNumbers] at h
    split at h
    · split at h
      · rw [Option.map_eq_some_iff] at h
        obtain ⟨ws, hws, rfl⟩ := h
        rw [List.length_cons, ih hws]
      · cases h
    · cases h

/-- **`sscanf` does all its conversions exactly if the numbers are there, and then it stores them.** -/
theorem sscanf_numbers (conversion : Conversion) (sep : UInt8) (n : Nat) (s : List UInt8) (cfg : Memory) (addr : Int) :
    match readNumbers conversion sep n s with
    | some vs => sscanf (numbersFormat conversion sep n addr) s cfg = (n, storeAll cfg addr vs)
    | none => (sscanf (numbersFormat conversion sep n addr) s cfg).1 < n := by
  induction n using Nat.twoStepInduction generalizing s cfg addr with
  | zero => rfl
  | one =>
    cases hc : conversion s with
    | none => simp [readNumbers, numbersFormat, sscanf, hc]
    | some p => simp [readNumbers, numbersFormat, sscanf, storeAll, hc]
  | more n _ ih =>
    rw [readNumbers, numbersFormat, sscanf]
    rcases hc : conversion s with _ | ⟨v, _ | ⟨c, rest⟩⟩
    · exact Nat.zero_lt_succ _
    · simp [sscanf]
    · simp only [sscanf]
      by_cases hsep : c = sep
      · rw [if_pos hsep, if_pos hsep]
        have hrest := ih rest (store16 cfg addr v) (addr + 1)
        cases hr : readNumbers conversion sep (n + 1) rest with
        | none =>
          rw [hr] at hrest
          exact Nat.succ_lt_succ hrest
        | some vs =>
          rw [hr] at hrest
          simp only [Option.map_some, hrest, storeAll]
      · rw [if_neg hsep, if_neg hsep]
        simp

theorem sscanf_count_iff {n : Nat} {s : List UInt8} {cfg : Memory} {addr : Int} :
    (sscanf (numbersFormat conversion sep n addr) s cfg).1 = n ↔ ∃ vs, readNumbers conversion sep n s = some vs := by
  have h := sscanf_numbers conversion sep n s cfg addr
  cases hr : readNumbers conversion sep n s with
  | none =>
    rw [hr] at h
    exact iff_of_false (Nat.ne_of_lt h) (by simp)
  | some vs =>
    rw [hr] at h
    exact iff_of_true (congrArg Prod.fst h) ⟨vs, rfl⟩

theorem sscanf_stores {n : Nat} {s : List UInt8} {vs : List Int} (h : readNumbers conversion sep n s = some vs)
    (cfg : Memory) (addr : Int) :
    sscanf (numbersFormat conversion sep n addr) s cfg = (n, storeAll cfg addr vs) := by
  have hs := sscanf_numbers conversion sep n s cfg addr
  rw [h] at hs
  exact hs

end Reading

/-- The numbers `sscanf` finds in the four lines. -/
structure Read (lone0x : Bool) (lines : TftpLines) (gateway mask mac ip : List Int) : Prop where
  gateway : readNumbers scanInt 46 4 lines.gateway.1 = some gateway
  mask : readNumbers scanInt 46 4 lines.mask.1 = some mask
  mac : readNumbers (scanHex2 lone0x) 58 6 lines.mac.1 = some mac
  ip : readNumbers scanInt 46 4 lines.ip.1 = some ip

section Stored

variable {lone0x : Bool} {lines : TftpLines} {gateway mask mac ip : List Int}

theorem Read.length (h : Read lone0x lines gateway mask mac ip) :
    gateway.length = 4 ∧ mask.length = 4 ∧ mac.length = 6 ∧ ip.length = 4 :=
  ⟨length_readNumbers h.gateway, length_readNumbers h.mask, length_readNumbers h.mac, length_readNumbers h.ip⟩

/-- No number is read from an empty line. -/
theorem readNumbers_empty {conversion : Conversion} {sep : UInt8} (h : conversion [] = none) (n : Nat) :
    readNumbers conversion sep (n + 1) [] = none := by
  cases n with
  | zero => rw [readNumbers, h, Option.map_none]
  | succ n => rw [readNumbers, h]

theorem Read.nonempty (h : Read lone0x lines gateway mask mac ip) :
    ¬ (lines.ip.1 = [] ∨ lines.mask.1 = [] ∨ lines.gateway.1 = [] ∨ lines.mac.1 = []) := by
  have hint : readNumbers scanInt 46 4 [] = none := readNumbers_empty rfl 3
  have hhex : readNumbers (scanHex2 lone0x) 58 6 [] = none := readNumbers_empty rfl 5
  rintro (h' | h' | h' | h')
  · have := h.ip
    rw [h', hint] at this
    cases this
  · have := h.mask
    rw [h', hint] at this
    cases this
  · have := h.gateway
    rw [h', hint] at this
    cases this
  · have := h.mac
    rw [h', hhex] at this
    cases this

theorem storeConfig_read (h : Read lone0x lines gateway mask mac ip) (cfg : Memory) (key : UInt8) :
    storeConfig lone0x lines cfg key =
      if key = 121 ∨ key = 89 then some (0x55 :: (gateway ++ mask ++ mac ++ ip).map lowByte ++ [0xAA]) else none := by
  obtain ⟨hg, hm, hh, hi⟩ := h.length
  have hall : (gateway ++ mask ++ mac ++ ip).length = 18 := by
    simp only [List.length_append, hg, hm, hh, hi]
  have hjoin : storeAll (Function.update cfg 0 0x55) 1 (gateway ++ mask ++ mac ++ ip) =
      storeAll (storeAll (storeAll (storeAll (Function.update cfg 0 0x55) 1 gateway) 5 mask) 9 mac) 15 ip := by
    rw [storeAll_append, storeAll_append, storeAll_append]
    simp only [List.length_append, hg, hm, hh]
    rfl
  simp only [storeConfig, ipFormat, macFormat, sscanf_stores h.gateway, sscanf_stores h.mask, sscanf_stores h.mac,
    sscanf_stores h.ip, ← hjoin, stored_bytes cfg hall, ne_eq, not_true_eq_false, if_false]

/-- **What is stored**: the low bytes of what was read, between the marks. -/
theorem tftpIpConfig_some_iff {cfg : Memory} {key : UInt8} {stored : List UInt8} :
    tftpIpConfig lone0x lines cfg key = some stored ↔
      (key = 121 ∨ key = 89) ∧ ∃ gateway mask mac ip, Read lone0x lines gateway mask mac ip ∧
        stored = 0x55 :: (gateway ++ mask ++ mac ++ ip).map lowByte ++ [0xAA] := by
  constructor
  · intro h
    unfold tftpIpConfig at h
    split at h
    · cases h
    · have hread : ∃ gateway mask mac ip, Read lone0x lines gateway mask mac ip := by
        unfold storeConfig at h
        simp only at h
        split at h
        · cases h
        · rename_i hg
          split at h
          · cases h
          · rename_i hm
            split at h
            · cases h
            · rename_i hh
              split at h
              · cases h
              · rename_i hi
                obtain ⟨gateway, hg⟩ := sscanf_count_iff.1 (not_not.1 hg)
                obtain ⟨mask, hm⟩ := sscanf_count_iff.1 (not_not.1 hm)
                obtain ⟨mac, hh⟩ := sscanf_count_iff.1 (not_not.1 hh)
                obtain ⟨ip, hi⟩ := sscanf_count_iff.1 (not_not.1 hi)
                exact ⟨gateway, mask, mac, ip, hg, hm, hh, hi⟩
      obtain ⟨gateway, mask, mac, ip, hread⟩ := hread
      rw [storeConfig_read hread] at h
      split at h
      · rename_i hkey
        exact ⟨hkey, gateway, mask, mac, ip, hread, (Option.some.inj h).symm⟩
      · cases h
  · rintro ⟨hkey, gateway, mask, mac, ip, hread, rfl⟩
    unfold tftpIpConfig
    rw [if_neg hread.nonempty, storeConfig_read hread, if_pos hkey]

end Stored

/-! ## 6. What is typed -/

/-- The numbers in a text. -/
def typed (base : Nat) (s : List UInt8) : List Int := (numerals base s).map (Numeral.value base)

/-- All numbers but the last are followed by the character between them, and so are all there is up to it. -/
theorem numerals_read {base : Nat} {conversion : Conversion} {sep : UInt8}
    (hconv : ∀ s v t, conversion s = some (v, sep :: t) →
      ∃ m : Numeral, numerals base s = m :: numerals base t ∧ m.value base = v)
    {n : Nat} {s : List UInt8} {vs : List Int} (h : readNumbers conversion sep (n + 1) s = some vs) :
    ∃ ms last v rest, numerals base s = ms ++ numerals base last ∧ ms.length = n ∧
      vs = ms.map (Numeral.value base) ++ [v] ∧ conversion last = some (v, rest) := by
  induction n generalizing s vs with
  | zero =>
    rw [readNumbers, Option.map_eq_some_iff] at h
    obtain ⟨⟨v, rest⟩, hc, rfl⟩ := h
    exact ⟨[], s, v, rest, rfl, rfl, rfl, hc⟩
  | succ n ih =>
    rw [readNumbers] at h
    split at h
    · rename_i v c t hc
      split at h
      · rename_i hsep
        rw [Option.map_eq_some_iff] at h
        obtain ⟨ws, hws, rfl⟩ := h
        rw [hsep] at hc
        obtain ⟨m, hm, rfl⟩ := hconv s v t hc
        obtain ⟨ms, last, v, rest, hnum, hlen, rfl, hlast⟩ := ih hws
        refine ⟨m :: ms, last, v, rest, ?_, ?_, rfl, hlast⟩
        · rw [hm, hnum, List.cons_append]
        · rw [List.length_cons, hlen]
      · cases h
    · cases h

theorem numerals_scanInt {s rest : List UInt8} {v : Int} (h : scanInt s = some (v, rest)) :
    ∃ m : Numeral, numerals 10 s = m :: numerals 10 rest ∧ m.value 10 = v := by
  unfold scanInt at h
  rw [Option.map_eq_some_iff] at h
  obtain ⟨⟨n, r⟩, hn, hv⟩ := h
  obtain ⟨rfl, rfl⟩ := Prod.mk.inj hv
  obtain ⟨rfl, hproper, hstops⟩ := takeNumeral_text hn
  exact ⟨n, numerals_text (by decide) hproper hstops, rfl⟩

/-- The four numbers are the first of those typed. -/
theorem typed_int {s : List UInt8} {vs : List Int} {n : Nat} (h : readNumbers scanInt 46 (n + 1) s = some vs) :
    ∃ more, typed 10 s = vs ++ more := by
  have hconv : ∀ s v t, scanInt s = some (v, 46 :: t) →
      ∃ m : Numeral, numerals 10 s = m :: numerals 10 t ∧ m.value 10 = v := by
    intro s v t h
    obtain ⟨m, hm, hv⟩ := numerals_scanInt h
    rw [numerals_sep (by decide) (by decide)] at hm
    exact ⟨m, hm, hv⟩
  obtain ⟨ms, last, v, rest, hnum, -, rfl, hlast⟩ := numerals_read hconv h
  obtain ⟨m, hm, rfl⟩ := numerals_scanInt hlast
  refine ⟨typed 10 rest, ?_⟩
  unfold typed
  rw [hnum, hm, List.map_append, List.map_cons, List.append_assoc]
  rfl

/-- The 0 of a lone `0x`. -/
theorem proper_zero : Numeral.Proper 16 ⟨[], [48]⟩ :=
  ⟨.inl rfl, List.cons_ne_nil _ _, fun c hc => by rw [List.mem_singleton.1 hc]; rfl⟩

/-- What two characters can be: "0x", or a numeral that ends with them or before. -/
theorem scanHex2_cases {lone0x : Bool} {s rest : List UInt8} {v : Int} (h : scanHex2 lone0x s = some (v, rest)) :
    (∃ c, (c = 120 ∨ c = 88) ∧ s = 48 :: c :: rest ∧ v = 0) ∨
      ∃ n : Numeral, n.Proper 16 ∧ s = n.text ++ rest ∧ n.value 16 = v ∧ n.text.length ≤ 2 ∧
        (n.text.length < 2 → Stops 16 rest) := by
  unfold scanHex2 at h
  split at h
  · rename_i h0x
    split at h
    · injection h with h
      obtain ⟨rfl, rfl⟩ := Prod.mk.inj h
      have hs := (List.take_append_drop 2 s).symm
      rcases h0x with h0x | h0x
      · rw [h0x] at hs
        exact .inl ⟨120, .inl rfl, hs, rfl⟩
      · rw [h0x] at hs
        exact .inl ⟨88, .inr rfl, hs, rfl⟩
    · cases h
  · rw [Option.map_eq_some_iff] at h
    obtain ⟨⟨n, r⟩, hn, hv⟩ := h
    obtain ⟨rfl, rfl⟩ := Prod.mk.inj hv
    obtain ⟨htext, hproper, hstops⟩ := takeNumeral_text hn
    have hlen : n.text.length + r.length = min 2 s.length := by
      rw [← List.length_append, ← htext, List.length_take]
    refine .inr ⟨n, hproper, ?_, rfl, by omega, fun hshort => ?_⟩
    · rw [← List.append_assoc, ← htext, List.take_append_drop]
    · cases r with
      | nil =>
        have hend : s.drop 2 = [] := List.drop_eq_nil_of_le (by rw [List.length_nil] at hlen; omega)
        rw [hend]
        exact fun c hc => absurd hc (by simp)
      | cons c r => exact hstops

/-- Before a colon, what is read is what is typed. -/
theorem numerals_scanHex2 {lone0x : Bool} {s t : List UInt8} {v : Int} (h : scanHex2 lone0x s = some (v, 58 :: t)) :
    ∃ m : Numeral, numerals 16 s = m :: numerals 16 t ∧ m.value 16 = v := by
  have hcolon : Stops 16 (58 :: t) := by
    rintro c hc
    rw [← Option.some.inj hc]
    decide
  rcases scanHex2_cases h with ⟨c, hc, rfl, rfl⟩ | ⟨n, hn, rfl, hv, -, -⟩
  · have hx : isDigit 16 c = false ∧ isSign c = false := by
      rcases hc with rfl | rfl <;> decide
    refine ⟨⟨[], [48]⟩, ?_, rfl⟩
    have hstop : Stops 16 (c :: 58 :: t) := fun d hd => Option.some.inj hd ▸ hx.1
    have hsep : numerals 16 (c :: 58 :: t) = numerals 16 t := by
      rw [numerals_sep hx.1 hx.2, numerals_sep (by decide) (by decide)]
    rw [← hsep]
    exact numerals_text (by decide) proper_zero hstop
  · refine ⟨n, ?_, hv⟩
    rw [numerals_text (by decide) hn hcolon, numerals_sep (by decide) (by decide)]

theorem lowByte_toNat (v : Int) : ((lowByte v).toNat : Int) = v % 256 := by
  unfold lowByte
  have h0 := Int.emod_nonneg v (by decide : (256 : Int) ≠ 0)
  have h256 := Int.emod_lt_of_pos v (by decide : (0 : Int) < 256)
  rw [Nat.toUInt8_eq, UInt8.toNat_ofNat', Nat.mod_eq_of_lt (by omega)]
  omega

/-- In one byte. -/
def OneByte (v : Int) : Prop := 0 ≤ v ∧ v ≤ 255

theorem lowByte_eq_iff {v : Int} : ((lowByte v).toNat : Int) = v ↔ OneByte v := by
  rw [lowByte_toNat]
  unfold OneByte
  omega

/-- It is not cut: two characters are all there is, or it does not matter. -/
def NotCut (n : Numeral) : Prop := n.text.length ≤ 2 ∨ n.value 16 = 0

/-- Of a number that goes on behind its first two characters, those are the number only if it is 0. -/
theorem lowByte_extend {n : Numeral} {more : List UInt8} (hn : n.Proper 16) (hlen : n.text.length ≤ 2)
    (hmore : more ≠ []) :
    ((lowByte (n.value 16)).toNat : Int) = Numeral.value 16 ⟨n.sign, n.digits ++ more⟩ ↔
      Numeral.value 16 ⟨n.sign, n.digits ++ more⟩ = 0 := by
  have hext := value_extend (by decide : 2 ≤ 16) n hmore
  have hdigits : digitsValue 16 n.digits < 16 ^ 2 := by
    refine (digitsValue_lt hn.all).trans_le (Nat.pow_le_pow_right (by decide) ?_)
    rw [Numeral.text, List.length_append] at hlen
    omega
  rw [lowByte_toNat]
  unfold Numeral.value at hext ⊢
  by_cases hsign : n.sign = [45]
  · simp only [if_pos hsign] at hext ⊢
    omega
  · simp only [if_neg hsign] at hext ⊢
    omega

/-- **The last number of the hardware address**: its register holds what was typed exactly if that fits and is not
    cut. -/
theorem last_scanHex2 {lone0x : Bool} {s rest : List UInt8} {v : Int} (h : scanHex2 lone0x s = some (v, rest)) :
    ∃ (m : Numeral) (more : List Numeral), numerals 16 s = m :: more ∧
      (((lowByte v).toNat : Int) = m.value 16 ↔ OneByte (m.value 16) ∧ NotCut m) := by
  rcases scanHex2_cases h with ⟨c, hc, rfl, rfl⟩ | ⟨n, hn, rfl, rfl, hlen, hshort⟩
  · have hx : isDigit 16 c = false := by
      rcases hc with rfl | rfl <;> decide
    have hstop : Stops 16 (c :: rest) := fun d hd => Option.some.inj hd ▸ hx
    refine ⟨⟨[], [48]⟩, numerals 16 (c :: rest), numerals_text (by decide) proper_zero hstop, ?_⟩
    exact iff_of_true rfl ⟨⟨by decide, by decide⟩, .inr rfl⟩
  · refine ⟨_, _, numerals_extend (by decide) hn rest, ?_⟩
    by_cases hmore : rest.takeWhile (isDigit 16) = []
    · rw [hmore, List.append_nil, lowByte_eq_iff]
      exact (and_iff_left (.inl hlen)).symm
    · have htwo : n.text.length = 2 := by
        by_contra hne
        have hstops := hshort (by omega)
        refine hmore ?_
        cases rest with
        | nil => rfl
        | cons c rest => exact List.takeWhile_cons_of_neg (by simp [hstops c rfl])
      have hlong : ¬ (Numeral.text ⟨n.sign, n.digits ++ rest.takeWhile (isDigit 16)⟩).length ≤ 2 := by
        have := List.length_pos_iff.2 hmore
        simp only [Numeral.text, List.length_append] at htwo ⊢
        omega
      rw [lowByte_extend hn hlen hmore, NotCut, or_iff_right hlong]
      constructor
      · intro h0
        rw [h0]
        exact ⟨⟨by decide, by decide⟩, rfl⟩
      · exact fun h0 => h0.2

/-! ## 7. From the configurator to the bootloader -/

/-- The registers hold the numbers typed. -/
structure SettingsKept (lines : TftpLines) (chip : Nat → UInt8) : Prop where
  gateway : registersFrom chip 1 4 = typed 10 lines.gateway.1
  mask : registersFrom chip 5 4 = typed 10 lines.mask.1
  mac : registersFrom chip 9 6 = typed 16 lines.mac.1
  ip : registersFrom chip 15 4 = typed 10 lines.ip.1

/-- All numbers typed. -/
def TftpLines.numbers (lines : TftpLines) : List Int :=
  typed 10 lines.gateway.1 ++ typed 10 lines.mask.1 ++ typed 16 lines.mac.1 ++ typed 10 lines.ip.1

/-- Lines that are accepted have no number outside 0..255, and the bootloader programs the chip with their
    numbers. -/
def SettingsSurvive (lone0x : Bool) (lines : TftpLines) : Prop :=
  ∀ cfg key stored chip, tftpIpConfig lone0x lines cfg key = some stored →
    SettingsKept lines (netInit stored chip) ∧ ∀ v ∈ lines.numbers, OneByte v

/-- As many numbers as asked for, all of one byte. -/
structure Fits (base n : Nat) (s : List UInt8) : Prop where
  count : (typed base s).length = n
  range : ∀ v ∈ typed base s, OneByte v

/-- If the lines begin with the numbers that are asked for, they have no others, all of one byte, and the last
    number of the hardware address is not cut. -/
def TypedWell (lone0x : Bool) (lines : TftpLines) : Prop :=
  (∃ gateway mask mac ip, Read lone0x lines gateway mask mac ip) →
    Fits 10 4 lines.gateway.1 ∧ Fits 10 4 lines.mask.1 ∧ Fits 16 6 lines.mac.1 ∧ Fits 10 4 lines.ip.1 ∧
      ∀ m ∈ (numerals 16 lines.mac.1).getLast?, NotCut m

/-- The bytes as registers show them. -/
def lowBytes (vs : List Int) : List Int := vs.map fun v => ((lowByte v).toNat : Int)

theorem registers_stored {front vs back : List Int} (h : (front ++ vs ++ back).length = 18) (chip : Nat → UInt8) :
    registersFrom (netInit (0x55 :: (front ++ vs ++ back).map lowByte ++ [0xAA]) chip) (front.length + 1) vs.length =
      lowBytes vs := by
  refine List.ext_getElem? fun k => ?_
  unfold registersFrom lowBytes
  rw [List.getElem?_map, List.getElem?_map]
  rw [List.length_append, List.length_append] at h
  by_cases hk : k < vs.length
  · have hcell : ((front ++ vs ++ back).map lowByte).getD (front.length + k) 0 = lowByte vs[k] := by
      rw [List.getD_eq_getElem?_getD, List.getElem?_map, List.append_assoc, List.getElem?_append_right (by omega),
        Nat.add_sub_cancel_left, List.getElem?_append_left hk, List.getElem?_eq_getElem hk]
      rfl
    have hreg := netInit_stored ((front ++ vs ++ back).map lowByte)
      (by rw [List.length_map, List.length_append, List.length_append, h]) chip (front.length + k) (by omega)
    rw [hcell] at hreg
    rw [List.getElem?_range' hk, List.getElem?_eq_getElem hk, Option.map_some, Option.map_some, Nat.one_mul,
      Nat.add_right_comm, hreg]
  · rw [List.getElem?_eq_none (by rw [List.length_range']; omega), List.getElem?_eq_none (by omega)]
    rfl

theorem lowBytes_eq_iff {vs : List Int} : lowBytes vs = vs ↔ ∀ v ∈ vs, OneByte v := by
  unfold lowBytes
  constructor
  · intro h v hv
    have hmap : vs.map (fun v => ((lowByte v).toNat : Int)) = vs.map id := by rw [h, List.map_id]
    exact lowByte_eq_iff.1 (List.map_inj_left.1 hmap v hv)
  · intro h
    exact (List.map_congr_left fun v hv => lowByte_eq_iff.2 (h v hv)).trans (List.map_id vs)

/-- The numbers of an address with dots. -/
theorem fits_int_iff {n : Nat} {s : List UInt8} {vs : List Int} (h : readNumbers scanInt 46 (n + 1) s = some vs) :
    lowBytes vs = typed 10 s ↔ Fits 10 (n + 1) s := by
  obtain ⟨more, hmore⟩ := typed_int h
  have hlen := length_readNumbers h
  have hlow : (lowBytes vs).length = vs.length := List.length_map _
  constructor
  · intro heq
    have hnil : more = [] := by
      have := congrArg List.length heq
      rw [hmore, List.length_append, hlow] at this
      exact List.length_eq_zero_iff.1 (by omega)
    rw [hnil, List.append_nil] at hmore
    rw [hmore] at heq
    exact ⟨by rw [hmore, hlen], by rw [hmore]; exact lowBytes_eq_iff.1 heq⟩
  · intro hfits
    have hnil : more = [] := by
      have := hfits.count
      rw [hmore, List.length_append, hlen] at this
      exact List.length_eq_zero_iff.1 (by omega)
    have hrange := hfits.range
    rw [hmore, hnil, List.append_nil] at hrange ⊢
    exact lowBytes_eq_iff.2 hrange

/-- The numbers of the hardware address. -/
theorem fits_hex_iff {lone0x : Bool} {n : Nat} {s : List UInt8} {vs : List Int}
    (h : readNumbers (scanHex2 lone0x) 58 (n + 1) s = some vs) :
    lowBytes vs = typed 16 s ↔ Fits 16 (n + 1) s ∧ ∀ m ∈ (numerals 16 s).getLast?, NotCut m := by
  obtain ⟨ms, last, v, rest, hnum, hlen, rfl, hlast⟩ := numerals_read (fun _ _ _ => numerals_scanHex2) h
  obtain ⟨m, more, hm, hiff⟩ := last_scanHex2 hlast
  rw [hm] at hnum
  have htyped : typed 16 s = ms.map (Numeral.value 16) ++ m.value 16 :: more.map (Numeral.value 16) := by
    rw [typed, hnum, List.map_append, List.map_cons]
  have hlow : lowBytes (ms.map (Numeral.value 16) ++ [v]) =
      lowBytes (ms.map (Numeral.value 16)) ++ [((lowByte v).toNat : Int)] := by
    rw [lowBytes, List.map_append]
    rfl
  rw [hlow, htyped]
  constructor
  · intro heq
    have hparts := List.append_inj heq (by rw [lowBytes, List.length_map])
    obtain ⟨hv, hnil⟩ := List.cons.inj hparts.2
    have hnil : more = [] := List.map_eq_nil_iff.1 hnil.symm
    have hwell := hiff.1 hv
    subst hnil
    refine ⟨⟨?_, ?_⟩, ?_⟩
    · rw [htyped]
      simp [hlen]
    · rw [htyped]
      intro w hw
      rcases List.mem_append.1 hw with hw | hw
      · exact lowBytes_eq_iff.1 hparts.1 w hw
      · rw [List.map_nil, List.mem_singleton] at hw
        exact hw ▸ hwell.1
    · intro m' hm'
      rw [hnum, List.getLast?_concat] at hm'
      exact Option.some.inj hm' ▸ hwell.2
  · rintro ⟨hfits, hcut⟩
    have hnil : more = [] := by
      have := hfits.count
      rw [htyped, List.length_append, List.length_cons, List.length_map, List.length_map, hlen] at this
      exact List.length_eq_zero_iff.1 (by omega)
    subst hnil
    have hrange := hfits.range
    rw [htyped] at hrange
    have hv := hiff.2 ⟨hrange _ (List.mem_append_right _ List.mem_cons_self),
      hcut m (by rw [hnum]; exact List.getLast?_concat)⟩
    rw [hv, lowBytes_eq_iff.2 fun w hw => hrange w (List.mem_append_left _ hw)]
    rfl

/-- After lines that were read. -/
theorem settingsKept_iff {lone0x : Bool} {lines : TftpLines} {gateway mask mac ip : List Int}
    (h : Read lone0x lines gateway mask mac ip) (chip : Nat → UInt8) :
    SettingsKept lines (netInit (0x55 :: (gateway ++ mask ++ mac ++ ip).map lowByte ++ [0xAA]) chip) ↔
      Fits 10 4 lines.gateway.1 ∧ Fits 10 4 lines.mask.1 ∧ Fits 16 6 lines.mac.1 ∧ Fits 10 4 lines.ip.1 ∧
        ∀ m ∈ (numerals 16 lines.mac.1).getLast?, NotCut m := by
  obtain ⟨hg, hm, hh, hi⟩ := h.length
  have hgroup : ∀ {front vs back : List Int}, gateway ++ mask ++ mac ++ ip = front ++ vs ++ back →
      registersFrom (netInit (0x55 :: (gateway ++ mask ++ mac ++ ip).map lowByte ++ [0xAA]) chip) (front.length + 1)
        vs.length = lowBytes vs := by
    intro front vs back hsplit
    have hall : (front ++ vs ++ back).length = 18 := by
      rw [← hsplit]
      simp only [List.length_append, hg, hm, hh, hi]
    rw [hsplit]
    exact registers_stored hall chip
  have hgateway := @hgroup [] gateway (mask ++ mac ++ ip) (by simp)
  have hmask := @hgroup gateway mask (mac ++ ip) (by simp)
  have hmac := @hgroup (gateway ++ mask) mac ip (by simp)
  have hip := @hgroup (gateway ++ mask ++ mac) ip [] (by simp)
  simp only [List.length_append, List.length_nil, hg, hm, hh, hi] at hgateway hmask hmac hip
  constructor
  · intro hkept
    have h₁ := (fits_int_iff h.gateway).1 (hgateway.symm.trans hkept.gateway)
    have h₂ := (fits_int_iff h.mask).1 (hmask.symm.trans hkept.mask)
    have h₃ := (fits_hex_iff h.mac).1 (hmac.symm.trans hkept.mac)
    have h₄ := (fits_int_iff h.ip).1 (hip.symm.trans hkept.ip)
    exact ⟨h₁, h₂, h₃.1, h₄, h₃.2⟩
  · rintro ⟨h₁, h₂, h₃, h₄, h₅⟩
    exact
      { gateway := hgateway.trans ((fits_int_iff h.gateway).2 h₁)
        mask := hmask.trans ((fits_int_iff h.mask).2 h₂)
        mac := hmac.trans ((fits_hex_iff h.mac).2 ⟨h₃, h₅⟩)
        ip := hip.trans ((fits_int_iff h.ip).2 h₄) }

/-- **The settings survive exactly if they are typed well.** -/
theorem settingsSurvive_iff (lone0x : Bool) (lines : TftpLines) :
    SettingsSurvive lone0x lines ↔ TypedWell lone0x lines := by
  constructor
  · rintro hsurvive ⟨gateway, mask, mac, ip, hread⟩
    have hstored : tftpIpConfig lone0x lines (fun _ => 0) 121 =
        some (0x55 :: (gateway ++ mask ++ mac ++ ip).map lowByte ++ [0xAA]) :=
      tftpIpConfig_some_iff.2 ⟨.inl rfl, gateway, mask, mac, ip, hread, rfl⟩
    exact (settingsKept_iff hread _).1 (hsurvive _ _ _ (fun _ => 0) hstored).1
  · intro hwell cfg key stored chip hstored
    obtain ⟨-, gateway, mask, mac, ip, hread, rfl⟩ := tftpIpConfig_some_iff.1 hstored
    have hfits := hwell ⟨gateway, mask, mac, ip, hread⟩
    refine ⟨(settingsKept_iff hread chip).2 hfits, fun v hv => ?_⟩
    obtain ⟨h₁, h₂, h₃, h₄, -⟩ := hfits
    unfold TftpLines.numbers at hv
    rw [List.mem_append, List.mem_append, List.mem_append] at hv
    rcases hv with ((hv | hv) | hv) | hv
    · exact h₁.range v hv
    · exact h₂.range v hv
    · exact h₃.range v hv
    · exact h₄.range v hv

/-- IP address 300.1.1.1, mask 255.0.0.0, gateway 10.0.0.1, hardware address 1:2:3:4:5:6. -/
def address300 : TftpLines where
  ip := ⟨[51, 48, 48, 46, 49, 46, 49, 46, 49], isLine_of_all (by decide) (by decide)⟩
  mask := ⟨[50, 53, 53, 46, 48, 46, 48, 46, 48], isLine_of_all (by decide) (by decide)⟩
  gateway := ⟨[49, 48, 46, 48, 46, 48, 46, 49], isLine_of_all (by decide) (by decide)⟩
  mac := ⟨[49, 58, 50, 58, 51, 58, 52, 58, 53, 58, 54], isLine_of_all (by decide) (by decide)⟩

/-- **300 is accepted, and stored as 44.** -/
theorem address300_stored :
    300 ∈ address300.numbers ∧ tftpIpConfig false address300 (fun _ => 0) 121 =
        some [0x55, 10, 0, 0, 1, 255, 0, 0, 0, 1, 2, 3, 4, 5, 6, 44, 1, 1, 1, 0xAA] := by
  decide +kernel

end SmartHome.Firmware
