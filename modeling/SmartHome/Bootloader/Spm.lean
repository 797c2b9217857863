/-
  Subject:   THE INTERNAL FLASH AND ITS SELF-PROGRAMMING (boot.h on the ATmega328P).

  `Spm` is what the store-program-memory instruction works on: the flash bytes, the temporary
  page buffer, and a log of the pages erased and written. The log has no counterpart in the
  chip; it is what the statements about "every page erased or written" speak of.

  * `bootPageErase`, `bootPageFill`, `bootPageWrite` -- the three boot.h operations;
  * `flashPage` -- lines 219-233 of ihex.c: erase, fill 64 words, write;
  * `flashPage_mem`, `flashPage_log` -- what programming one page does, whatever the page
    buffer held before;
  * `validImage` -- validate.c.

  The chip's numbers stand as numerals: 128 is `SPM_PAGESIZE`, 256 the number of pages.
-/
import Mathlib.Data.List.Basic
import Mathlib.Logic.Function.Basic

namespace SmartHome.Bootloader

/-! ## 1. The three operations -/

/-- An array of bytes, or a text. -/
abbrev Bytes := List UInt8

/-- One page operation, with the address it was given. -/
inductive SpmOp where
  | erase (addr : Nat)
  | write (addr : Nat) (page : Bytes)
  deriving DecidableEq, Repr

/-- The address of a page operation. -/
def SpmOp.addr : SpmOp → Nat
  | .erase a => a
  | .write a _ => a

/-- The flash of the chip, its page buffer and the log of page operations. -/
structure Spm where
  mem : Nat → UInt8
  buf : Nat → UInt8
  log : List SpmOp

/-- The page an address selects: 256 pages of 128 bytes, the address bits above are ignored. -/
def pageNo (addr : Nat) : Nat := addr / 128 % 256

/-- `boot_page_erase`. -/
def bootPageErase (addr : Nat) (f : Spm) : Spm :=
  { f with
    mem := fun a => if a / 128 = pageNo addr then 0xFF else f.mem a
    log := f.log ++ [.erase addr] }

/-- `boot_page_fill`: one word into the page buffer, low byte first. -/
def bootPageFill (addr wv : Nat) (f : Spm) : Spm :=
  let even := addr % 128 / 2 * 2
  let low := Function.update f.buf even (UInt8.ofNat wv)
  { f with buf := Function.update low (even + 1) (UInt8.ofNat (wv / 256)) }

/-- `boot_page_write`: programming can only clear bits; the page buffer is erased after it. -/
def bootPageWrite (addr : Nat) (f : Spm) : Spm :=
  { mem := fun a => if a / 128 = pageNo addr then f.mem a &&& f.buf (a % 128)
      else f.mem a
    buf := fun _ => 0xFF
    log := f.log ++ [.write addr ((List.range 128).map f.buf)] }

/-! ## 2. Programming one page -/

/-- `(package[offset]) | (package[offset+1]<<8)`. -/
def pageWord (page : Nat → UInt8) (offset : Nat) : Nat :=
  (page offset).toNat ||| (page (offset + 1)).toNat <<< 8

/-- The loop `for (offset=0; offset < SPM_PAGESIZE; offset+=2) boot_page_fill(...)`, the first
    `k` rounds. -/
def fillWords (addr : Nat) (page : Nat → UInt8) : Nat → Spm → Spm
  | 0, f => f
  | k + 1, f => bootPageFill (addr + 2 * k) (pageWord page (2 * k)) (fillWords addr page k f)

/-- Erase the page, fill the buffer, write the page. -/
def flashPage (addr : Nat) (page : Nat → UInt8) (f : Spm) : Spm :=
  bootPageWrite addr (fillWords addr page 64 (bootPageErase addr f))

theorem ff_and (b : UInt8) : 0xFF &&& b = b := by
  apply UInt8.toNat_inj.mp
  have hb := b.toNat_lt
  rw [UInt8.toNat_and, Nat.and_comm]
  exact (Nat.and_two_pow_sub_one_eq_mod b.toNat 8).trans (Nat.mod_eq_of_lt hb)

theorem pageWord_eq (page : Nat → UInt8) (o : Nat) :
    pageWord page o = (page (o + 1)).toNat * 256 + (page o).toNat := by
  unfold pageWord
  rw [Nat.or_comm, ← Nat.shiftLeft_add_eq_or_of_lt (page o).toNat_lt, Nat.shiftLeft_eq]

theorem pageWord_low (page : Nat → UInt8) (o : Nat) : UInt8.ofNat (pageWord page o) = page o := by
  have h := (page o).toNat_lt
  rw [pageWord_eq]
  apply UInt8.toNat_inj.mp
  rw [UInt8.toNat_ofNat']
  omega

theorem pageWord_high (page : Nat → UInt8) (o : Nat) :
    UInt8.ofNat (pageWord page o / 256) = page (o + 1) := by
  have h := (page o).toNat_lt
  have h' := (page (o + 1)).toNat_lt
  rw [pageWord_eq]
  apply UInt8.toNat_inj.mp
  rw [UInt8.toNat_ofNat']
  omega

theorem fillWords_mem (addr : Nat) (page : Nat → UInt8) (f : Spm) : ∀ k,
    (fillWords addr page k f).mem = f.mem ∧ (fillWords addr page k f).log = f.log
  | 0 => ⟨rfl, rfl⟩
  | k + 1 => fillWords_mem addr page f k

/-- After `k` rounds the buffer holds the first `2 * k` bytes of the page. -/
theorem fillWords_buf {addr : Nat} (ha : addr % 128 = 0) (page : Nat → UInt8) (f : Spm) :
    ∀ k, k ≤ 64 → ∀ i, i < 2 * k → (fillWords addr page k f).buf i = page i
  | 0, _, i, hi => absurd hi (by omega)
  | k + 1, hk, i, hi => by
    have ih := fillWords_buf ha page f k (by omega)
    have even : (addr + 2 * k) % 128 / 2 * 2 = 2 * k := by omega
    simp only [fillWords, bootPageFill, even, pageWord_low, pageWord_high]
    by_cases h1 : i = 2 * k + 1
    · rw [h1, Function.update_self]
    · rw [Function.update_of_ne h1]
      by_cases h0 : i = 2 * k
      · rw [h0, Function.update_self]
      · rw [Function.update_of_ne h0]
        exact ih i (by omega)

/-- **Programming a page** puts the page there and leaves every other page alone. -/
theorem flashPage_mem {addr : Nat} (ha : addr % 128 = 0) (page : Nat → UInt8) (f : Spm) (a : Nat) :
    (flashPage addr page f).mem a = if a / 128 = pageNo addr then page (a % 128) else f.mem a := by
  simp only [flashPage, bootPageWrite, (fillWords_mem addr page _ _).1]
  by_cases h : a / 128 = pageNo addr
  · have he : (bootPageErase addr f).mem a = 0xFF := if_pos h
    rw [if_pos h, if_pos h, he, ff_and]
    exact fillWords_buf ha page _ 64 (Nat.le_refl _) _ (Nat.mod_lt _ (by omega))
  · rw [if_neg h, if_neg h]
    exact if_neg h

/-- Programming a page logs one erase and one write. -/
theorem flashPage_log {addr : Nat} (ha : addr % 128 = 0) (page : Nat → UInt8) (f : Spm) :
    (flashPage addr page f).log = f.log ++ [.erase addr, .write addr ((List.range 128).map page)] := by
  have e : (List.range 128).map (fillWords addr page 64 (bootPageErase addr f)).buf =
      (List.range 128).map page :=
    List.map_congr_left fun i hi =>
      fillWords_buf ha page _ 64 (Nat.le_refl _) i (List.mem_range.mp hi)
  simp only [flashPage, bootPageWrite, (fillWords_mem addr page _ _).2]
  rw [e]
  simp [bootPageErase]

/-- Whatever the address, programming a page logs two operations at that address. -/
theorem flashPage_log_addr (addr : Nat) (page : Nat → UInt8) (f : Spm) :
    ∃ p, (flashPage addr page f).log = f.log ++ [.erase addr, .write addr p] := by
  refine ⟨(List.range 128).map (fillWords addr page 64 (bootPageErase addr f)).buf, ?_⟩
  simp only [flashPage, bootPageWrite, (fillWords_mem addr page _ _).2]
  simp [bootPageErase]

/-! ## 3. validate.c -/

/-- `validImage`: every vector of the first 0x34 bytes is a jump, `0x0C 0x94 0xWX 0xYZ`. -/
def validImage (base : Nat → UInt8) : Bool :=
  (List.range 13).all fun k => base (4 * k) == 0x0C && base (4 * k + 1) == 0x94

/-- `validImage` reads the first 0x34 bytes only. -/
theorem validImage_congr {b b' : Nat → UInt8} (h : ∀ i, i < 0x34 → b i = b' i) :
    validImage b = validImage b' := by
  unfold validImage
  rw [Bool.eq_iff_iff, List.all_eq_true, List.all_eq_true]
  refine forall₂_congr fun k hk => ?_
  have hk' := List.mem_range.mp hk
  rw [h (4 * k) (by omega), h (4 * k + 1) (by omega)]

end SmartHome.Bootloader
