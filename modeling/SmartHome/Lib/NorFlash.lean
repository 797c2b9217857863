/-
  Subject:   NOR FLASH: programming clears bits, erasing sets them. Nothing here names a program.

  A memory of `size` cells; an address names the cell it is congruent to. Programming a byte leaves the bits
  that the cell and the byte have in common, so bytes programmed one after the other to one cell leave what
  all of them have in common.

  * `program` -- bytes to successive addresses; `program_append`, `program_congr`, `program_padding`;
  * `Under` -- all bits of a byte are in another one; `under_program` -- what a cell has after programming;
  * **`program_holds`** -- the bytes can be read back exactly if each cell had the bits of its byte before,
    and bytes that fall on one cell are equal.
-/
import Mathlib.Data.List.Basic

namespace SmartHome.Lib

/-! ## 1. Programming -/

/-- Program bytes, the first to `addr`, the others behind it. -/
def program (size : Nat) : (Nat → UInt8) → Nat → List UInt8 → Nat → UInt8
  | m, _, [] => m
  | m, addr, b :: bs => program size (fun a => if a = addr % size then m a &&& b else m a) (addr + 1) bs

section Program

variable {size : Nat} {m : Nat → UInt8}

theorem program_append (addr : Nat) (bs cs : List UInt8) :
    program size m addr (bs ++ cs) = program size (program size m addr bs) (addr + bs.length) cs := by
  induction bs generalizing m addr with
  | nil => rfl
  | cons b bs ih =>
    rw [List.cons_append, program, ih, program, List.length_cons, Nat.add_assoc, Nat.add_comm 1]

/-- Addresses that name the same cell. -/
theorem program_congr {addr addr' : Nat} (h : addr % size = addr' % size) (bs : List UInt8) :
    program size m addr bs = program size m addr' bs := by
  induction bs generalizing m addr addr' with
  | nil => rfl
  | cons b bs ih =>
    have hnext : (addr + 1) % size = (addr' + 1) % size := by
      rw [Nat.add_mod, h, ← Nat.add_mod]
    rw [program, program, h, ih hnext]

/-- A byte with all bits set changes nothing. -/
theorem program_padding (addr n : Nat) : program size m addr (List.replicate n 0xFF) = m := by
  induction n generalizing addr with
  | zero => rfl
  | succ n ih =>
    have hsame : (fun a => if a = addr % size then m a &&& 0xFF else m a) = m := by
      funext a
      split
      · exact UInt8.and_neg_one
      · rfl
    rw [List.replicate_succ, program, hsame, ih]

end Program

/-! ## 2. Reading back -/

/-- All bits of `b` are in `x`. -/
def Under (b x : UInt8) : Prop := b &&& x = b

instance (b x : UInt8) : Decidable (Under b x) := inferInstanceAs (Decidable (_ = _))

theorem Under.refl (b : UInt8) : Under b b := UInt8.and_self

theorem Under.antisymm {b x : UInt8} (h : Under b x) (h' : Under x b) : b = x := by
  unfold Under at h h'
  rw [← h, UInt8.and_comm, h']

theorem under_and {b x y : UInt8} : Under b (x &&& y) ↔ Under b x ∧ Under b y := by
  unfold Under
  constructor
  · intro h
    constructor
    · rw [← h, UInt8.and_assoc, UInt8.and_assoc, UInt8.and_comm y x, ← UInt8.and_assoc x x y, UInt8.and_self]
    · rw [← h, UInt8.and_assoc, UInt8.and_assoc, UInt8.and_self]
  · rintro ⟨hx, hy⟩
    rw [← UInt8.and_assoc, hx, hy]

section Read

variable {size : Nat} {m : Nat → UInt8}

/-- **What a cell has after programming**: the bits it had before that all bytes programmed to it have. -/
theorem under_program {addr a : Nat} {b : UInt8} {bs : List UInt8} :
    Under b (program size m addr bs a) ↔
      Under b (m a) ∧ ∀ i c, bs[i]? = some c → (addr + i) % size = a → Under b c := by
  induction bs generalizing m addr with
  | nil => exact ⟨fun h => ⟨h, fun i c hc => absurd hc (by simp)⟩, fun h => h.1⟩
  | cons d bs ih =>
    rw [program, ih]
    have hcell : Under b (if a = addr % size then m a &&& d else m a) ↔
        Under b (m a) ∧ (addr % size = a → Under b d) := by
      by_cases heq : a = addr % size
      · rw [if_pos heq, under_and]
        exact and_congr_right fun _ => ⟨fun h _ => h, fun h => h heq.symm⟩
      · rw [if_neg heq]
        exact ⟨fun h => ⟨h, fun he => absurd he.symm heq⟩, fun h => h.1⟩
    rw [hcell, and_assoc]
    refine and_congr_right fun _ => ⟨fun h i c hc hi => ?_, fun h => ⟨h 0 d rfl, fun i c hc hi => ?_⟩⟩
    · cases i with
      | zero =>
        obtain rfl := Option.some.inj hc
        exact h.1 hi
      | succ i => exact h.2 i c hc (by rw [Nat.add_assoc, Nat.add_comm 1]; exact hi)
    · exact h (i + 1) c hc (by rw [← Nat.add_assoc, Nat.add_right_comm]; exact hi)

/-- **The bytes can be read back** exactly if every cell had the bits of its byte, and bytes that fall on one
    cell are equal. -/
theorem program_holds {addr : Nat} {bs : List UInt8} :
    (∀ i b, bs[i]? = some b → program size m addr bs ((addr + i) % size) = b) ↔
      (∀ i b, bs[i]? = some b → Under b (m ((addr + i) % size))) ∧
        ∀ i j b c, bs[i]? = some b → bs[j]? = some c → (addr + i) % size = (addr + j) % size → b = c := by
  constructor
  · intro h
    refine ⟨fun i b hb => ?_, fun i j b c hb hc hij => ?_⟩
    · exact (under_program.mp (by rw [h i b hb]; exact Under.refl b)).1
    · rw [← h i b hb, hij, h j c hc]
  · rintro ⟨hroom, hsame⟩ i b hb
    refine Under.antisymm ?_ ?_
    · exact (under_program.mp (Under.refl _)).2 i b hb rfl
    · refine under_program.mpr ⟨hroom i b hb, fun j c hc hj => ?_⟩
      rw [hsame i j b c hb hc hj.symm]
      exact Under.refl c

end Read

end SmartHome.Lib
