import GameBoy.Word

/-!
# The flags

The flag register holds the four outcomes of the last arithmetic instruction in its upper half.  Its
lower half is not wired: it reads as zero and writes to it are lost (`ofByte_toByte`).
-/

namespace GameBoy

/-- The outcomes of the last arithmetic instruction. -/
structure Flags where
  /-- Z: the result was zero. -/
  zero : Bool
  /-- N: the operation was a subtraction. -/
  subtract : Bool
  /-- H: a carry or borrow crossed the middle of the byte. -/
  halfCarry : Bool
  /-- C: a carry or borrow left the byte, or a shift pushed out a set bit. -/
  carry : Bool
  deriving DecidableEq, Repr

namespace Flags

/-- All flags off. -/
def clear : Flags := ⟨false, false, false, false⟩

/-- The flags that a byte sets; its lower half has no say. -/
def ofByte (b : UInt8) : Flags := ⟨Byte.bit 7 b, Byte.bit 6 b, Byte.bit 5 b, Byte.bit 4 b⟩

/-- The flag register as the program sees it. -/
def toByte (f : Flags) : UInt8 :=
  (f.zero.toUInt8 <<< 7) ||| (f.subtract.toUInt8 <<< 6) |||
    (f.halfCarry.toUInt8 <<< 5) ||| (f.carry.toUInt8 <<< 4)

/-- Nothing is lost when the flags are read and written back. -/
@[simp] theorem ofByte_toByte (f : Flags) : ofByte f.toByte = f := by
  obtain ⟨z, n, h, c⟩ := f
  cases z <;> cases n <;> cases h <;> cases c <;> decide

/-- The flags stand in the four upper bits, Z above N, H and C; the lower ones are zero. -/
theorem toNat_toByte (f : Flags) : f.toByte.toNat =
    128 * f.zero.toNat + 64 * f.subtract.toNat + 32 * f.halfCarry.toNat + 16 * f.carry.toNat := by
  obtain ⟨z, n, h, c⟩ := f
  cases z <;> cases n <;> cases h <;> cases c <;> rfl

/-- The flags after a shift: only the result and the bit that was pushed out matter. -/
def ofShift (zero carry : Bool) : Flags := ⟨zero, false, false, carry⟩

/-- The flags as a user is shown them. -/
def text (f : Flags) : String :=
  let digit (b : Bool) : String := if b then "1" else "0"
  s!"Flags(Z={digit f.zero} N={digit f.subtract} H={digit f.halfCarry} C={digit f.carry})"

end Flags

end GameBoy
