import GameBoy.Flags

/-!
# Arithmetic with flags

The operations of the arithmetic unit, each as a function from its operands to the result and the
flags.  Carries are found by doing the sum in a wider word: a sum of bytes carries exactly if it
does not fit into a byte.
-/

namespace GameBoy.Arithmetic

/-- The lower half of a byte. -/
@[inline] def nibble (b : UInt8) : UInt8 := b &&& 0x0F

/-- Adds a byte and an incoming carry. -/
def add (a b : UInt8) (carry : Bool) : UInt8 × Flags :=
  let sum := a + b + carry.toUInt8
  (sum, {
    zero := sum == 0
    subtract := false
    halfCarry := nibble a + nibble b + carry.toUInt8 > 0x0F
    carry := a.toUInt16 + b.toUInt16 + carry.toUInt16 > 0xFF })

/-- Subtracts a byte and an incoming borrow. -/
def sub (a b : UInt8) (borrow : Bool) : UInt8 × Flags :=
  let difference := a - b - borrow.toUInt8
  (difference, {
    zero := difference == 0
    subtract := true
    halfCarry := nibble a < nibble b + borrow.toUInt8
    carry := a.toUInt16 < b.toUInt16 + borrow.toUInt16 })

/-- The bitwise conjunction; it alone of the logical operations sets the half carry. -/
def and (a b : UInt8) : UInt8 × Flags :=
  (a &&& b, ⟨a &&& b == 0, false, true, false⟩)

/-- The bitwise exclusive disjunction. -/
def xor (a b : UInt8) : UInt8 × Flags :=
  (a ^^^ b, ⟨a ^^^ b == 0, false, false, false⟩)

/-- The bitwise disjunction. -/
def or (a b : UInt8) : UInt8 × Flags :=
  (a ||| b, ⟨a ||| b == 0, false, false, false⟩)

/-- Adds one and keeps the carry flag. -/
def increment (a : UInt8) (f : Flags) : UInt8 × Flags :=
  (a + 1, ⟨a + 1 == 0, false, nibble a == 0x0F, f.carry⟩)

/-- Subtracts one and keeps the carry flag. -/
def decrement (a : UInt8) (f : Flags) : UInt8 × Flags :=
  (a - 1, ⟨a - 1 == 0, true, nibble a == 0, f.carry⟩)

/-- Adds two words.  The half carry comes from bit 11 and the zero flag is kept. -/
def addWords (a b : UInt16) (f : Flags) : UInt16 × Flags :=
  (a + b, {
    zero := f.zero
    subtract := false
    halfCarry := (a &&& 0x0FFF) + (b &&& 0x0FFF) > 0x0FFF
    carry := a.toUInt32 + b.toUInt32 > 0xFFFF })

/-- Adds a signed byte to a word.  Both carries come from the unsigned addition of the byte to the
low byte of the word. -/
def addSigned (a : UInt16) (offset : UInt8) : UInt16 × Flags :=
  (a + Word.signExtend offset, {
    zero := false
    subtract := false
    halfCarry := nibble (Word.low a) + nibble offset > 0x0F
    carry := (Word.low a).toUInt16 + offset.toUInt16 > 0xFF })

/-- Adjusts the result of an addition or subtraction of two packed decimal numbers so that it is the
packed decimal sum or difference.  After an addition a digit is corrected if it carried or left the
decimal range, after a subtraction if it borrowed. -/
def decimalAdjust (a : UInt8) (f : Flags) : UInt8 × Flags :=
  if f.subtract then
    let high := if f.carry then a - 0x60 else a
    let result := if f.halfCarry then high - 0x06 else high
    (result, { f with zero := result == 0, halfCarry := false })
  else
    let carry := f.carry || a > 0x99
    -- Correcting the upper digit leaves the lower one as it was.
    let high := if carry then a + 0x60 else a
    let result := if f.halfCarry || nibble high > 0x09 then high + 0x06 else high
    (result, { f with zero := result == 0, halfCarry := false, carry := carry })

end GameBoy.Arithmetic
