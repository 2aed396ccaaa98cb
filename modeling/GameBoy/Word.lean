/-!
# Words and their bytes

The processor moves 16-bit words through 8-bit registers and 8-bit memory cells, so every word is
taken apart into a high and a low byte and put together again.  The two round trips
(`high_ofBytes`, `low_ofBytes`, `ofBytes_high_low`) say that nothing is lost on the way.
-/

namespace GameBoy.Word

/-- The upper byte of a word. -/
@[inline] def high (w : UInt16) : UInt8 := (w >>> 8).toUInt8

/-- The lower byte of a word. -/
@[inline] def low (w : UInt16) : UInt8 := w.toUInt8

/-- The word with the given high and low byte. -/
@[inline] def ofBytes (hi lo : UInt8) : UInt16 := (hi.toUInt16 <<< 8) ||| lo.toUInt16

/-- The word that stands for the same number as a byte read in two's complement. -/
@[inline] def signExtend (b : UInt8) : UInt16 := b.toInt8.toInt16.toUInt16

/-- The upper byte counts the 256s. -/
theorem toNat_high (w : UInt16) : (high w).toNat = w.toNat / 256 := by
  have := w.toNat_lt
  simp [high, Nat.shiftRight_eq_div_pow]
  omega

/-- The lower byte is what is left over. -/
theorem toNat_low (w : UInt16) : (low w).toNat = w.toNat % 256 := by
  simp [low]

/-- A word counts 256 times its high byte plus its low byte. -/
theorem toNat_ofBytes (hi lo : UInt8) : (ofBytes hi lo).toNat = 256 * hi.toNat + lo.toNat := by
  have hhi := hi.toNat_lt
  have hlo := lo.toNat_lt
  have hshift : (hi.toUInt16 <<< 8).toNat = 2 ^ 8 * hi.toNat := by
    simp [Nat.shiftLeft_eq]
    omega
  rw [ofBytes, UInt16.toNat_or, hshift, UInt8.toNat_toUInt16,
    ← Nat.two_pow_add_eq_or_of_lt hlo]

/-- The high byte is found again. -/
@[simp] theorem high_ofBytes (hi lo : UInt8) : high (ofBytes hi lo) = hi := by
  apply UInt8.toNat_inj.mp
  have := lo.toNat_lt
  rw [toNat_high, toNat_ofBytes]
  omega

/-- The low byte is found again. -/
@[simp] theorem low_ofBytes (hi lo : UInt8) : low (ofBytes hi lo) = lo := by
  apply UInt8.toNat_inj.mp
  have := lo.toNat_lt
  rw [toNat_low, toNat_ofBytes]
  omega

/-- A word is put together again from its bytes. -/
@[simp] theorem ofBytes_high_low (w : UInt16) : ofBytes (high w) (low w) = w := by
  apply UInt16.toNat_inj.mp
  rw [toNat_ofBytes, toNat_high, toNat_low]
  omega

end GameBoy.Word

namespace GameBoy.Byte

/-- Whether a bit of a byte is set; bit 0 is the lowest. -/
@[inline] def bit (index : UInt8) (b : UInt8) : Bool := (b >>> index) &&& 1 != 0

/-- Rotates a byte by one place to the left; bit 7 moves to bit 0. -/
@[inline] def rotateLeft (b : UInt8) : UInt8 := (b <<< 1) ||| (b >>> 7)

/-- Rotates a byte by one place to the right; bit 0 moves to bit 7. -/
@[inline] def rotateRight (b : UInt8) : UInt8 := (b >>> 1) ||| (b <<< 7)

/-- Exchanges the halves of a byte. -/
@[inline] def swapNibbles (b : UInt8) : UInt8 := (b <<< 4) ||| (b >>> 4)

end GameBoy.Byte
