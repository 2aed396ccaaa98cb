import GameBoy.Arithmetic

/-!
# The arithmetic unit in integers

The arithmetic unit computes with bytes and words that wrap around.  What each of its operations means
in integers is a structure of its own: the value of the result, and for every flag the condition
under which it is set.  The half carry is the carry out of the lower half of the byte, or of the lower
twelve bits of a word.

There is one theorem for each operation, such as `isSum_add` and `isOffset_addSigned`.  For chains of
additions and subtractions, `IsSum.balanced` and `IsDifference.balanced` put the carry to the side of
the equation where it belongs.
-/

namespace GameBoy.Arithmetic

/-- A carry counts as one byte more or none. -/
theorem toNat_toUInt8 (b : Bool) : b.toUInt8.toNat = b.toNat := by
  cases b <;> rfl

/-- A carry counts as one word more or none. -/
private theorem toNat_toUInt16 (b : Bool) : b.toUInt16.toNat = b.toNat := by
  cases b <;> rfl

/-- The lower half of a byte is the remainder by 16. -/
theorem toNat_nibble (b : UInt8) : (nibble b).toNat = b.toNat % 16 := by
  rw [nibble, UInt8.toNat_and]
  exact Nat.and_two_pow_sub_one_eq_mod b.toNat 4

/-! ## Sums and differences of bytes -/

/-- The byte and the flags of an addition, in natural numbers. -/
theorem add_eq (a b : UInt8) (carry : Bool) :
    (add a b carry).1.toNat = (a.toNat + b.toNat + carry.toNat) % 256 ∧
      (add a b carry).2 = {
        zero := (add a b carry).1 == 0
        subtract := false
        halfCarry := 15 < a.toNat % 16 + b.toNat % 16 + carry.toNat
        carry := 255 < a.toNat + b.toNat + carry.toNat } := by
  have ha := a.toNat_lt
  have hb := b.toNat_lt
  have hcarry := carry.toNat_le
  -- The sum is taken in 16 bits, where two bytes and a carry do not wrap around.
  simp [add, UInt16.lt_iff_toNat_lt, UInt8.lt_iff_toNat_lt, toNat_toUInt8, toNat_toUInt16,
    toNat_nibble]
  omega

/-- The byte and the flags of a subtraction, in natural numbers; 512 keeps the difference from being
cut off. -/
theorem sub_eq (a b : UInt8) (borrow : Bool) :
    (sub a b borrow).1.toNat = (a.toNat + 512 - b.toNat - borrow.toNat) % 256 ∧
      (sub a b borrow).2 = {
        zero := (sub a b borrow).1 == 0
        subtract := true
        halfCarry := a.toNat % 16 < b.toNat % 16 + borrow.toNat
        carry := a.toNat < b.toNat + borrow.toNat } := by
  have ha := a.toNat_lt
  have hb := b.toNat_lt
  have hborrow := borrow.toNat_le
  simp [sub, UInt16.lt_iff_toNat_lt, UInt8.lt_iff_toNat_lt, toNat_toUInt8, toNat_toUInt16,
    toNat_nibble, UInt8.toNat_sub]
  omega

/-- A byte with its flags is the sum of two bytes and an incoming carry. -/
structure IsSum (a b : UInt8) (carryIn : Nat) (outcome : UInt8 × Flags) : Prop where
  value : outcome.1.toNat = (a.toNat + b.toNat + carryIn) % 256
  zero : outcome.2.zero = true ↔ outcome.1.toNat = 0
  subtract : outcome.2.subtract = false
  halfCarry : outcome.2.halfCarry = true ↔ 16 ≤ a.toNat % 16 + b.toNat % 16 + carryIn
  carry : outcome.2.carry = true ↔ 256 ≤ a.toNat + b.toNat + carryIn

/-- A byte with its flags is the difference of two bytes, less an incoming borrow. -/
structure IsDifference (a b : UInt8) (borrowIn : Nat) (outcome : UInt8 × Flags) : Prop where
  value : (outcome.1.toNat : Int) = (a.toNat - b.toNat - borrowIn) % 256
  zero : outcome.2.zero = true ↔ outcome.1.toNat = 0
  subtract : outcome.2.subtract = true
  halfCarry : outcome.2.halfCarry = true ↔ a.toNat % 16 < b.toNat % 16 + borrowIn
  carry : outcome.2.carry = true ↔ a.toNat < b.toNat + borrowIn

/-- Adding two bytes and a carry. -/
theorem isSum_add (a b : UInt8) (carry : Bool) : IsSum a b carry.toNat (add a b carry) := by
  obtain ⟨hvalue, hflags⟩ := add_eq a b carry
  constructor
  case value => exact hvalue
  case zero => simp [hflags, ← UInt8.toNat_inj]
  case subtract => rw [hflags]
  case halfCarry => rw [hflags]; exact decide_eq_true_iff
  case carry => rw [hflags]; exact decide_eq_true_iff

/-- Subtracting a byte and a borrow from another byte. -/
theorem isDifference_sub (a b : UInt8) (borrow : Bool) :
    IsDifference a b borrow.toNat (sub a b borrow) := by
  have ha := a.toNat_lt
  have hb := b.toNat_lt
  have hborrow := borrow.toNat_le
  obtain ⟨hvalue, hflags⟩ := sub_eq a b borrow
  constructor
  -- The natural numbers of `sub_eq` differ from the integers by a multiple of 256.
  case value => omega
  case zero => simp [hflags, ← UInt8.toNat_inj]
  case subtract => rw [hflags]
  case halfCarry => rw [hflags]; exact decide_eq_true_iff
  case carry => rw [hflags]; exact decide_eq_true_iff

section Balanced

variable {a b : UInt8} {c : Nat} {outcome : UInt8 × Flags}

/-- The carry of a sum is what its byte lacks. -/
theorem IsSum.balanced (h : IsSum a b c outcome) (hc : c ≤ 1) :
    outcome.1.toNat + 256 * outcome.2.carry.toNat = a.toNat + b.toNat + c := by
  have ha := a.toNat_lt
  have hb := b.toNat_lt
  have hvalue := h.value
  have hcarry := h.carry
  -- With the carry known the two equations are linear.
  cases hout : outcome.2.carry <;>
    simp only [hout, Bool.toNat_true, Bool.toNat_false, Bool.false_eq_true, true_iff, false_iff]
      at hcarry ⊢ <;>
    omega

/-- The borrow of a difference is what its byte has too much. -/
theorem IsDifference.balanced (h : IsDifference a b c outcome) (hc : c ≤ 1) :
    outcome.1.toNat + b.toNat + c = a.toNat + 256 * outcome.2.carry.toNat := by
  have ha := a.toNat_lt
  have hb := b.toNat_lt
  have hvalue := h.value
  have hcarry := h.carry
  cases hout : outcome.2.carry <;>
    simp only [hout, Bool.toNat_true, Bool.toNat_false, Bool.false_eq_true, true_iff, false_iff]
      at hcarry ⊢ <;>
    omega

end Balanced

/-! ## Bits -/

/-- A byte with its flags is the combination of two bytes bit by bit. -/
structure IsBitwise (combine : Bool → Bool → Bool) (halfCarry : Bool) (a b : UInt8)
    (outcome : UInt8 × Flags) : Prop where
  value (i : Nat) : outcome.1.toNat.testBit i = combine (a.toNat.testBit i) (b.toNat.testBit i)
  zero : outcome.2.zero = true ↔ outcome.1.toNat = 0
  subtract : outcome.2.subtract = false
  halfCarry : outcome.2.halfCarry = halfCarry
  carry : outcome.2.carry = false

/-- AND sets the half carry, whatever its arguments are. -/
theorem isBitwise_and (a b : UInt8) : IsBitwise Bool.and true a b (and a b) where
  value i := by simp [and]
  zero := by simp [and, ← UInt8.toNat_inj]
  subtract := rfl
  halfCarry := rfl
  carry := rfl

/-- OR clears both carries. -/
theorem isBitwise_or (a b : UInt8) : IsBitwise Bool.or false a b (or a b) where
  value i := by simp [or]
  zero := by simp [or, ← UInt8.toNat_inj]
  subtract := rfl
  halfCarry := rfl
  carry := rfl

/-- XOR clears both carries. -/
theorem isBitwise_xor (a b : UInt8) : IsBitwise Bool.xor false a b (xor a b) where
  value i := by simp [xor]
  zero := by simp [xor, ← UInt8.toNat_inj]
  subtract := rfl
  halfCarry := rfl
  carry := rfl

/-! ## Counting -/

/-- A byte with its flags is the one after a byte; the carry is the one from before. -/
structure IsSuccessor (a : UInt8) (before : Flags) (outcome : UInt8 × Flags) : Prop where
  value : outcome.1.toNat = (a.toNat + 1) % 256
  zero : outcome.2.zero = true ↔ outcome.1.toNat = 0
  subtract : outcome.2.subtract = false
  halfCarry : outcome.2.halfCarry = true ↔ a.toNat % 16 = 15
  carry : outcome.2.carry = before.carry

/-- A byte with its flags is the one before a byte; the carry is the one from before. -/
structure IsPredecessor (a : UInt8) (before : Flags) (outcome : UInt8 × Flags) : Prop where
  value : (outcome.1.toNat : Int) = (a.toNat - 1) % 256
  zero : outcome.2.zero = true ↔ outcome.1.toNat = 0
  subtract : outcome.2.subtract = true
  halfCarry : outcome.2.halfCarry = true ↔ a.toNat % 16 = 0
  carry : outcome.2.carry = before.carry

/-- Counting up. -/
theorem isSuccessor_increment (a : UInt8) (f : Flags) : IsSuccessor a f (increment a f) where
  value := UInt8.toNat_add a 1
  zero := by simp [increment, ← UInt8.toNat_inj]
  subtract := rfl
  halfCarry := by simp [increment, ← UInt8.toNat_inj, toNat_nibble]
  carry := rfl

/-- Counting down. -/
theorem isPredecessor_decrement (a : UInt8) (f : Flags) : IsPredecessor a f (decrement a f) where
  value := by
    have ha := a.toNat_lt
    show ((a - 1).toNat : Int) = _
    rw [UInt8.toNat_sub]
    simp
    omega
  zero := by simp [decrement, ← UInt8.toNat_inj]
  subtract := rfl
  halfCarry := by simp [decrement, ← UInt8.toNat_inj, toNat_nibble]
  carry := rfl

/-! ## Words -/

/-- A word with its flags is the sum of two words; the zero flag is the one from before. -/
structure IsWordSum (a b : UInt16) (before : Flags) (outcome : UInt16 × Flags) : Prop where
  value : outcome.1.toNat = (a.toNat + b.toNat) % 65536
  zero : outcome.2.zero = before.zero
  subtract : outcome.2.subtract = false
  halfCarry : outcome.2.halfCarry = true ↔ 4096 ≤ a.toNat % 4096 + b.toNat % 4096
  carry : outcome.2.carry = true ↔ 65536 ≤ a.toNat + b.toNat

/-- A word with its flags is a word moved by a signed byte.  The carries are those of the unsigned
addition of the byte to the lower byte of the word. -/
structure IsOffset (a : UInt16) (offset : UInt8) (outcome : UInt16 × Flags) : Prop where
  value : (outcome.1.toNat : Int) = (a.toNat + offset.toInt8.toInt) % 65536
  zero : outcome.2.zero = false
  subtract : outcome.2.subtract = false
  halfCarry : outcome.2.halfCarry = true ↔ 16 ≤ a.toNat % 16 + offset.toNat % 16
  carry : outcome.2.carry = true ↔ 256 ≤ a.toNat % 256 + offset.toNat

/-- Adding two words. -/
theorem isWordSum_addWords (a b : UInt16) (f : Flags) : IsWordSum a b f (addWords a b f) := by
  have ha := a.toNat_lt
  have hb := b.toNat_lt
  -- The half carry comes out of the lower twelve bits.
  have hlow (w : UInt16) : (w &&& 0x0FFF).toNat = w.toNat % 4096 := by
    rw [UInt16.toNat_and]
    exact Nat.and_two_pow_sub_one_eq_mod w.toNat 12
  constructor
  case value => exact UInt16.toNat_add a b
  case zero => rfl
  case subtract => rfl
  case halfCarry =>
    simp [addWords, UInt16.lt_iff_toNat_lt, hlow]
    omega
  case carry =>
    simp [addWords, UInt32.lt_iff_toNat_lt]
    omega

/-- A signed byte and the word it is extended to are the same number, up to the range of words. -/
private theorem toNat_signExtend (b : UInt8) :
    ((Word.signExtend b).toNat : Int) = b.toInt8.toInt % 65536 := by
  have hlt := (Word.signExtend b).toNat_lt
  -- Extending keeps the signed number, and as unsigned numbers both are its residues.
  have hint : b.toInt8.toInt = Int.bmod (Word.signExtend b).toNat 65536 := by
    rw [← Int8.toInt_toInt16]
    exact BitVec.toInt_eq_toNat_bmod _
  have hmod : Int.bmod (Word.signExtend b).toNat 65536 % (65536 : Nat) = _ := Int.bmod_emod
  omega

/-- Moving a word by a signed byte. -/
theorem isOffset_addSigned (a : UInt16) (offset : UInt8) :
    IsOffset a offset (addSigned a offset) := by
  have ha := a.toNat_lt
  have hb := offset.toNat_lt
  constructor
  -- The value comes from the sign extension, and the two carries from the unsigned bytes.
  case value =>
    have hword := toNat_signExtend offset
    show ((a + Word.signExtend offset).toNat : Int) = _
    rw [UInt16.toNat_add]
    omega
  case zero => rfl
  case subtract => rfl
  case halfCarry =>
    simp [addSigned, UInt8.lt_iff_toNat_lt, toNat_nibble, Word.toNat_low]
    omega
  case carry =>
    simp [addSigned, UInt16.lt_iff_toNat_lt, Word.toNat_low]
    omega

end GameBoy.Arithmetic
