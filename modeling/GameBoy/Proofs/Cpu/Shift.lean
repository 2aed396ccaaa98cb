import Mathlib.Data.Nat.Bitwise
import GameBoy.Proofs.Bus.Retention
import GameBoy.Proofs.Cpu.Binary

/-!
# Shifting numbers of any length

A number is shifted byte by byte, and the carry flag takes the bit that leaves one byte to the next
one: to the left from the lowest byte up, to the right from the highest byte down.

`Execution.Doubles` and `Execution.Halves` say of a single byte where its bits and the carry go, and
`Execution.shiftBytes` passes the carry along a list of bytes, which doubles or halves the number that
they write (`DoublesAll.cons`, `HalvesAll.cons`).  A machine does the same with bytes in registers and
in memory, one round for each (`Machine.ShiftRounds`, `ShiftRounds.shiftBytes`), as long as the rounds
do not touch each other's bytes.  `Machine.multibyte_shifts` puts the two together.
-/

namespace GameBoy

/-! ## Bytes -/

/-- A byte at the end of a number counts most. -/
theorem binaryValue_concat (bytes : List UInt8) (b : UInt8) :
    binaryValue (bytes ++ [b]) = binaryValue bytes + 256 ^ bytes.length * b.toNat := by
  induction bytes with
  | nil => simp [binaryValue]
  | cons first rest ih =>
    simp only [List.cons_append, binaryValue, ih, List.length_cons, Nat.pow_succ', Nat.mul_add,
      Nat.mul_assoc, Nat.add_assoc]

/-- A bit of a byte, in natural numbers. -/
theorem Byte.toNat_bit {index : UInt8} (hindex : index < 8) (b : UInt8) :
    (bit index b).toNat = b.toNat / 2 ^ index.toNat % 2 := by
  have hlt : index.toNat < 8 := hindex
  have hbit : ((b >>> index) &&& 1).toNat = b.toNat / 2 ^ index.toNat % 2 := by
    rw [UInt8.toNat_and, UInt8.toNat_shiftRight, Nat.shiftRight_eq_div_pow, Nat.mod_eq_of_lt hlt]
    exact Nat.and_one_is_mod _
  -- A number below two is not zero exactly if it is one.
  rcases Nat.mod_two_eq_zero_or_one (b.toNat / 2 ^ index.toNat) with h | h
  · have hzero : (b >>> index) &&& 1 = 0 := UInt8.toNat_inj.mp (hbit.trans h)
    rw [bit, hzero, h]
    rfl
  · have hone : (b >>> index) &&& 1 = 1 := UInt8.toNat_inj.mp (hbit.trans h)
    rw [bit, hone, h]
    rfl

/-- The number that some bytes write in two's complement, the lowest one first. -/
def signedValue (bytes : List UInt8) : Int :=
  (binaryValue bytes : Int).bmod (256 ^ bytes.length)

/-- A number of some bytes is written in one way. -/
theorem binaryValue_injective {bytes bytes' : List UInt8} (hlength : bytes.length = bytes'.length)
    (hvalue : binaryValue bytes = binaryValue bytes') : bytes = bytes' := by
  induction bytes generalizing bytes' with
  | nil => exact (List.length_eq_zero_iff.mp hlength.symm).symm
  | cons b rest ih =>
    obtain ⟨b', rest', rfl⟩ := List.exists_cons_of_length_eq_add_one hlength.symm
    have hb := b.toNat_lt
    have hb' := b'.toNat_lt
    simp only [binaryValue] at hvalue
    -- The first byte is the remainder by 256, and the others are the quotient.
    have hbyte : b.toNat = b'.toNat := by omega
    have hrest : binaryValue rest = binaryValue rest' := by omega
    rw [UInt8.toNat_inj.mp hbyte, ih (Nat.succ.inj hlength) hrest]

/-- One operation for the first element and another one for all others. -/
def inSequence {α : Type} (first later : ShiftOp) : List α → List (ShiftOp × α)
  | [] => []
  | a :: rest => (first, a) :: rest.map fun a => (later, a)

/-- What is done to the elements does not depend on the operations. -/
theorem map_inSequence {α β : Type} (first later : ShiftOp) (f : α → β) (l : List α) :
    (inSequence first later l).map (fun step => (step.1, f step.2)) =
      inSequence first later (l.map f) := by
  cases l <;> simp [inSequence]

/-- Every element gets one operation, in the same order. -/
theorem map_snd_inSequence {α : Type} (first later : ShiftOp) (l : List α) :
    (inSequence first later l).map Prod.snd = l := by
  cases l <;> simp [inSequence]

/-- Operations are only given to elements of the list. -/
theorem mem_of_mem_inSequence {α : Type} {first later : ShiftOp} {l : List α} {step : ShiftOp × α}
    (h : step ∈ inSequence first later l) : step.2 ∈ l :=
  map_snd_inSequence first later l ▸ List.mem_map_of_mem h

/-- The first element need not be treated differently. -/
theorem inSequence_self {α : Type} (op : ShiftOp) (l : List α) :
    inSequence op op l = l.map fun a => (op, a) := by
  cases l <;> rfl

namespace Execution

/-- A byte and the bit above it are twice a byte and a bit below that. -/
def Doubles (b : UInt8) (bitIn : Bool) (outcome : UInt8 × Bool) : Prop :=
  outcome.1.toNat + 256 * outcome.2.toNat = 2 * b.toNat + bitIn.toNat

/-- Twice a byte and the bit below it are a byte and a bit above that. -/
def Halves (b : UInt8) (bitIn : Bool) (outcome : UInt8 × Bool) : Prop :=
  2 * outcome.1.toNat + outcome.2.toNat = b.toNat + 256 * bitIn.toNat

/-- A rotation to the left takes the carry in below and gives the highest bit out. -/
theorem doubles_leftThroughCarry (carry : Bool) (b : UInt8) :
    Doubles b carry (shiftByte (.rotate .leftThroughCarry) carry b) := by
  have hb := b.toNat_lt
  have hcarry : carry.toUInt8.toNat < 2 ^ 1 := by cases carry <;> decide
  have hshift : (b <<< 1).toNat = 2 ^ 1 * (b.toNat % 128) := by
    simp [Nat.shiftLeft_eq]
    omega
  -- The lowest bit is clear after the shift, so the carry is added there and not only joined.
  have hvalue : ((b <<< 1) ||| carry.toUInt8).toNat = 2 * (b.toNat % 128) + carry.toNat := by
    rw [UInt8.toNat_or, hshift, ← Nat.two_pow_add_eq_or_of_lt hcarry, Arithmetic.toNat_toUInt8]
  have hout : (Byte.bit 7 b).toNat = b.toNat / 128 % 2 := Byte.toNat_bit (by decide) b
  show ((b <<< 1) ||| carry.toUInt8).toNat + 256 * (Byte.bit 7 b).toNat = _
  omega

/-- A shift to the left is a rotation through a clear carry. -/
theorem doubles_left (carry : Bool) (b : UInt8) : Doubles b false (shiftByte .left carry b) := by
  have hsame : shiftByte .left carry b = shiftByte (.rotate .leftThroughCarry) false b :=
    Prod.ext (UInt8.or_zero (a := b <<< 1)).symm rfl
  rw [hsame]
  exact doubles_leftThroughCarry false b

/-- A bit that is moved to the top of a byte counts 128. -/
private theorem toNat_highBit (bit : Bool) : (bit.toUInt8 <<< 7).toNat = 2 ^ 7 * bit.toNat := by
  cases bit <;> decide

/-- A rotation to the right takes the carry in above and gives the lowest bit out. -/
theorem halves_rightThroughCarry (carry : Bool) (b : UInt8) :
    Halves b carry (shiftByte (.rotate .rightThroughCarry) carry b) := by
  have hb := b.toNat_lt
  have hshift : (b >>> 1).toNat = b.toNat / 2 := by simp [Nat.shiftRight_eq_div_pow]
  -- The highest bit is clear after the shift, so the carry is added there.
  have hlt : (b >>> 1).toNat < 2 ^ 7 := by omega
  have hvalue : ((b >>> 1) ||| (carry.toUInt8 <<< 7)).toNat = 128 * carry.toNat + b.toNat / 2 := by
    rw [UInt8.toNat_or, toNat_highBit, Nat.or_comm, ← Nat.two_pow_add_eq_or_of_lt hlt, hshift]
  have hout : (Byte.bit 0 b).toNat = b.toNat / 2 ^ 0 % 2 := Byte.toNat_bit (by decide) b
  show 2 * ((b >>> 1) ||| (carry.toUInt8 <<< 7)).toNat + (Byte.bit 0 b).toNat = _
  omega

/-- A shift to the right is a rotation through a clear carry. -/
theorem halves_right (carry : Bool) (b : UInt8) : Halves b false (shiftByte .right carry b) := by
  have hsame : shiftByte .right carry b = shiftByte (.rotate .rightThroughCarry) false b :=
    Prod.ext (UInt8.or_zero (a := b >>> 1)).symm rfl
  rw [hsame]
  exact halves_rightThroughCarry false b

/-- A signed shift to the right is a rotation through a copy of the sign. -/
theorem halves_rightSigned (carry : Bool) (b : UInt8) :
    Halves b (Byte.bit 7 b) (shiftByte .rightSigned carry b) := by
  -- The sign is kept by joining the highest bit of the old byte to the new one.
  have hsign : b &&& (0x80 : UInt8) = (Byte.bit 7 b).toUInt8 <<< 7 := by
    apply UInt8.toNat_inj.mp
    rw [UInt8.toNat_and, toNat_highBit, Byte.toNat_bit (by decide)]
    show b.toNat &&& 2 ^ 7 = _
    rw [Nat.and_two_pow, Nat.toNat_testBit, Nat.mul_comm]
    rfl
  have hsame : shiftByte .rightSigned carry b =
      shiftByte (.rotate .rightThroughCarry) (Byte.bit 7 b) b :=
    Prod.ext (congrArg (b >>> 1 ||| ·) hsign) rfl
  rw [hsame]
  exact halves_rightThroughCarry (Byte.bit 7 b) b

/-! ## Several bytes -/

/-- Shifts bytes one after the other; each takes in the carry that the one before has left. -/
def shiftBytes : List (ShiftOp × UInt8) → Bool → List UInt8 × Bool
  | [], carry => ([], carry)
  | (op, b) :: rest, carry =>
    let (result, out) := shiftByte op carry b
    let (results, last) := shiftBytes rest out
    (result :: results, last)

/-- There is a result for every byte. -/
theorem length_shiftBytes (steps : List (ShiftOp × UInt8)) (carry : Bool) :
    (shiftBytes steps carry).1.length = steps.length := by
  induction steps generalizing carry with
  | nil => rfl
  | cons step rest ih => exact congrArg Nat.succ (ih _)

/-- There is a result for every byte, also if the operation is always the same. -/
private theorem length_shiftBytes_map (op : ShiftOp) (bytes : List UInt8) (carry : Bool) :
    (shiftBytes (bytes.map fun b => (op, b)) carry).1.length = bytes.length :=
  (length_shiftBytes ..).trans (List.length_map ..)

/-- `Doubles` for a number, given from its lowest byte up. -/
def DoublesAll (bytes : List UInt8) (bitIn : Bool) (outcome : List UInt8 × Bool) : Prop :=
  binaryValue outcome.1 + 256 ^ bytes.length * outcome.2.toNat =
    2 * binaryValue bytes + bitIn.toNat

/-- `Halves` for a number, given from its highest byte down. -/
def HalvesAll (bytes : List UInt8) (bitIn : Bool) (outcome : List UInt8 × Bool) : Prop :=
  2 * binaryValue outcome.1.reverse + outcome.2.toNat =
    binaryValue bytes.reverse + 256 ^ bytes.length * bitIn.toNat

/-- The bit that leaves the lowest byte goes in below the others. -/
theorem DoublesAll.cons {b result : UInt8} {bitIn out : Bool} {bytes : List UInt8}
    {later : List UInt8 × Bool} (hb : Doubles b bitIn (result, out))
    (hlater : DoublesAll bytes out later) :
    DoublesAll (b :: bytes) bitIn (result :: later.1, later.2) := by
  simp only [Doubles, DoublesAll, binaryValue, List.length_cons, Nat.pow_succ', Nat.mul_assoc]
    at hb hlater ⊢
  omega

/-- The bit that leaves the highest byte goes in above the others. -/
theorem HalvesAll.cons {b result : UInt8} {bitIn out : Bool} {bytes : List UInt8}
    {later : List UInt8 × Bool} (hlength : later.1.length = bytes.length)
    (hb : Halves b bitIn (result, out)) (hlater : HalvesAll bytes out later) :
    HalvesAll (b :: bytes) bitIn (result :: later.1, later.2) := by
  have hscaled : 256 ^ bytes.length * (2 * result.toNat + out.toNat) =
      256 ^ bytes.length * (b.toNat + 256 * bitIn.toNat) := congrArg _ hb
  simp only [HalvesAll, List.reverse_cons, binaryValue_concat, List.length_reverse, hlength,
    List.length_cons, Nat.pow_succ, Nat.mul_assoc, Nat.mul_add, Nat.mul_left_comm _ 2]
    at hscaled hlater ⊢
  omega

/-- Rotations to the left through the carry double a number. -/
theorem doublesAll_leftThroughCarry (bytes : List UInt8) (carry : Bool) :
    DoublesAll bytes carry
      (shiftBytes (bytes.map fun b => (.rotate .leftThroughCarry, b)) carry) := by
  -- Over the bytes, from the lowest one up.
  induction bytes generalizing carry with
  | nil => simp [DoublesAll, shiftBytes, binaryValue]
  | cons b rest ih => exact .cons (doubles_leftThroughCarry carry b) (ih _)

/-- Rotations to the right through the carry halve a number. -/
theorem halvesAll_rightThroughCarry (bytes : List UInt8) (carry : Bool) :
    HalvesAll bytes carry
      (shiftBytes (bytes.map fun b => (.rotate .rightThroughCarry, b)) carry) := by
  -- Over the bytes, from the highest one down.
  induction bytes generalizing carry with
  | nil => simp [HalvesAll, shiftBytes, binaryValue]
  | cons b rest ih =>
    exact .cons (length_shiftBytes_map ..) (halves_rightThroughCarry carry b) (ih _)

/-- The first operation decides which bit goes in below the number. -/
theorem doublesAll_inSequence {first : ShiftOp} {carry bitIn : Bool}
    (hfirst : ∀ b, Doubles b bitIn (shiftByte first carry b)) {bytes : List UInt8}
    (hbytes : bytes ≠ []) :
    DoublesAll bytes bitIn
      (shiftBytes (inSequence first (.rotate .leftThroughCarry) bytes) carry) := by
  obtain ⟨b, rest, rfl⟩ := List.exists_cons_of_ne_nil hbytes
  exact .cons (hfirst b) (doublesAll_leftThroughCarry rest _)

/-- The first operation decides which bit goes in above the number. -/
theorem halvesAll_inSequence {first : ShiftOp} {carry bitIn : Bool} {b : UInt8}
    (hfirst : Halves b bitIn (shiftByte first carry b)) (rest : List UInt8) :
    HalvesAll (b :: rest) bitIn
      (shiftBytes (inSequence first (.rotate .rightThroughCarry) (b :: rest)) carry) :=
  .cons (length_shiftBytes_map ..) hfirst (halvesAll_rightThroughCarry rest _)

/-- Half of the numbers of some bytes are below the weight of the highest bit. -/
private theorem pow_eq_double {n : Nat} (hn : n ≠ 0) : 256 ^ n = 2 * 2 ^ (8 * n - 1) := by
  rw [← Nat.pow_succ', show 256 = 2 ^ 8 from rfl, ← Nat.pow_mul]
  congr 1
  omega

section Numbers

variable {bytes : List UInt8} {bitIn : Bool} {outcome : List UInt8 × Bool}
  (hlength : outcome.1.length = bytes.length)
include hlength

/-- The doubled number wraps around like any number of its length. -/
theorem DoublesAll.value (h : DoublesAll bytes bitIn outcome) :
    binaryValue outcome.1 = (2 * binaryValue bytes + bitIn.toNat) % 256 ^ bytes.length := by
  have hlt := binaryValue_lt outcome.1
  rw [hlength] at hlt
  rw [← h, Nat.add_mul_mod_self_left, Nat.mod_eq_of_lt hlt]

/-- The highest bit of the number goes out. -/
theorem DoublesAll.out (h : DoublesAll bytes bitIn outcome) (hbytes : bytes ≠ []) :
    outcome.2 = (binaryValue bytes).testBit (8 * bytes.length - 1) := by
  have hpow := pow_eq_double (mt List.length_eq_zero_iff.mp hbytes)
  have hvalue := binaryValue_lt bytes
  have hresult := binaryValue_lt outcome.1
  have hbit := bitIn.toNat_le
  rw [DoublesAll] at h
  rw [hlength] at hresult
  rw [hpow] at h hvalue hresult
  rw [Nat.testBit_eq_decide_div_mod_eq]
  -- The bit is set if and only if doubling wraps around, which is when the number is at least half
  -- the power.
  cases hout : outcome.2 with
  | false =>
    have hlt : binaryValue bytes < 2 ^ (8 * bytes.length - 1) := by
      rw [hout, Bool.toNat_false] at h
      omega
    rw [Nat.div_eq_of_lt hlt]
    rfl
  | true =>
    have hdiv : binaryValue bytes / 2 ^ (8 * bytes.length - 1) = 1 := by
      rw [hout, Bool.toNat_true] at h
      exact Nat.div_eq_of_lt_le (by omega) (by omega)
    rw [hdiv]
    rfl

end Numbers

/-- The lowest bit of the number goes out. -/
theorem HalvesAll.out {bytes : List UInt8} {bitIn : Bool} {outcome : List UInt8 × Bool}
    (h : HalvesAll bytes bitIn outcome) (hbytes : bytes ≠ []) :
    outcome.2 = (binaryValue bytes.reverse).testBit 0 := by
  have hpow := pow_eq_double (mt List.length_eq_zero_iff.mp hbytes)
  rw [HalvesAll, hpow, Nat.mul_assoc] at h
  rw [Nat.testBit_zero]
  cases hout : outcome.2 <;> rw [hout] at h <;> simp at h ⊢ <;> omega

/-- A number that takes in no bit is halved. -/
theorem HalvesAll.value {bytes : List UInt8} {outcome : List UInt8 × Bool}
    (h : HalvesAll bytes false outcome) :
    binaryValue outcome.1.reverse = binaryValue bytes.reverse / 2 := by
  have hbit := outcome.2.toNat_le
  rw [HalvesAll, Bool.toNat_false, Nat.mul_zero] at h
  omega

/-- In two's complement the highest bit counts negative. -/
theorem signedValue_concat (bytes : List UInt8) (b : UInt8) :
    signedValue (bytes ++ [b]) =
      binaryValue (bytes ++ [b]) - (256 ^ (bytes.length + 1) * (Byte.bit 7 b).toNat : Nat) := by
  have hlower := binaryValue_lt bytes
  have hb := b.toNat_lt
  have hsign : (Byte.bit 7 b).toNat = b.toNat / 128 % 2 := Byte.toNat_bit (by decide) b
  have hweight : 0 < 256 ^ bytes.length := Nat.pow_pos (by decide)
  -- The highest byte counts by its bounds only, so the products with its weight are atoms.
  have hproduct : 256 ^ bytes.length * (128 * (Byte.bit 7 b).toNat) ≤ 256 ^ bytes.length * b.toNat ∧
      256 ^ bytes.length * b.toNat ≤ 256 ^ bytes.length * (128 * (Byte.bit 7 b).toNat + 127) :=
    ⟨Nat.mul_le_mul_left _ (by omega), Nat.mul_le_mul_left _ (by omega)⟩
  rw [signedValue, List.length_append, List.length_singleton, binaryValue_concat, Nat.pow_succ,
    Int.bmod_eq_iff (Nat.mul_pos hweight (by decide))]
  generalize 256 ^ bytes.length * b.toNat = product at *
  generalize 256 ^ bytes.length = weight at *
  generalize Byte.bit 7 b = sign at *
  -- With the sign known, the bounds say which of the two representatives is in range.
  cases sign with
  | false =>
    simp only [Bool.toNat_false, Nat.mul_zero, Nat.zero_add] at hproduct ⊢
    refine ⟨by omega, by omega, ?_⟩
    simp
  | true =>
    simp only [Bool.toNat_true, Nat.mul_one] at hproduct ⊢
    refine ⟨by omega, by omega, -1, ?_⟩
    omega

/-- A number that takes in a copy of its sign is halved as a signed number, rounding down. -/
theorem HalvesAll.signed {b : UInt8} {rest : List UInt8} {outcome : List UInt8 × Bool}
    (hlength : outcome.1.length = rest.length + 1)
    (h : HalvesAll (b :: rest) (Byte.bit 7 b) outcome) :
    signedValue outcome.1.reverse = signedValue (b :: rest).reverse / 2 := by
  have hbit := outcome.2.toNat_le
  have hpow : 0 < 256 ^ (rest.length + 1) := Nat.pow_pos (by decide)
  have hlow := Int.le_bmod (x := binaryValue (b :: rest).reverse) hpow
  have hhigh := Int.bmod_lt (x := binaryValue (b :: rest).reverse) hpow
  have hsigned : (binaryValue (b :: rest).reverse : Int).bmod (256 ^ (rest.length + 1)) =
      binaryValue (b :: rest).reverse -
        (256 ^ (rest.length + 1) * (Byte.bit 7 b).toNat : Nat) := by
    have hconcat := signedValue_concat rest.reverse b
    rwa [← List.reverse_cons, List.length_reverse, signedValue, List.length_reverse] at hconcat
  rw [HalvesAll, List.length_cons] at h
  rw [signedValue, signedValue, List.length_reverse, List.length_reverse, hlength, List.length_cons,
    Int.bmod_eq_iff hpow]
  -- The sign that the shift keeps has the same weight before and after it.
  rw [hsigned] at hlow hhigh ⊢
  refine ⟨by omega, by omega, -(Byte.bit 7 b).toNat, ?_⟩
  rw [Int.mul_neg, ← Int.natCast_mul]
  omega

/-- Halving what was doubled gives the number back, and the bit below it. -/
theorem HalvesAll.restores {bytes : List UInt8} {carry : Bool} {up down : List UInt8 × Bool}
    (hdown : HalvesAll up.1.reverse up.2 down) (hup : DoublesAll bytes carry up)
    (huplength : up.1.length = bytes.length) (hdownlength : down.1.length = bytes.length) :
    down.1.reverse = bytes ∧ down.2 = carry := by
  have hcarry := carry.toNat_le
  have hout := down.2.toNat_le
  rw [HalvesAll, List.reverse_reverse, List.length_reverse, huplength, hup] at hdown
  have hvalue : binaryValue down.1.reverse = binaryValue bytes := by omega
  have hbit : down.2.toNat = carry.toNat := by omega
  refine ⟨binaryValue_injective ((List.length_reverse ..).trans hdownlength) hvalue, ?_⟩
  rw [Bool.eq_iff_iff, ← Bool.toNat_eq_one, hbit, Bool.toNat_eq_one]

end Execution

/-! ## Places of bytes -/

/-- Where a byte of a number lives. -/
inductive Location where
  | register (r : Register)
  | cell (addr : UInt16)
  deriving DecidableEq, Repr

/-- What instructions call a location; a cell has to be pointed to. -/
def Location.place : Location → Place
  | register r => .register r
  | cell _ => .atHL

namespace Machine

variable {μ : Type} [Memory μ]

/-- The byte at a location. -/
def byteAt (m : Machine μ) : Location → UInt8
  | .register r => m.cpu.register r
  | .cell addr => Memory.read m.memory addr

/-- HL points to the location if it is a cell. -/
def PointsTo (m : Machine μ) : Location → Prop
  | .register _ => True
  | .cell addr => m.cpu.hl = addr

/-- While HL points to a location, its place holds the byte at the location. -/
theorem PointsTo.placeByte {m : Machine μ} {location : Location} (h : m.PointsTo location) :
    m.placeByte location.place = m.byteAt location := by
  cases location with
  | register r => rfl
  | cell addr => exact congrArg (Memory.read m.memory) h

/-- A shifted byte and its flags. -/
def shifted (m : Machine μ) (op : ShiftOp) (place : Place) : UInt8 × Flags :=
  let (result, out) := Execution.shiftByte op m.cpu.f.carry (m.placeByte place)
  (result, .ofShift (result == 0) out)

/-- A shift replaces the byte at its place and sets the flags. -/
theorem carried_shift (m : Machine μ) (op : ShiftOp) (place : Place) (operand : UInt16) :
    m.carried (.shift ⟨op, place⟩) operand = m.withPlace place (m.shifted op place) := by
  cases place with
  | register r => cases r <;> rfl
  | atHL => rfl

/-- The operand of a shift is where it was before its step. -/
theorem shifted_past (m : Machine μ) (i : Instruction) (op : ShiftOp) (place : Place) :
    (m.past i).shifted op place = m.shifted op place := by
  have hbyte : (m.past i).placeByte place = m.placeByte place :=
    m.operandByte_past i 0 (.place place)
  rw [shifted, hbyte]
  rfl

/-- In a step an instruction finds the registers and the memory as they were before, and retiring
touches neither. -/
theorem CarriesOut.exists_alike {m next : Machine μ} {i : Instruction} {operand : UInt16}
    (h : m.CarriesOut i operand next) :
    ∃ before : Machine μ, (before = m ∨ before = m.past i) ∧
      next.cpu.f = (before.carried i operand).cpu.f ∧
      next.memory = (before.carried i operand).memory ∧
      ∀ l, next.byteAt l = (before.carried i operand).byteAt l := by
  cases h with
  | direct => exact ⟨m, .inl rfl, rfl, rfl, fun _ => rfl⟩
  | step hretires =>
    obtain ⟨cycles, hstep⟩ := machine_step_of_retires hretires Listener.deaf ()
    rw [hstep]
    refine ⟨m.past i, .inr rfl, rfl, rfl, fun l => ?_⟩
    cases l with
    | register r => cases r <;> rfl
    | cell addr => rfl

/-- Fetching an instruction changes no byte. -/
theorem byteAt_past (m : Machine μ) (i : Instruction) (l : Location) :
    (m.past i).byteAt l = m.byteAt l := by
  cases l with
  | register r => cases r <;> rfl
  | cell addr => rfl

/-- Fetching an instruction leaves HL as it is. -/
theorem PointsTo.past {m : Machine μ} {location : Location} (h : m.PointsTo location)
    (i : Instruction) : (m.past i).PointsTo location := by
  cases location with
  | register r => trivial
  | cell addr => exact h

/-- The flags of a result are set wherever the result goes. -/
theorem f_withPlace (m : Machine μ) (place : Place) (outcome : UInt8 × Flags) :
    (m.withPlace place outcome).cpu.f = outcome.2 := by
  cases place <;> rfl

/-- A result that goes to a register changes that register alone. -/
theorem byteAt_withPlace_register (m : Machine μ) (r : Register) (outcome : UInt8 × Flags)
    (l : Location) :
    (m.withPlace (.register r) outcome).byteAt l =
      if l = .register r then outcome.1 else m.byteAt l := by
  cases l with
  | register s =>
    have hregister : (m.withPlace (.register r) outcome).cpu.register s =
        (m.cpu.setRegister r outcome.1).register s := by cases s <;> rfl
    simp only [byteAt, hregister, Cpu.register_setRegister, Location.register.injEq]
  | cell addr => rfl

/-- What every shift leaves behind: the shifted byte at its place, and flags that tell of that byte
and of the bit that left it. -/
structure Shifts (m : Machine μ) (op : ShiftOp) (place : Place) (next : Machine μ) : Prop where
  result : match place with
    | .register r => next.cpu.register r = (m.shifted op place).1
    | .atHL => next.memory = Memory.write m.memory m.cpu.hl (m.shifted op place).1
  zero : next.cpu.f.zero = true ↔ (m.shifted op place).1 = 0
  subtract : next.cpu.f.subtract = false
  halfCarry : next.cpu.f.halfCarry = false
  carry : next.cpu.f.carry = (Execution.shiftByte op m.cpu.f.carry (m.placeByte place)).2

/-- Every shift that is carried out, alone or in a step, does what a shift does. -/
theorem CarriesOut.shifts {m next : Machine μ} {op : ShiftOp} {place : Place} {operand : UInt16}
    (h : m.CarriesOut (.shift ⟨op, place⟩) operand next) : m.Shifts op place next := by
  obtain ⟨before, hbefore, hf, hmemory, hbytes⟩ := h.exists_alike
  have hshifted : before.shifted op place = m.shifted op place := by
    rcases hbefore with rfl | rfl
    · rfl
    · exact shifted_past ..
  simp only [carried_shift, hshifted] at hf hmemory hbytes
  rw [f_withPlace] at hf
  constructor
  case result =>
    cases place with
    | register r =>
      exact (hbytes (.register r)).trans ((byteAt_withPlace_register ..).trans (if_pos rfl))
    | atHL => rw [hmemory]; rcases hbefore with rfl | rfl <;> rfl
  all_goals rw [hf]
  case zero => exact beq_iff_eq
  all_goals rfl

/-! ## Rounds -/

/-- Nothing happens to the bytes of a number and to the carry, and the memory stays valid. -/
structure Keeps (valid : μ → Prop) (number : List Location) (m m' : Machine μ) : Prop where
  memory : valid m.memory → valid m'.memory
  carry : m'.cpu.f.carry = m.cpu.f.carry
  byteAt : ∀ location ∈ number, m'.byteAt location = m.byteAt location

/-- Bytes of a number are shifted one after the other.  Anything can happen in between that keeps the
number and the carry. -/
inductive ShiftRounds (valid : μ → Prop) (number : List Location) :
    List (ShiftOp × Location) → Machine μ → Machine μ → Prop where
  | nil {m last : Machine μ} (after : Keeps valid number m last) :
      ShiftRounds valid number [] m last
  | cons {op : ShiftOp} {location : Location} {rest : List (ShiftOp × Location)}
      {m loaded result last : Machine μ} {operand : UInt16}
      (before : Keeps valid number m loaded) (pointsTo : loaded.PointsTo location)
      (shifted : loaded.CarriesOut (.shift ⟨op, location.place⟩) operand result)
      (later : ShiftRounds valid number rest result last) :
      ShiftRounds valid number ((op, location) :: rest) m last

section Rounds

variable {valid : μ → Prop} {part : UInt16 → Prop} {number : List Location}
  (hmem : Memory.Retains valid part) (hcells : ∀ addr, .cell addr ∈ number → part addr)
include hmem hcells

/-- A result changes the byte of a number that it goes to, and no other byte of it. -/
theorem byteAt_withPlace {m : Machine μ} (hvalid : valid m.memory) {location l : Location}
    (hlocation : location ∈ number) (hl : l ∈ number) (hpoints : m.PointsTo location)
    (outcome : UInt8 × Flags) :
    (m.withPlace location.place outcome).byteAt l =
      if l = location then outcome.1 else m.byteAt l := by
  cases location with
  | register r => exact byteAt_withPlace_register ..
  | cell addr =>
    obtain rfl : m.cpu.hl = addr := hpoints
    cases l with
    | register s => cases s <;> rfl
    | cell addr =>
      simp only [Location.cell.injEq]
      -- In the part of the memory that keeps bytes, a write is seen at its own address only.
      exact hmem.read hvalid (hcells _ hlocation) (hcells _ hl) outcome.1

/-- A shift changes one byte of a number. -/
theorem CarriesOut.byteAt_shift {m next : Machine μ} {op : ShiftOp} {location l : Location}
    {operand : UInt16} (h : m.CarriesOut (.shift ⟨op, location.place⟩) operand next)
    (hvalid : valid m.memory) (hlocation : location ∈ number) (hl : l ∈ number)
    (hpoints : m.PointsTo location) :
    next.byteAt l =
      if l = location then (Execution.shiftByte op m.cpu.f.carry (m.byteAt location)).1
      else m.byteAt l := by
  obtain ⟨before, hbefore, -, -, hbytes⟩ := h.exists_alike
  rw [hbytes, carried_shift, ← hpoints.placeByte]
  rcases hbefore with rfl | rfl
  · exact byteAt_withPlace hmem hcells hvalid hlocation hl hpoints _
  · rw [shifted_past]
    have hpast := byteAt_withPlace hmem hcells (m := m.past (.shift ⟨op, location.place⟩)) hvalid
      hlocation hl (hpoints.past _) (m.shifted op location.place)
    rwa [byteAt_past] at hpast

/-- A shift keeps the memory valid. -/
theorem CarriesOut.valid_shift {m next : Machine μ} {op : ShiftOp} {location : Location}
    {operand : UInt16} (h : m.CarriesOut (.shift ⟨op, location.place⟩) operand next)
    (hvalid : valid m.memory) (hlocation : location ∈ number) (hpoints : m.PointsTo location) :
    valid next.memory := by
  obtain ⟨before, hbefore, -, hmemory, -⟩ := h.exists_alike
  rw [hmemory, carried_shift]
  -- A shift of a register does not write, and one of a cell writes to the part.
  cases location with
  | register r => rcases hbefore with rfl | rfl <;> exact hvalid
  | cell addr =>
    have hpart : part m.cpu.hl := hpoints ▸ hcells _ hlocation
    rcases hbefore with rfl | rfl <;> exact hmem.write hvalid hpart _

/-- Rounds keep the memory valid. -/
theorem ShiftRounds.valid_memory {rounds : List (ShiftOp × Location)} {m last : Machine μ}
    (h : ShiftRounds valid number rounds m last) (hrounds : ∀ round ∈ rounds, round.2 ∈ number)
    (hvalid : valid m.memory) : valid last.memory := by
  induction h with
  | nil after => exact after.memory hvalid
  | cons before pointsTo shifted later ih =>
    obtain ⟨hlocation, hrest⟩ := List.forall_mem_cons.mp hrounds
    exact ih hrest (shifted.valid_shift hmem hcells (before.memory hvalid) hlocation pointsTo)

/-- A byte whose turn never comes stays as it is. -/
theorem ShiftRounds.byteAt_of_notMem {rounds : List (ShiftOp × Location)} {m last : Machine μ}
    (h : ShiftRounds valid number rounds m last) (hrounds : ∀ round ∈ rounds, round.2 ∈ number)
    (hvalid : valid m.memory) {l : Location} (hl : l ∈ number)
    (hother : ∀ round ∈ rounds, l ≠ round.2) : last.byteAt l = m.byteAt l := by
  -- Over the rounds: none of them shifts this byte, and nothing in between changes it.
  induction h with
  | nil after => exact after.byteAt l hl
  | cons before pointsTo shifted later ih =>
    obtain ⟨hlocation, hrest⟩ := List.forall_mem_cons.mp hrounds
    obtain ⟨hne, hotherRest⟩ := List.forall_mem_cons.mp hother
    have hbefore := before.memory hvalid
    rw [ih hrest (shifted.valid_shift hmem hcells hbefore hlocation pointsTo) hotherRest,
      shifted.byteAt_shift hmem hcells hbefore hlocation hl pointsTo, if_neg hne,
      before.byteAt l hl]

/-- The machine shifts the bytes of a number as `shiftBytes` does: every round leaves its carry for the
next one, and no round touches the byte of another one. -/
theorem ShiftRounds.shiftBytes {rounds : List (ShiftOp × Location)} {m last : Machine μ}
    (h : ShiftRounds valid number rounds m last) (hrounds : ∀ round ∈ rounds, round.2 ∈ number)
    (hnodup : (rounds.map Prod.snd).Nodup) (hvalid : valid m.memory) :
    Execution.shiftBytes (rounds.map fun round => (round.1, m.byteAt round.2)) m.cpu.f.carry =
      (rounds.map fun round => last.byteAt round.2, last.cpu.f.carry) := by
  -- Over the rounds, each with the carry of the one before.
  induction h with
  | nil after => exact congrArg _ after.carry.symm
  | @cons op location rest m loaded result last operand before pointsTo shifted later ih =>
    obtain ⟨hlocation, hrest⟩ := List.forall_mem_cons.mp hrounds
    obtain ⟨hne, hnodupRest⟩ := List.nodup_cons.mp hnodup
    have hother : ∀ round ∈ rest, location ≠ round.2 := fun round hround heq =>
      hne (List.mem_map.mpr ⟨round, hround, heq.symm⟩)
    have hbefore := before.memory hvalid
    have hresult := shifted.valid_shift hmem hcells hbefore hlocation pointsTo
    -- The byte of this round is not shifted again, and those of the later rounds wait.
    have hbyte : last.byteAt location =
        (Execution.shiftByte op m.cpu.f.carry (m.byteAt location)).1 := by
      rw [later.byteAt_of_notMem hmem hcells hrest hresult hlocation hother,
        shifted.byteAt_shift hmem hcells hbefore hlocation hlocation pointsTo, if_pos rfl,
        before.carry, before.byteAt _ hlocation]
    have hcarry : result.cpu.f.carry =
        (Execution.shiftByte op m.cpu.f.carry (m.byteAt location)).2 := by
      rw [shifted.shifts.carry, pointsTo.placeByte, before.carry, before.byteAt _ hlocation]
    have hwait : (rest.map fun round => (round.1, m.byteAt round.2)) =
        rest.map fun round => (round.1, result.byteAt round.2) := by
      refine List.map_congr_left fun round hround => congrArg _ ?_
      rw [shifted.byteAt_shift hmem hcells hbefore hlocation (hrest _ hround) pointsTo,
        if_neg (hother _ hround).symm, before.byteAt _ (hrest _ hround)]
    have hlater := ih hrest hnodupRest hresult
    rw [← hwait, hcarry] at hlater
    simp only [List.map_cons, Execution.shiftBytes, hlater, hbyte]

end Rounds

/-! ## Numbers -/

/-- The number that some bytes of a machine write, the lowest one first. -/
def numberAt (m : Machine μ) (number : List Location) : Nat := binaryValue (number.map m.byteAt)

/-- The number that some bytes of a machine write in two's complement. -/
def signedAt (m : Machine μ) (number : List Location) : Int := signedValue (number.map m.byteAt)

/-- A number is shifted from its lowest byte up: one operation for this byte and, for all others,
rotations to the left through the carry. -/
def ShiftsUp (valid : μ → Prop) (number : List Location) (first : ShiftOp) :
    Machine μ → Machine μ → Prop :=
  ShiftRounds valid number (inSequence first (.rotate .leftThroughCarry) number)

/-- A number is shifted from its highest byte down: one operation for this byte and, for all others,
rotations to the right through the carry. -/
def ShiftsDown (valid : μ → Prop) (number : List Location) (first : ShiftOp) :
    Machine μ → Machine μ → Prop :=
  ShiftRounds valid number (inSequence first (.rotate .rightThroughCarry) number.reverse)

section Numbers

variable {valid : μ → Prop} {part : UInt16 → Prop} {number : List Location}
  (hmem : Memory.Retains valid part) (hcells : ∀ addr, .cell addr ∈ number → part addr)
  (hnodup : number.Nodup) {m mid last : Machine μ} (hvalid : valid m.memory) {first : ShiftOp}
include hmem hcells hnodup hvalid

/-- The rounds of a whole number, in whatever order its bytes come. -/
theorem ShiftRounds.shiftBytes_inSequence {later : ShiftOp} {locations : List Location}
    (hlocations : locations.Perm number)
    (h : ShiftRounds valid number (inSequence first later locations) m last) :
    Execution.shiftBytes (inSequence first later (locations.map m.byteAt)) m.cpu.f.carry =
      (locations.map last.byteAt, last.cpu.f.carry) := by
  have hsnd := map_snd_inSequence first later locations
  have hrounds : ∀ round ∈ inSequence first later locations, round.2 ∈ number :=
    fun round hround => hlocations.mem_iff.mp (mem_of_mem_inSequence hround)
  have hdistinct : ((inSequence first later locations).map Prod.snd).Nodup :=
    hsnd.symm ▸ hlocations.nodup_iff.mpr hnodup
  have hlast : (inSequence first later locations).map (fun round => last.byteAt round.2) =
      locations.map last.byteAt := by
    conv_rhs => rw [← hsnd, List.map_map]
    rfl
  have hbytes := h.shiftBytes hmem hcells hrounds hdistinct hvalid
  rwa [map_inSequence, hlast] at hbytes

/-- Shifting up goes through the bytes from the lowest one. -/
theorem ShiftsUp.shiftBytes (h : ShiftsUp valid number first m last) :
    Execution.shiftBytes (inSequence first (.rotate .leftThroughCarry) (number.map m.byteAt))
      m.cpu.f.carry = (number.map last.byteAt, last.cpu.f.carry) :=
  ShiftRounds.shiftBytes_inSequence hmem hcells hnodup hvalid (.refl _) h

/-- Shifting down goes through the bytes from the highest one. -/
theorem ShiftsDown.shiftBytes (h : ShiftsDown valid number first m last) :
    Execution.shiftBytes (inSequence first (.rotate .rightThroughCarry)
      (number.map m.byteAt).reverse) m.cpu.f.carry =
      ((number.map last.byteAt).reverse, last.cpu.f.carry) := by
  simp only [← List.map_reverse]
  exact ShiftRounds.shiftBytes_inSequence hmem hcells hnodup hvalid number.reverse_perm h

/-- Shifting up doubles the number and takes a bit in below. -/
theorem ShiftsUp.doubles (h : ShiftsUp valid number first m last) (hnumber : number ≠ [])
    {bitIn : Bool}
    (hfirst : ∀ b, Execution.Doubles b bitIn (Execution.shiftByte first m.cpu.f.carry b)) :
    last.numberAt number = (2 * m.numberAt number + bitIn.toNat) % 256 ^ number.length ∧
      last.cpu.f.carry = (m.numberAt number).testBit (8 * number.length - 1) := by
  have hbytes : number.map m.byteAt ≠ [] := mt List.map_eq_nil_iff.mp hnumber
  -- The list of bytes has been doubled, and it is the list of bytes of the machine at the end.
  have hdoubles := Execution.doublesAll_inSequence hfirst hbytes
  rw [h.shiftBytes hmem hcells hnodup hvalid] at hdoubles
  have hlength : (number.map last.byteAt).length = (number.map m.byteAt).length := by simp
  have hvalue := hdoubles.value hlength
  have hout := hdoubles.out hlength hbytes
  rw [List.length_map] at hvalue hout
  exact ⟨hvalue, hout⟩

/-- Shifting down halves the bytes, with the highest one first. -/
theorem ShiftsDown.halvesAll (h : ShiftsDown valid number first m last) (hnumber : number ≠ [])
    {bitIn : UInt8 → Bool}
    (hfirst : ∀ b, Execution.Halves b (bitIn b) (Execution.shiftByte first m.cpu.f.carry b)) :
    ∃ b rest, (number.map m.byteAt).reverse = b :: rest ∧
      Execution.HalvesAll (b :: rest) (bitIn b)
        ((number.map last.byteAt).reverse, last.cpu.f.carry) := by
  have hbytes : (number.map m.byteAt).reverse ≠ [] := by simpa using hnumber
  obtain ⟨b, rest, hhead⟩ := List.exists_cons_of_ne_nil hbytes
  refine ⟨b, rest, hhead, ?_⟩
  rw [← h.shiftBytes hmem hcells hnodup hvalid, hhead]
  exact Execution.halvesAll_inSequence (hfirst b) rest

/-- Shifting down moves the lowest bit into the carry. -/
theorem ShiftsDown.carry (h : ShiftsDown valid number first m last) (hnumber : number ≠ [])
    {bitIn : UInt8 → Bool}
    (hfirst : ∀ b, Execution.Halves b (bitIn b) (Execution.shiftByte first m.cpu.f.carry b)) :
    last.cpu.f.carry = (m.numberAt number).testBit 0 := by
  obtain ⟨b, rest, hhead, hhalves⟩ := h.halvesAll hmem hcells hnodup hvalid hnumber hfirst
  have hout := hhalves.out (List.cons_ne_nil b rest)
  rwa [← hhead, List.reverse_reverse] at hout

/-- A logical shift down halves the number. -/
theorem ShiftsDown.unsigned (h : ShiftsDown valid number .right m last) (hnumber : number ≠ []) :
    last.numberAt number = m.numberAt number / 2 := by
  obtain ⟨b, rest, hhead, hhalves⟩ :=
    h.halvesAll hmem hcells hnodup hvalid hnumber (Execution.halves_right _)
  have hvalue := hhalves.value
  rwa [← hhead, List.reverse_reverse, List.reverse_reverse] at hvalue

/-- An arithmetic shift down halves the signed number. -/
theorem ShiftsDown.signed (h : ShiftsDown valid number .rightSigned m last)
    (hnumber : number ≠ []) : last.signedAt number = m.signedAt number / 2 := by
  obtain ⟨b, rest, hhead, hhalves⟩ :=
    h.halvesAll hmem hcells hnodup hvalid hnumber (Execution.halves_rightSigned _)
  have hlength : (number.map last.byteAt).reverse.length = rest.length + 1 := by
    rw [← List.length_cons (a := b), ← hhead]
    simp
  have hvalue := hhalves.signed hlength
  rwa [← hhead, List.reverse_reverse, List.reverse_reverse] at hvalue

/-- Rotating up and down again through the carry gives back the number and the carry. -/
theorem ShiftsUp.restored (hup : ShiftsUp valid number (.rotate .leftThroughCarry) m mid)
    (hdown : ShiftsDown valid number (.rotate .rightThroughCarry) mid last) :
    (∀ location ∈ number, last.byteAt location = m.byteAt location) ∧
      last.cpu.f.carry = m.cpu.f.carry := by
  have hmid : valid mid.memory :=
    ShiftRounds.valid_memory hmem hcells hup (fun _ hround => mem_of_mem_inSequence hround) hvalid
  have hdoubles := Execution.doublesAll_leftThroughCarry (number.map m.byteAt) m.cpu.f.carry
  -- The second pass begins with the bytes and the carry that the first one has left.
  have hhalves :=
    Execution.halvesAll_rightThroughCarry (number.map mid.byteAt).reverse mid.cpu.f.carry
  rw [← inSequence_self, hup.shiftBytes hmem hcells hnodup hvalid] at hdoubles
  rw [← inSequence_self, hdown.shiftBytes hmem hcells hnodup hmid] at hhalves
  obtain ⟨hbytes, hcarry⟩ := hhalves.restores hdoubles (by simp) (by simp)
  rw [List.reverse_reverse] at hbytes
  exact ⟨List.map_inj_left.mp hbytes, hcarry⟩

end Numbers

/-- Every sequence of shifts can be carried out: HL is loaded with the address of a cell before its
turn.  A number with cells must leave HL free for that. -/
theorem exists_shiftRounds {valid : μ → Prop} {part : UInt16 → Prop} {number : List Location}
    (hmem : Memory.Retains valid part) (hcells : ∀ addr, .cell addr ∈ number → part addr)
    (hfree : ∀ addr, .cell addr ∈ number → .register .h ∉ number ∧ .register .l ∉ number)
    {rounds : List (ShiftOp × Location)} (hrounds : ∀ round ∈ rounds, round.2 ∈ number)
    {m : Machine μ} (hvalid : valid m.memory) : ∃ last, ShiftRounds valid number rounds m last := by
  -- Over the rounds: point to the location, shift its byte, and go on from there.
  induction rounds generalizing m with
  | nil => exact ⟨m, .nil ⟨id, rfl, fun _ _ => rfl⟩⟩
  | cons round rest ih =>
    obtain ⟨op, location⟩ := round
    obtain ⟨hlocation, hrest⟩ := List.forall_mem_cons.mp hrounds
    obtain ⟨loaded, hbefore, hpoints⟩ :
        ∃ loaded, Keeps valid number m loaded ∧ loaded.PointsTo location := by
      cases location with
      | register r => exact ⟨m, ⟨id, rfl, fun _ _ => rfl⟩, trivial⟩
      | cell addr =>
        refine ⟨m.carried (.load (.word .hl)) addr, ⟨id, rfl, fun l hl => ?_⟩, m.cpu.hl_setHL addr⟩
        obtain ⟨hh, hl'⟩ := hfree addr hlocation
        cases l with
        | register r => cases r <;> first | rfl | contradiction
        | cell => rfl
    have hshifted := CarriesOut.direct (m := loaded) (i := .shift ⟨op, location.place⟩) 0
    obtain ⟨last, hlater⟩ := ih hrest
      (hshifted.valid_shift hmem hcells (hbefore.memory hvalid) hlocation hpoints)
    exact ⟨last, .cons hbefore hpoints hshifted hlater⟩

/-- Numbers of any length are shifted by shifting their bytes one after the other, each with the carry
that the one before has left.  The bytes can stand in registers and in memory. -/
theorem multibyte_shifts {valid : μ → Prop} {part : UInt16 → Prop} {number : List Location}
    (hmem : Memory.Retains valid part) (hcells : ∀ addr, .cell addr ∈ number → part addr)
    (hnodup : number.Nodup) (hnumber : number ≠ []) {m : Machine μ} (hvalid : valid m.memory) :
    (∀ last, ShiftsUp valid number .left m last →
      last.numberAt number = 2 * m.numberAt number % 256 ^ number.length ∧
      last.cpu.f.carry = (m.numberAt number).testBit (8 * number.length - 1)) ∧
    (∀ last, ShiftsUp valid number (.rotate .leftThroughCarry) m last →
      last.numberAt number =
        (2 * m.numberAt number + m.cpu.f.carry.toNat) % 256 ^ number.length ∧
      last.cpu.f.carry = (m.numberAt number).testBit (8 * number.length - 1)) ∧
    (∀ last, ShiftsDown valid number .right m last →
      last.numberAt number = m.numberAt number / 2 ∧
      last.cpu.f.carry = (m.numberAt number).testBit 0) ∧
    (∀ last, ShiftsDown valid number .rightSigned m last →
      last.signedAt number = m.signedAt number / 2 ∧
      last.cpu.f.carry = (m.numberAt number).testBit 0) ∧
    (∀ mid last, ShiftsUp valid number (.rotate .leftThroughCarry) m mid →
      ShiftsDown valid number (.rotate .rightThroughCarry) mid last →
      (∀ location ∈ number, last.byteAt location = m.byteAt location) ∧
      last.cpu.f.carry = m.cpu.f.carry) ∧
    (∀ (before : Machine μ) op place operand next,
      before.CarriesOut (.shift ⟨op, place⟩) operand next → before.Shifts op place next) ∧
    -- All of these sequences exist if HL is free to point to the cells.
    ((∀ addr, .cell addr ∈ number → .register .h ∉ number ∧ .register .l ∉ number) →
      ∀ (before : Machine μ) first, valid before.memory →
        (∃ last, ShiftsUp valid number first before last) ∧
        ∃ last, ShiftsDown valid number first before last) := by
  refine ⟨fun last h => h.doubles hmem hcells hnodup hvalid hnumber (Execution.doubles_left _),
    fun last h =>
      h.doubles hmem hcells hnodup hvalid hnumber (Execution.doubles_leftThroughCarry _),
    fun last h => ⟨h.unsigned hmem hcells hnodup hvalid hnumber,
      h.carry hmem hcells hnodup hvalid hnumber (Execution.halves_right _)⟩,
    fun last h => ⟨h.signed hmem hcells hnodup hvalid hnumber,
      h.carry hmem hcells hnodup hvalid hnumber (Execution.halves_rightSigned _)⟩,
    fun mid last hup hdown => hup.restored hmem hcells hnodup hvalid hdown,
    fun before op place operand next h => h.shifts,
    fun hfree before first hbefore => ⟨?_, ?_⟩⟩
  · exact exists_shiftRounds hmem hcells hfree (fun _ h => mem_of_mem_inSequence h) hbefore
  · exact exists_shiftRounds hmem hcells hfree
      (fun _ h => List.mem_reverse.mp (mem_of_mem_inSequence h)) hbefore

/-- A console with the lower byte of a number in C and the upper one in the work RAM. -/
def spread : Console where
  cpu := { Cpu.initial with c := 0x81 }
  memory := Memory.write (Bus.assemble .sample .empty .cgb) 0xC000 0x40

/-- A word with one byte in a register and one in memory is doubled. -/
theorem multibyte_shifts_spread :
    spread.memory.WellFormed ∧ spread.numberAt [.register .c, .cell 0xC000] = 0x4081 ∧
      ∃ last, ShiftsUp Bus.WellFormed [.register .c, .cell 0xC000] .left spread last ∧
        last.numberAt [.register .c, .cell 0xC000] = 0x8102 := by
  have hsample := (Bus.Reachable.sample .cgb).wellFormed
  have hram : IsRamAddress 0xC000 := .inr (.inl (by decide))
  have hspread : spread.memory.WellFormed := hsample.write 0xC000 0x40
  -- The cell was written just before, so it holds that byte.
  have hcell : spread.byteAt (.cell 0xC000) = 0x40 := by
    rw [byteAt, spread, Bus.retains.read hsample hram hram, if_pos rfl]
  have hnumber : spread.numberAt [.register .c, .cell 0xC000] = 0x4081 := by
    rw [numberAt, List.map_cons, List.map_cons, hcell]
    rfl
  have hcells : ∀ addr, Location.cell addr ∈ [.register .c, .cell 0xC000] → IsRamAddress addr := by
    intro addr haddr
    obtain rfl : addr = 0xC000 := by simpa using haddr
    exact hram
  obtain ⟨hleft, -, -, -, -, -, hexists⟩ :=
    multibyte_shifts Bus.retains hcells (by decide) (by decide) hspread
  obtain ⟨⟨last, hlast⟩, -⟩ := hexists (fun addr _ => by decide) spread .left hspread
  refine ⟨hspread, hnumber, last, hlast, ?_⟩
  rw [(hleft last hlast).1, hnumber]
  rfl

end Machine

end GameBoy
