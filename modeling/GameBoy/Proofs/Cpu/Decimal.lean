import GameBoy.Proofs.Cpu.Binary

/-!
# Decimal arithmetic

A byte can hold two decimal digits, one in each half.  Numbers of any length are added and
subtracted byte by byte, from the lowest byte up: `ADC` or `SBC` combines two bytes as if they were
binary, `DAA` corrects the digits, and the carry flag takes the carry on to the next byte.

`Arithmetic.packed_add` and `Arithmetic.packed_sub` are the two laws for a single byte; they follow
from what the arithmetic unit does in natural numbers (`add_eq`, `sub_eq`, `decimalAdjust_after_add`,
`decimalAdjust_after_sub`).  `Machine.DecimalRounds` is a computation on numbers of several bytes, one
round for each (`Machine.adjusted_balanced`), and `DecimalRounds.balanced` says by induction what all
rounds come to.
-/

namespace GameBoy

/-! ## Packed digits -/

/-- A byte holds two decimal digits. -/
def Packed (b : UInt8) : Prop := b.toNat / 16 ≤ 9 ∧ b.toNat % 16 ≤ 9

/-- The number that the two digits of a byte write. -/
def packedValue (b : UInt8) : Nat := 10 * (b.toNat / 16) + b.toNat % 16

/-- The number that packed digits write, the byte with the lowest two first. -/
def decimalValue : List UInt8 → Nat
  | [] => 0
  | b :: rest => packedValue b + 100 * decimalValue rest

namespace Arithmetic

/-! ## Corrections -/

/-- A correction upwards that a flag asks for. -/
private theorem toNat_raise (needed : Bool) (a amount : UInt8) :
    (if needed then a + amount else a).toNat = (a.toNat + amount.toNat * needed.toNat) % 256 := by
  have ha := a.toNat_lt
  cases needed <;> simp

/-- A correction downwards that a flag asks for. -/
private theorem toNat_lower (needed : Bool) (a amount : UInt8) :
    (if needed then a - amount else a).toNat =
      (a.toNat + 256 - amount.toNat * needed.toNat) % 256 := by
  have ha := a.toNat_lt
  have hamount := amount.toNat_lt
  cases needed <;> simp [UInt8.toNat_sub]
  omega

/-- After an addition each digit is corrected if it carried or is none. -/
theorem decimalAdjust_after_add (a : UInt8) {f : Flags} (hf : f.subtract = false) :
    let upper := f.carry || 0x99 < a.toNat
    let lower := f.halfCarry || 9 < a.toNat % 16
    (decimalAdjust a f).1.toNat = (a.toNat + 96 * upper.toNat + 6 * lower.toNat) % 256 ∧
      (decimalAdjust a f).2 = ⟨(decimalAdjust a f).1 == 0, false, false, upper⟩ := by
  intro upper lower
  have hupper : (f.carry || decide (a > 0x99)) = upper := by
    simp [upper, UInt8.lt_iff_toNat_lt]
  -- The correction of the upper digit leaves the lower one as it was.
  have hnibble : (nibble (if upper then a + 0x60 else a)).toNat = a.toNat % 16 := by
    rw [toNat_nibble, toNat_raise]
    simp
    omega
  have hlower : (f.halfCarry || decide (nibble (if upper then a + 0x60 else a) > 0x09)) =
      lower := by
    simp [lower, UInt8.lt_iff_toNat_lt, hnibble]
  simp only [decimalAdjust, hf, hupper, hlower, Bool.false_eq_true, ↓reduceIte, toNat_raise,
    and_true]
  simp

/-- After a subtraction each digit that borrowed is corrected. -/
theorem decimalAdjust_after_sub (a : UInt8) {f : Flags} (hf : f.subtract = true) :
    (decimalAdjust a f).1.toNat =
        (a.toNat + 512 - 96 * f.carry.toNat - 6 * f.halfCarry.toNat) % 256 ∧
      (decimalAdjust a f).2 = ⟨(decimalAdjust a f).1 == 0, true, false, f.carry⟩ := by
  have ha := a.toNat_lt
  have hcarry := f.carry.toNat_le
  have hhalf := f.halfCarry.toNat_le
  simp only [decimalAdjust, hf, ↓reduceIte, toNat_lower, and_true]
  simp
  omega

/-! ## Two digits -/

/-- What a correction leaves: the accumulator holds two digits, Z tells whether they are zero, N tells
whether they come from a subtraction, and H is clear. -/
structure Adjusted (subtract : Bool) (a : UInt8) (f : Flags) : Prop where
  packed : Packed a
  zero : f.zero = true ↔ a = 0
  subtract : f.subtract = subtract
  halfCarry : f.halfCarry = false

section Digits

variable {x y c : Nat} (hx : x / 16 ≤ 9 ∧ x % 16 ≤ 9) (hy : y / 16 ≤ 9 ∧ y % 16 ≤ 9) (hc : c ≤ 1)
include hx hy hc

/-- The upper digits of a binary sum are corrected exactly if the decimal sum has three digits. -/
private theorem upper_iff : 255 < x + y + c ∨ 0x99 < (x + y + c) % 256 ↔
    99 < 10 * (x / 16) + x % 16 + (10 * (y / 16) + y % 16) + c := by
  omega

/-- The lower digits are corrected exactly if their decimal sum has two digits. -/
private theorem lower_iff : 15 < x % 16 + y % 16 + c ∨ 9 < (x + y + c) % 256 % 16 ↔
    9 < x % 16 + y % 16 + c := by
  omega

/-- The corrections turn a binary sum of digits into a decimal one. -/
private theorem corrected_sum {r : Nat}
    (hr : r = ((x + y + c) % 256 +
      96 * (decide (99 < 10 * (x / 16) + x % 16 + (10 * (y / 16) + y % 16) + c)).toNat +
      6 * (decide (9 < x % 16 + y % 16 + c)).toNat) % 256) :
    (r / 16 ≤ 9 ∧ r % 16 ≤ 9) ∧
      10 * (r / 16) + r % 16 +
          100 * (decide (99 < 10 * (x / 16) + x % 16 + (10 * (y / 16) + y % 16) + c)).toNat =
        10 * (x / 16) + x % 16 + (10 * (y / 16) + y % 16) + c := by
  -- Each of the two corrections is made or not.
  by_cases hupper : 99 < 10 * (x / 16) + x % 16 + (10 * (y / 16) + y % 16) + c <;>
    by_cases hlower : 9 < x % 16 + y % 16 + c <;>
    simp only [hupper, hlower, decide_true, decide_false, Bool.toNat_true, Bool.toNat_false]
      at hr ⊢ <;>
    omega

/-- The corrections turn a binary difference of digits into a decimal one. -/
private theorem corrected_difference {r : Nat}
    (hr : r = ((x + 512 - y - c) % 256 + 512 - 96 * (decide (x < y + c)).toNat -
      6 * (decide (x % 16 < y % 16 + c)).toNat) % 256) :
    (r / 16 ≤ 9 ∧ r % 16 ≤ 9) ∧
      10 * (r / 16) + r % 16 + (10 * (y / 16) + y % 16) + c =
        10 * (x / 16) + x % 16 + 100 * (decide (x < y + c)).toNat := by
  -- Unlike for a sum, the borrows of the subtraction alone ask for the corrections.
  by_cases hupper : x < y + c <;> by_cases hlower : x % 16 < y % 16 + c <;>
    simp only [hupper, hlower, decide_true, decide_false, Bool.toNat_true, Bool.toNat_false]
      at hr ⊢ <;>
    omega

end Digits

/-- Adding two digits to two others, and a carry, gives two digits and a carry. -/
theorem packed_add {x y : UInt8} (hx : Packed x) (hy : Packed y) (carry : Bool) :
    let outcome := decimalAdjust (add x y carry).1 (add x y carry).2
    Adjusted false outcome.1 outcome.2 ∧
      packedValue outcome.1 + 100 * outcome.2.carry.toNat =
        packedValue x + packedValue y + carry.toNat := by
  intro outcome
  have hcarry := carry.toNat_le
  obtain ⟨hsum, hf⟩ := add_eq x y carry
  have hsubtract : (add x y carry).2.subtract = false := by rw [hf]
  obtain ⟨ha, hf'⟩ := decimalAdjust_after_add (add x y carry).1 hsubtract
  -- The flags of the sum say which digits carried.
  simp only [congrArg Flags.carry hf, congrArg Flags.halfCarry hf, hsum, ← Bool.decide_or,
    upper_iff hx hy hcarry, lower_iff hx hy hcarry] at ha hf'
  obtain ⟨hpacked, hvalue⟩ := corrected_sum hx hy hcarry ha
  refine ⟨⟨hpacked, ?_, ?_, ?_⟩, ?_⟩
  · rw [hf']; exact beq_iff_eq
  · rw [hf']
  · rw [hf']
  · rw [hf']; exact hvalue

/-- Subtracting two digits and a borrow from two others gives two digits and a borrow. -/
theorem packed_sub {x y : UInt8} (hx : Packed x) (hy : Packed y) (borrow : Bool) :
    let outcome := decimalAdjust (sub x y borrow).1 (sub x y borrow).2
    Adjusted true outcome.1 outcome.2 ∧
      packedValue outcome.1 + packedValue y + borrow.toNat =
        packedValue x + 100 * outcome.2.carry.toNat := by
  intro outcome
  have hborrow := borrow.toNat_le
  obtain ⟨hdifference, hf⟩ := sub_eq x y borrow
  have hsubtract : (sub x y borrow).2.subtract = true := by rw [hf]
  obtain ⟨ha, hf'⟩ := decimalAdjust_after_sub (sub x y borrow).1 hsubtract
  -- The flags of the difference are the borrows of the digits.
  simp only [congrArg Flags.carry hf, congrArg Flags.halfCarry hf, hdifference] at ha hf'
  obtain ⟨hpacked, hvalue⟩ := corrected_difference hx hy hborrow ha
  refine ⟨⟨hpacked, ?_, ?_, ?_⟩, ?_⟩
  · rw [hf']; exact beq_iff_eq
  · rw [hf']
  · rw [hf']
  · rw [hf']; exact hvalue

end Arithmetic

/-! ## Numbers of any length -/

namespace Machine

variable {μ : Type} [Memory μ]

/-- The correction reads and writes the accumulator and the flags. -/
theorem carried_decimalAdjust (m : Machine μ) (operand : UInt16) :
    m.carried (.misc .decimalAdjust) operand =
      let (a, f) := Arithmetic.decimalAdjust m.cpu.a m.cpu.f
      { m with cpu := { m.cpu with a := a, f := f } } := rfl

/-- Loading the accumulator leaves the flags alone. -/
theorem carried_loadAccumulator (m : Machine μ) (x : UInt8) :
    m.carried (.load (.byte (.register .a))) x.toUInt16 =
      { m with cpu := { m.cpu with a := x } } := by
  show ({ m with cpu := { m.cpu with a := Word.low x.toUInt16 } } : Machine μ) = _
  simp [Word.low]

/-- The machine after an accumulator instruction and the correction of its result. -/
def adjusted (m : Machine μ) (op : AccumulatorOp) (source : Source) (operand : UInt16) : Machine μ :=
  (m.carried (.calculation (.accumulate op source)) operand).carried (.misc .decimalAdjust) 0

/-- A computation on two numbers, given as the pairs of their bytes from the lowest one up: the first
byte is loaded into the accumulator, an instruction combines it with the second one, and the result
is corrected.  The results are the machines after the corrections.  The bytes come from anywhere, and
anything can happen in between that keeps the carry. -/
inductive DecimalRounds (op : AccumulatorOp) :
    List (UInt8 × UInt8) → Machine μ → List (Machine μ) → Prop where
  | nil (m : Machine μ) : DecimalRounds op [] m []
  | cons {x y : UInt8} {rest : List (UInt8 × UInt8)} {m loaded : Machine μ} {source : Source}
      {operand : UInt16} {results : List (Machine μ)}
      (carry : loaded.cpu.f.carry = m.cpu.f.carry) (left : loaded.cpu.a = x)
      (right : loaded.sourceByte source operand = y)
      (later : DecimalRounds op rest (loaded.adjusted op source operand) results) :
      DecimalRounds op ((x, y) :: rest) m (loaded.adjusted op source operand :: results)

/-- The carry flag after some rounds. -/
def finalCarry (m : Machine μ) (results : List (Machine μ)) : Bool :=
  (results.getLastD m).cpu.f.carry

/-- Every two numbers can be given to the instructions as immediate bytes. -/
theorem exists_decimalRounds (op : AccumulatorOp) (pairs : List (UInt8 × UInt8)) (m : Machine μ) :
    ∃ results, DecimalRounds op pairs m results := by
  -- Over the pairs: the load keeps the carry, so the next round can begin at once.
  induction pairs generalizing m with
  | nil => exact ⟨[], .nil m⟩
  | cons pair rest ih =>
    obtain ⟨x, y⟩ := pair
    let loaded := m.carried (.load (.byte (.register .a))) x.toUInt16
    obtain ⟨results, hresults⟩ := ih (loaded.adjusted op .immediate y.toUInt16)
    have hloaded : loaded = { m with cpu := { m.cpu with a := x } } := m.carried_loadAccumulator x
    have hright : loaded.sourceByte .immediate y.toUInt16 = y := by
      show Word.low y.toUInt16 = y
      simp [Word.low]
    exact ⟨_, .cons (by rw [hloaded]) (by rw [hloaded]) hright hresults⟩

section Rounds

variable {m : Machine μ} {pairs : List (UInt8 × UInt8)} {results : List (Machine μ)}

/-- One round.  For a sum, what is carried belongs on the side of the result; for a difference, what is
borrowed belongs on the side of the first number. -/
theorem adjusted_balanced (subtract : Bool) (source : Source) (operand : UInt16)
    (hx : Packed m.cpu.a) (hy : Packed (m.sourceByte source operand)) :
    let result := m.adjusted (withCarry subtract) source operand
    Arithmetic.Adjusted subtract result.cpu.a result.cpu.f ∧
      Balanced subtract (packedValue result.cpu.a) (packedValue m.cpu.a)
        (packedValue (m.sourceByte source operand) + m.cpu.f.carry.toNat)
        (100 * result.cpu.f.carry.toNat) := by
  rw [adjusted, carried_accumulate, carried_decimalAdjust]
  cases subtract with
  | false =>
    obtain ⟨hadjusted, hvalue⟩ := Arithmetic.packed_add hx hy m.cpu.f.carry
    exact ⟨hadjusted, hvalue.trans (Nat.add_assoc ..)⟩
  | true =>
    obtain ⟨hadjusted, hvalue⟩ := Arithmetic.packed_sub hx hy m.cpu.f.carry
    exact ⟨hadjusted, (Nat.add_assoc ..).symm.trans hvalue⟩

/-- What the carry flag says after all rounds belongs above all digits. -/
theorem DecimalRounds.balanced (subtract : Bool)
    (h : DecimalRounds (withCarry subtract) pairs m results)
    (hpairs : ∀ pair ∈ pairs, Packed pair.1 ∧ Packed pair.2) :
    (∀ result ∈ results, Arithmetic.Adjusted subtract result.cpu.a result.cpu.f) ∧
      Balanced subtract (decimalValue (resultBytes results)) (decimalValue (pairs.map Prod.fst))
        (decimalValue (pairs.map Prod.snd) + m.cpu.f.carry.toNat)
        (100 ^ pairs.length * (finalCarry m results).toNat) := by
  -- Over the rounds, from the lowest two digits up.
  induction h with
  | nil m =>
    refine ⟨List.forall_mem_nil _, ?_⟩
    cases subtract <;> simp [Balanced, resultBytes, decimalValue, finalCarry]
  | @cons x y rest m loaded source operand results carry left right later ih =>
    rw [List.forall_mem_cons] at hpairs
    obtain ⟨hadjusted, hlater⟩ := ih hpairs.2
    obtain ⟨hfirst, hround⟩ := adjusted_balanced (m := loaded) subtract source operand
      (left.symm ▸ hpairs.1.1) (right.symm ▸ hpairs.1.2)
    refine ⟨List.forall_mem_cons.mpr ⟨hfirst, hadjusted⟩, ?_⟩
    -- The carry of the first round is the one that the later rounds start with.
    rw [left, right, carry] at hround
    simp only [resultBytes, finalCarry, List.map_cons, decimalValue, List.length_cons, Nat.pow_succ',
      List.getLastD_cons, Nat.mul_assoc] at hlater ⊢
    cases subtract <;> simp only [Balanced] at hround hlater ⊢ <;> omega

/-- Numbers of any length can be added and subtracted two digits at a time.  The results are digits,
and with the final carry above them they write the sum or the difference. -/
theorem decimal_arithmetic (m : Machine μ)
    (hpairs : ∀ pair ∈ pairs, Packed pair.1 ∧ Packed pair.2) :
    (∀ op, ∃ results, DecimalRounds op pairs m results) ∧
    (∀ results, DecimalRounds .adc pairs m results →
      (∀ result ∈ results, Arithmetic.Adjusted false result.cpu.a result.cpu.f) ∧
      decimalValue (resultBytes results) + 100 ^ pairs.length * (finalCarry m results).toNat =
        decimalValue (pairs.map Prod.fst) + decimalValue (pairs.map Prod.snd) +
          m.cpu.f.carry.toNat) ∧
    (∀ results, DecimalRounds .sbc pairs m results →
      (∀ result ∈ results, Arithmetic.Adjusted true result.cpu.a result.cpu.f) ∧
      (decimalValue (resultBytes results) : Int) =
        decimalValue (pairs.map Prod.fst) - decimalValue (pairs.map Prod.snd) -
          m.cpu.f.carry.toNat + 100 ^ pairs.length * (finalCarry m results).toNat) := by
  refine ⟨fun op => exists_decimalRounds op pairs m, fun results h => ?_, fun results h => ?_⟩
  · obtain ⟨hadjusted, hvalue⟩ := DecimalRounds.balanced false h hpairs
    exact ⟨hadjusted, hvalue.trans (Nat.add_assoc ..).symm⟩
  · obtain ⟨hadjusted, hvalue⟩ := DecimalRounds.balanced true h hpairs
    have hcast := congrArg (Nat.cast (R := Int)) hvalue
    push_cast at hcast
    exact ⟨hadjusted, by omega⟩

/-- Adding one to 9999 carries through both bytes and out of the upper one. -/
theorem decimal_arithmetic_overflow :
    (∀ pair ∈ [((0x99 : UInt8), (0x01 : UInt8)), (0x99, 0x00)], Packed pair.1 ∧ Packed pair.2) ∧
    ∃ results, DecimalRounds .adc [(0x99, 0x01), (0x99, 0x00)] (idling 0x100 0) results ∧
      decimalValue (resultBytes results) +
        10000 * (finalCarry (idling 0x100 0) results).toNat = 9999 + 1 := by
  have hpairs : ∀ pair ∈ [((0x99 : UInt8), (0x01 : UInt8)), (0x99, 0x00)],
      Packed pair.1 ∧ Packed pair.2 := by
    have h9901 : Packed 0x99 ∧ Packed 0x01 := by unfold Packed; decide
    have h9900 : Packed 0x99 ∧ Packed 0x00 := by unfold Packed; decide
    exact List.forall_mem_cons.mpr ⟨h9901, List.forall_mem_cons.mpr ⟨h9900, List.forall_mem_nil _⟩⟩
  obtain ⟨hexists, hadd, -⟩ := decimal_arithmetic (idling 0x100 0) hpairs
  obtain ⟨results, hresults⟩ := hexists .adc
  exact ⟨hpairs, results, hresults, (hadd results hresults).2⟩

end Rounds

end Machine

end GameBoy
