import Mathlib.Algebra.Group.Int.Defs
import Mathlib.Algebra.Group.Nat.Defs
import GameBoy.Proofs.Machine.Calculation

/-!
# Binary arithmetic

Numbers of any length are added and subtracted byte by byte, from the lowest byte up: `ADC` or `SBC`
combines two bytes, and the carry flag takes the carry on to the next two.  In between, a program loads
the bytes, stores the results, moves its pointers and counts; none of this touches the carry flag
(`Machine.carry_carried`).

`Machine.BinaryRounds` is such a computation.  One round puts the carry above the byte that it belongs
to (`CarriesOut.balanced`), and `BinaryRounds.balanced` says by induction what all rounds come to.
-/

namespace GameBoy

/-- The number that some bytes write, the lowest one first. -/
def binaryValue : List UInt8 → Nat
  | [] => 0
  | b :: rest => b.toNat + 256 * binaryValue rest

/-- A number of some bytes is less than the power of 256 that they make. -/
theorem binaryValue_lt (bytes : List UInt8) : binaryValue bytes < 256 ^ bytes.length := by
  induction bytes with
  | nil => exact Nat.one_pos
  | cons b rest ih =>
    have hb := b.toNat_lt
    rw [binaryValue, List.length_cons, Nat.pow_succ']
    omega

/-! ## Instructions that keep the carry -/

/-- Whether an instruction leaves the carry flag as it is.  Among the loads the exceptions are the one
that adds to the stack pointer and the one that takes the flags from the stack. -/
def Instruction.keepsCarry : Instruction → Bool
  | load op => op ≠ .stackOffset ∧ op ≠ .pop .af
  | control _ | jump _ | bit _ | extend => true
  | calculation op =>
    match op with
    | .increment _ | .decrement _ | .incrementWord _ | .decrementWord _ => true
    | .accumulate .. | .addWord _ | .addStackPointer => false
  | shift _ => false
  | misc op => op = .complement ∨ op = .disableInterrupts ∨ op = .enableInterrupts

namespace Cpu

/-- F is no register that a byte can be put into. -/
@[simp] theorem f_setRegister (cpu : Cpu) (r : Register) (value : UInt8) :
    (cpu.setRegister r value).f = cpu.f := by
  cases r <;> rfl

/-- F is no part of the word registers. -/
@[simp] theorem f_setWordRegister (cpu : Cpu) (r : WordRegister) (w : UInt16) :
    (cpu.setWordRegister r w).f = cpu.f := by
  cases r <;> rfl

/-- Of the pairs on the stack only AF includes the flags. -/
theorem f_setStackRegister (cpu : Cpu) {r : StackRegister} (hr : r ≠ .af) (w : UInt16) :
    (cpu.setStackRegister r w).f = cpu.f := by
  cases r <;> first | rfl | exact absurd rfl hr

end Cpu

namespace Execution

/-- A condition leaves the flags as it found them. -/
private theorem yields_whenHolds (condition : Option Condition) {action : Execution Unit} (cpu : Cpu)
    (h : (action.run cpu).Yields fun r => r.2.f = cpu.f) :
    ((whenHolds condition action).run cpu).Yields fun r => r.2.f = cpu.f := by
  cases condition with
  | none => exact h.bind fun r hr => hr
  | some c =>
    show ((if cpu.holds c then do action; return true else return false : Execution Bool).run
      cpu).Yields _
    cases cpu.holds c with
    | true => exact h.bind fun r hr => hr
    | false => rfl

/-- Jumps leave the flags as they are, taken or not. -/
private theorem yields_flags_jump (operand : UInt16) (op : Jump) (cpu : Cpu) :
    ((jump operand op).run cpu).Yields fun r => r.2.f = cpu.f := by
  cases op with
  | relative condition => exact yields_whenHolds condition cpu rfl
  | absolute condition => exact yields_whenHolds condition cpu rfl
  | toHL => rfl
  | call condition => exact yields_whenHolds condition cpu rfl
  | ret condition => exact yields_whenHolds condition cpu fun _ _ => rfl
  | retEnable => exact yields_whenHolds none cpu fun _ _ => rfl
  | restart vector => rfl

end Execution

namespace Machine

variable {μ : Type} [Memory μ]

/-- Two loads write the flags, and all others leave them alone. -/
theorem f_carried_load (m : Machine μ) {op : Load} (hoffset : op ≠ .stackOffset)
    (hpop : op ≠ .pop .af) (operand : UInt16) : (m.carried (.load op) operand).cpu.f = m.cpu.f := by
  cases op with
  | copy target source =>
    cases source <;> cases target <;> first | rfl | exact Cpu.f_setRegister ..
  | word target => exact Cpu.f_setWordRegister ..
  | byte target => cases target <;> first | rfl | exact Cpu.f_setRegister ..
  | accumulatorFrom pointer => cases pointer <;> rfl
  | accumulatorTo pointer => cases pointer <;> rfl
  | stackOffset => exact absurd rfl hoffset
  -- A pair that is popped may be AF, which has just been excluded.
  | pop target =>
    have htarget : target ≠ .af := fun h => hpop (congrArg _ h)
    exact Cpu.f_setStackRegister _ htarget _
  | _ => rfl

/-- No jump touches the flags. -/
theorem f_carried_jump (m : Machine μ) (op : Jump) (operand : UInt16) :
    (m.carried (.jump op) operand).cpu.f = m.cpu.f := by
  have h : ((Execution.execute (.jump op) operand).run m.cpu).Yields fun r => r.2.f = m.cpu.f := by
    refine (Execution.yields_flags_jump operand op m.cpu).bind fun r hr => ?_
    -- The cycles differ with the condition, and the flags do not.
    obtain ⟨taken, cpu⟩ := r
    cases taken <;> exact hr
  exact h.run Listener.deaf m.memory ()

/-- Testing a bit sets other flags, but not the carry. -/
theorem carry_carried_bit (m : Machine μ) (op : BitAccess) (operand : UInt16) :
    (m.carried (.bit op) operand).cpu.f.carry = m.cpu.f.carry := by
  obtain ⟨action, index, place⟩ := op
  cases action <;> cases place <;>
    first | rfl | exact congrArg Flags.carry (Cpu.f_setRegister ..)

/-- An instruction that keeps the carry does so on every machine. -/
theorem carry_carried {i : Instruction} (hi : i.keepsCarry = true) (m : Machine μ)
    (operand : UInt16) : (m.carried i operand).cpu.f.carry = m.cpu.f.carry := by
  cases i with
  | load op =>
    obtain ⟨hoffset, hpop⟩ := of_decide_eq_true hi
    rw [f_carried_load m hoffset hpop]
  | control op => cases op <;> rfl
  | jump op => rw [f_carried_jump]
  -- Of the calculations only the counting ones keep it.
  | calculation op =>
    cases op with
    | increment target => rw [carried_increment]; cases target <;> rfl
    | decrement target => rw [carried_decrement]; cases target <;> rfl
    | incrementWord target => rw [carried_incrementWord]; rfl
    | decrementWord target => rw [carried_decrementWord]; rfl
    | _ => cases hi
  | bit op => exact m.carry_carried_bit op operand
  | shift op => cases hi
  | misc op => cases op <;> first | rfl | cases hi
  | extend => rfl

/-! ## Rounds -/

/-- An instruction with an operand takes a machine to another one, by itself or in a step that fetches
both. -/
inductive CarriesOut (m : Machine μ) (i : Instruction) : UInt16 → Machine μ → Prop where
  | direct (operand : UInt16) : CarriesOut m i operand (m.carried i operand)
  | step (retires : m.retires = some i) :
      CarriesOut m i (m.operand i) (m.step Listener.deaf ()).2.1

/-- Instructions that take a machine to another one and do not change the carry on the way.  An
instruction that writes the carry flag counts as well if the flag stays the same. -/
inductive Bookkeeping : Machine μ → Machine μ → Prop where
  | nil (m : Machine μ) : Bookkeeping m m
  | cons {m next last : Machine μ} {i : Instruction} {operand : UInt16}
      (first : m.CarriesOut i operand next)
      (keeps : i.keepsCarry = true ∨ next.cpu.f.carry = m.cpu.f.carry)
      (later : Bookkeeping next last) : Bookkeeping m last

/-- A computation on two numbers, given as the pairs of their bytes from the lowest one up: in every
round the first byte gets into the accumulator, and an instruction combines it with the second one.
The results are the machines right after these instructions. -/
inductive BinaryRounds (op : AccumulatorOp) :
    List (UInt8 × UInt8) → Machine μ → List (Machine μ) → Machine μ → Prop where
  | nil {m last : Machine μ} (after : Bookkeeping m last) : BinaryRounds op [] m [] last
  | cons {x y : UInt8} {rest : List (UInt8 × UInt8)} {m loaded result last : Machine μ}
      {source : Source} {operand : UInt16} {results : List (Machine μ)}
      (before : Bookkeeping m loaded) (left : loaded.cpu.a = x)
      (right : loaded.operandByte operand source = y)
      (combined : loaded.CarriesOut (.calculation (.accumulate op source)) operand result)
      (later : BinaryRounds op rest result results last) :
      BinaryRounds op ((x, y) :: rest) m (result :: results) last

/-- The bytes that some rounds have produced, the lowest one first. -/
def resultBytes (results : List (Machine μ)) : List UInt8 := results.map fun result => result.cpu.a

/-- Every two numbers can be given to the instructions as immediate bytes. -/
theorem exists_binaryRounds (op : AccumulatorOp) (pairs : List (UInt8 × UInt8)) (m : Machine μ) :
    ∃ results last, BinaryRounds op pairs m results last := by
  -- Over the pairs: load the first byte, combine it with the second, and go on from there.
  induction pairs generalizing m with
  | nil => exact ⟨[], m, .nil (.nil m)⟩
  | cons pair rest ih =>
    obtain ⟨x, y⟩ := pair
    let loaded := m.carried (.load (.byte (.register .a))) x.toUInt16
    have hloaded : loaded.cpu.a = x := by
      show Word.low x.toUInt16 = x
      simp [Word.low]
    have hright : loaded.operandByte y.toUInt16 .immediate = y := by
      show Word.low y.toUInt16 = y
      simp [Word.low]
    obtain ⟨results, last, hlater⟩ :=
      ih (loaded.carried (.calculation (.accumulate op .immediate)) y.toUInt16)
    exact ⟨_, last, .cons (.cons (.direct _) (.inl rfl) (.nil _)) hloaded hright (.direct _) hlater⟩

/-- The instruction that adds or subtracts a byte together with the carry. -/
def withCarry (subtract : Bool) : AccumulatorOp := if subtract then .sbc else .adc

/-- A result with what is carried out of it is the sum of two amounts, or with the second amount it is
the first one and what is borrowed. -/
def Balanced (subtract : Bool) (result first second out : Nat) : Prop :=
  match subtract with
  | false => result + out = first + second
  | true => result + second = first + out

section Rounds

variable {m next last : Machine μ} {i : Instruction} {operand : UInt16}

/-- In a step an instruction finds the registers and the memory as they were before, and retiring does
not touch the accumulator and the flags. -/
theorem CarriesOut.exists_eq (h : m.CarriesOut i operand next) :
    ∃ before : Machine μ, (before = m ∨ before = m.past i) ∧
      next.cpu.a = (before.carried i operand).cpu.a ∧
      next.cpu.f = (before.carried i operand).cpu.f := by
  cases h with
  | direct => exact ⟨m, .inl rfl, rfl, rfl⟩
  | step hretires =>
    obtain ⟨cycles, hstep⟩ := machine_step_of_retires hretires Listener.deaf ()
    rw [hstep]
    exact ⟨m.past i, .inr rfl, rfl, rfl⟩

/-- An instruction that keeps the carry does so in a step as well. -/
theorem CarriesOut.carry (h : m.CarriesOut i operand next) (hi : i.keepsCarry = true) :
    next.cpu.f.carry = m.cpu.f.carry := by
  obtain ⟨before, hbefore, -, hf⟩ := h.exists_eq
  rw [hf, carry_carried hi]
  rcases hbefore with rfl | rfl <;> rfl

/-- What happens between the rounds keeps the carry. -/
theorem Bookkeeping.carry (h : Bookkeeping m last) : last.cpu.f.carry = m.cpu.f.carry := by
  induction h with
  | nil => rfl
  | cons first keeps later ih => exact ih.trans (keeps.elim first.carry id)

/-- One round.  For a sum, what is carried belongs on the side of the result; for a difference, what is
borrowed belongs on the side of the first number. -/
theorem CarriesOut.balanced (subtract : Bool) {source : Source}
    (h : m.CarriesOut (.calculation (.accumulate (withCarry subtract) source)) operand next) :
    Balanced subtract next.cpu.a.toNat m.cpu.a.toNat
      ((m.operandByte operand source).toNat + m.cpu.f.carry.toNat) (256 * next.cpu.f.carry.toNat) := by
  have hcarry := m.cpu.f.carry.toNat_le
  obtain ⟨before, hbefore, ha, hf⟩ := h.exists_eq
  have hread : before.cpu.a = m.cpu.a ∧ before.cpu.f = m.cpu.f ∧
      before.operandByte operand source = m.operandByte operand source := by
    rcases hbefore with rfl | rfl
    · exact ⟨rfl, rfl, rfl⟩
    · exact ⟨rfl, rfl, operandByte_past ..⟩
  obtain ⟨hreada, hreadf, hreadb⟩ := hread
  rw [ha, hf, carried_accumulate, sourceByte_eq, hreada, hreadf, hreadb]
  -- The law of the arithmetic unit, with the carry moved to the second amount.
  cases subtract with
  | false => exact ((Arithmetic.isSum_add _ _ _).balanced hcarry).trans (Nat.add_assoc ..)
  | true => exact (Nat.add_assoc ..).symm.trans ((Arithmetic.isDifference_sub _ _ _).balanced hcarry)

variable {pairs : List (UInt8 × UInt8)} {results : List (Machine μ)}

/-- There is a result for every pair. -/
theorem BinaryRounds.length_eq {op : AccumulatorOp} (h : BinaryRounds op pairs m results last) :
    results.length = pairs.length := by
  induction h with
  | nil => rfl
  | cons before left right combined later ih => exact congrArg Nat.succ ih

/-- What the carry flag says after all rounds belongs above all bytes. -/
theorem BinaryRounds.balanced (subtract : Bool)
    (h : BinaryRounds (withCarry subtract) pairs m results last) :
    Balanced subtract (binaryValue (resultBytes results)) (binaryValue (pairs.map Prod.fst))
      (binaryValue (pairs.map Prod.snd) + m.cpu.f.carry.toNat)
      (256 ^ pairs.length * last.cpu.f.carry.toNat) := by
  -- Over the rounds, from the lowest byte up: each leaves its carry to the rest.
  induction h with
  | nil after =>
    rw [after.carry]
    cases subtract <;> simp [Balanced, resultBytes, binaryValue]
  | cons before left right combined later ih =>
    have hround := combined.balanced subtract
    -- The carry of this round is the one that the later rounds start with.
    rw [left, right, before.carry] at hround
    simp only [resultBytes, List.map_cons, binaryValue, List.length_cons, Nat.pow_succ',
      Nat.mul_assoc] at ih ⊢
    cases subtract <;> simp only [Balanced] at hround ih ⊢ <;> omega

/-- The borrow of a whole subtraction tells which of the numbers is greater. -/
theorem BinaryRounds.carry_iff (h : BinaryRounds .sbc pairs m results last) :
    last.cpu.f.carry = true ↔
      binaryValue (pairs.map Prod.fst) < binaryValue (pairs.map Prod.snd) + m.cpu.f.carry.toNat := by
  have hvalue : _ + _ = _ + _ := BinaryRounds.balanced true h
  have hlength : (resultBytes results).length = pairs.length :=
    (List.length_map _).trans h.length_eq
  have hlt := binaryValue_lt (resultBytes results)
  rw [hlength] at hlt
  -- The result is less than the power above all bytes, so the borrow is decided by the sign of the
  -- difference.
  cases hcarry : last.cpu.f.carry with
  | true =>
    rw [hcarry, Bool.toNat_true] at hvalue
    simp only [true_iff]
    omega
  | false =>
    rw [hcarry, Bool.toNat_false] at hvalue
    simp only [Bool.false_eq_true, false_iff]
    omega

/-- Numbers of any length can be added and subtracted byte by byte, with any bookkeeping in between.
With the final carry above them the results write the sum or the difference, and without an initial
borrow the final one says that the first number is less than the second. -/
theorem binary_arithmetic (m : Machine μ) (pairs : List (UInt8 × UInt8)) :
    (∀ op, ∃ results last, BinaryRounds op pairs m results last) ∧
    (∀ results last, BinaryRounds .adc pairs m results last →
      results.length = pairs.length ∧
      binaryValue (resultBytes results) + 256 ^ pairs.length * last.cpu.f.carry.toNat =
        binaryValue (pairs.map Prod.fst) + binaryValue (pairs.map Prod.snd) +
          m.cpu.f.carry.toNat) ∧
    (∀ results last, BinaryRounds .sbc pairs m results last →
      results.length = pairs.length ∧
      (binaryValue (resultBytes results) : Int) =
        binaryValue (pairs.map Prod.fst) - binaryValue (pairs.map Prod.snd) -
          m.cpu.f.carry.toNat + 256 ^ pairs.length * last.cpu.f.carry.toNat ∧
      (m.cpu.f.carry = false → (last.cpu.f.carry = true ↔
        binaryValue (pairs.map Prod.fst) < binaryValue (pairs.map Prod.snd)))) := by
  refine ⟨fun op => exists_binaryRounds op pairs m, fun results last h => ⟨h.length_eq, ?_⟩,
    fun results last h => ⟨h.length_eq, ?_, fun hstart => ?_⟩⟩
  · exact (BinaryRounds.balanced false h).trans (Nat.add_assoc ..).symm
  · have hvalue : _ + _ = _ + _ := BinaryRounds.balanced true h
    -- In natural numbers the difference may be cut off, so the balance is taken to the integers.
    have hcast := congrArg (Nat.cast (R := Int)) hvalue
    simp only [Int.natCast_add, Int.natCast_mul, Int.natCast_pow, Int.cast_ofNat_Int] at hcast
    omega
  · have hiff := h.carry_iff
    rwa [hstart] at hiff

/-- Adding one to 65535, with the results stored through a pointer and a loop counter. -/
theorem binary_arithmetic_overflow : ∃ results last,
    BinaryRounds .adc [(0xFF, 0x01), (0xFF, 0x00)] (idling 0x100 0) results last ∧
    binaryValue (resultBytes results) + 65536 * last.cpu.f.carry.toNat = 65535 + 1 := by
  let loadFirst : Instruction := .load (.byte (.register .a))
  let addSecond : Instruction := .calculation (.accumulate .adc .immediate)
  let store : Instruction := .load (.accumulatorTo .hlIncrement)
  let countDown : Instruction := .calculation (.decrement (.register .b))
  have hchain : ∃ results last,
      BinaryRounds .adc [(0xFF, 0x01), (0xFF, 0x00)] (idling 0x100 0) results last :=
    ⟨_, _, .cons (.cons (.direct (i := loadFirst) 0xFF) (.inl rfl) (.nil _)) rfl rfl
      (.direct (i := addSecond) 0x01)
      (.cons (.cons (.direct (i := store) 0) (.inl rfl)
          (.cons (.direct (i := countDown) 0) (.inl rfl)
            (.cons (.direct (i := loadFirst) 0xFF) (.inl rfl) (.nil _))))
        rfl rfl (.direct (i := addSecond) 0x00)
        (.nil (.cons (.direct (i := store) 0) (.inl rfl) (.nil _))))⟩
  obtain ⟨results, last, hrounds⟩ := hchain
  obtain ⟨-, hadd, -⟩ :=
    binary_arithmetic (idling 0x100 0) [((0xFF : UInt8), (0x01 : UInt8)), (0xFF, 0x00)]
  exact ⟨results, last, hrounds, (hadd results last hrounds).2⟩

end Rounds

end Machine

end GameBoy
