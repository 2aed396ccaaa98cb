import GameBoy.Proofs.Cpu.Arithmetic
import GameBoy.Proofs.Machine.Pacing

/-!
# Calculations

`Machine.Calculates` says in integers what the arithmetic and logical instructions make of a machine,
with one rule for each operation.  Everything in a rule speaks of the machine as the instruction finds
it, so the operand is read before anything is written, also when it stands where the result goes; and
what a rule does not write stays as it is.

That the instructions follow the rules is `Machine.integer_arithmetic`.
-/

namespace GameBoy

/-- The instructions that use the arithmetic unit: the calculations, and the load of the stack pointer
plus a signed byte. -/
def Instruction.IsArithmetic : Instruction → Prop
  | calculation _ => True
  | load op => op = .stackOffset
  | _ => False

namespace Machine

variable {μ σ : Type} [Memory μ]

/-! ## Operands -/

/-- The byte at a place. -/
def placeByte (m : Machine μ) : Place → UInt8
  | .register r => m.cpu.register r
  | .atHL => Memory.read m.memory m.cpu.hl

/-- The second operand of an accumulator instruction. -/
def operandByte (m : Machine μ) (operand : UInt16) : Source → UInt8
  | .place p => m.placeByte p
  | .immediate => Word.low operand

/-- The byte that a source of an accumulator instruction stands for. -/
def sourceByte (m : Machine μ) (source : Source) (operand : UInt16) : UInt8 :=
  (m.perform (Execution.readSource (Word.low operand) source) Listener.deaf ()).1

/-- Reading a source gives the byte at its place, or the one in the code. -/
theorem sourceByte_eq (m : Machine μ) (source : Source) (operand : UInt16) :
    m.sourceByte source operand = m.operandByte operand source := by
  cases source with
  | place p => cases p <;> rfl
  | immediate => rfl

/-- An instruction in a step reads what it would read by itself. -/
theorem operandByte_past (m : Machine μ) (i : Instruction) (operand : UInt16) (source : Source) :
    (m.past i).operandByte operand source = m.operandByte operand source := by
  cases source with
  | place p =>
    cases p with
    -- No register depends on the program counter or on the countdown of the switch.
    | register r => cases r <;> rfl
    | atHL => rfl
  | immediate => rfl

/-! ## Results -/

/-- The machine with a new accumulator and new flags. -/
def withAccumulator (m : Machine μ) (outcome : UInt8 × Flags) : Machine μ :=
  { m with cpu := { m.cpu with a := outcome.1, f := outcome.2 } }

/-- The machine with a new byte at a place and new flags. -/
def withPlace (m : Machine μ) (place : Place) (outcome : UInt8 × Flags) : Machine μ :=
  match place with
  | .register r => { m with cpu := { m.cpu.setRegister r outcome.1 with f := outcome.2 } }
  | .atHL =>
    { cpu := { m.cpu with f := outcome.2 }, memory := Memory.write m.memory m.cpu.hl outcome.1 }

/-- The machine with a new word in a register and new flags. -/
def withWord (m : Machine μ) (target : WordRegister) (outcome : UInt16 × Flags) : Machine μ :=
  { m with cpu := { m.cpu.setWordRegister target outcome.1 with f := outcome.2 } }

/-- An accumulator instruction puts the outcome of its operation into A and F. -/
theorem carried_accumulate (m : Machine μ) (op : AccumulatorOp) (source : Source)
    (operand : UInt16) :
    m.carried (.calculation (.accumulate op source)) operand =
      let (a, f) := Execution.accumulate op m.cpu.a (m.sourceByte source operand) m.cpu.f.carry
      { m with cpu := { m.cpu with a := a, f := f } } := by
  -- Where the operand stands decides what is read, so each place is computed for itself.
  cases source with
  | place p => cases p <;> rfl
  | immediate => rfl

/-- Counting up replaces the byte at its place and sets the flags. -/
theorem carried_increment (m : Machine μ) (target : Place) (operand : UInt16) :
    m.carried (.calculation (.increment target)) operand =
      m.withPlace target (Arithmetic.increment (m.placeByte target) m.cpu.f) := by
  cases target with
  | register r => cases r <;> rfl
  | atHL => rfl

/-- Counting down replaces the byte at its place and sets the flags. -/
theorem carried_decrement (m : Machine μ) (target : Place) (operand : UInt16) :
    m.carried (.calculation (.decrement target)) operand =
      m.withPlace target (Arithmetic.decrement (m.placeByte target) m.cpu.f) := by
  cases target with
  | register r => cases r <;> rfl
  | atHL => rfl

/-- Adding a word changes HL and the flags. -/
theorem carried_addWord (m : Machine μ) (source : WordRegister) (operand : UInt16) :
    m.carried (.calculation (.addWord source)) operand =
      m.withWord .hl (Arithmetic.addWords m.cpu.hl (m.cpu.wordRegister source) m.cpu.f) := rfl

/-- Counting a word up leaves the flags alone. -/
theorem carried_incrementWord (m : Machine μ) (target : WordRegister) (operand : UInt16) :
    m.carried (.calculation (.incrementWord target)) operand =
      m.withWord target (m.cpu.wordRegister target + 1, m.cpu.f) := by
  cases target <;> rfl

/-- Counting a word down leaves the flags alone. -/
theorem carried_decrementWord (m : Machine μ) (target : WordRegister) (operand : UInt16) :
    m.carried (.calculation (.decrementWord target)) operand =
      m.withWord target (m.cpu.wordRegister target - 1, m.cpu.f) := by
  cases target <;> rfl

/-- The stack pointer is moved by a signed byte. -/
theorem carried_addStackPointer (m : Machine μ) (operand : UInt16) :
    m.carried (.calculation .addStackPointer) operand =
      m.withWord .sp (Arithmetic.addSigned m.cpu.sp (Word.low operand)) := rfl

/-- HL is set to the stack pointer moved by a signed byte. -/
theorem carried_stackOffset (m : Machine μ) (operand : UInt16) :
    m.carried (.load .stackOffset) operand =
      m.withWord .hl (Arithmetic.addSigned m.cpu.sp (Word.low operand)) := rfl

/-! ## Rules -/

open Arithmetic in
/-- What an arithmetic instruction makes of a machine. -/
inductive Calculates (m : Machine μ) (operand : UInt16) : Instruction → Machine μ → Prop where
  | add {source : Source} {outcome : UInt8 × Flags}
      (h : IsSum m.cpu.a (m.operandByte operand source) 0 outcome) :
      Calculates m operand (.calculation (.accumulate .add source)) (m.withAccumulator outcome)
  | adc {source : Source} {outcome : UInt8 × Flags}
      (h : IsSum m.cpu.a (m.operandByte operand source) m.cpu.f.carry.toNat outcome) :
      Calculates m operand (.calculation (.accumulate .adc source)) (m.withAccumulator outcome)
  | sub {source : Source} {outcome : UInt8 × Flags}
      (h : IsDifference m.cpu.a (m.operandByte operand source) 0 outcome) :
      Calculates m operand (.calculation (.accumulate .sub source)) (m.withAccumulator outcome)
  | sbc {source : Source} {outcome : UInt8 × Flags}
      (h : IsDifference m.cpu.a (m.operandByte operand source) m.cpu.f.carry.toNat outcome) :
      Calculates m operand (.calculation (.accumulate .sbc source)) (m.withAccumulator outcome)
  /-- The difference itself is lost. -/
  | cp {source : Source} {outcome : UInt8 × Flags}
      (h : IsDifference m.cpu.a (m.operandByte operand source) 0 outcome) :
      Calculates m operand (.calculation (.accumulate .cp source))
        (m.withAccumulator (m.cpu.a, outcome.2))
  | and {source : Source} {outcome : UInt8 × Flags}
      (h : IsBitwise Bool.and true m.cpu.a (m.operandByte operand source) outcome) :
      Calculates m operand (.calculation (.accumulate .and source)) (m.withAccumulator outcome)
  | or {source : Source} {outcome : UInt8 × Flags}
      (h : IsBitwise Bool.or false m.cpu.a (m.operandByte operand source) outcome) :
      Calculates m operand (.calculation (.accumulate .or source)) (m.withAccumulator outcome)
  | xor {source : Source} {outcome : UInt8 × Flags}
      (h : IsBitwise Bool.xor false m.cpu.a (m.operandByte operand source) outcome) :
      Calculates m operand (.calculation (.accumulate .xor source)) (m.withAccumulator outcome)
  | increment {target : Place} {outcome : UInt8 × Flags}
      (h : IsSuccessor (m.placeByte target) m.cpu.f outcome) :
      Calculates m operand (.calculation (.increment target)) (m.withPlace target outcome)
  | decrement {target : Place} {outcome : UInt8 × Flags}
      (h : IsPredecessor (m.placeByte target) m.cpu.f outcome) :
      Calculates m operand (.calculation (.decrement target)) (m.withPlace target outcome)
  | addWord {source : WordRegister} {outcome : UInt16 × Flags}
      (h : IsWordSum m.cpu.hl (m.cpu.wordRegister source) m.cpu.f outcome) :
      Calculates m operand (.calculation (.addWord source)) (m.withWord .hl outcome)
  /-- Counting words does not touch the flags. -/
  | incrementWord {target : WordRegister} {w : UInt16}
      (h : w.toNat = ((m.cpu.wordRegister target).toNat + 1) % 65536) :
      Calculates m operand (.calculation (.incrementWord target)) (m.withWord target (w, m.cpu.f))
  | decrementWord {target : WordRegister} {w : UInt16}
      (h : (w.toNat : Int) = ((m.cpu.wordRegister target).toNat - 1) % 65536) :
      Calculates m operand (.calculation (.decrementWord target)) (m.withWord target (w, m.cpu.f))
  | addStackPointer {outcome : UInt16 × Flags}
      (h : IsOffset m.cpu.sp (Word.low operand) outcome) :
      Calculates m operand (.calculation .addStackPointer) (m.withWord .sp outcome)
  | stackOffset {outcome : UInt16 × Flags}
      (h : IsOffset m.cpu.sp (Word.low operand) outcome) :
      Calculates m operand (.load .stackOffset) (m.withWord .hl outcome)

/-- Each accumulator operation follows its rule. -/
theorem calculates_accumulate (m : Machine μ) (operand : UInt16) (op : AccumulatorOp)
    (source : Source) :
    m.Calculates operand (.calculation (.accumulate op source))
      (m.carried (.calculation (.accumulate op source)) operand) := by
  -- The operation is seen to work on the operand of the rule.
  have hcarried : m.carried (.calculation (.accumulate op source)) operand =
      m.withAccumulator
        (Execution.accumulate op m.cpu.a (m.operandByte operand source) m.cpu.f.carry) := by
    rw [carried_accumulate, sourceByte_eq]
    rfl
  rw [hcarried]
  -- The operations without carry are those with a clear one.
  cases op with
  | add => exact .add (Arithmetic.isSum_add _ _ false)
  | adc => exact .adc (Arithmetic.isSum_add _ _ _)
  | sub => exact .sub (Arithmetic.isDifference_sub _ _ false)
  | sbc => exact .sbc (Arithmetic.isDifference_sub _ _ _)
  | cp => exact .cp (Arithmetic.isDifference_sub _ _ false)
  | and => exact .and (Arithmetic.isBitwise_and _ _)
  | or => exact .or (Arithmetic.isBitwise_or _ _)
  | xor => exact .xor (Arithmetic.isBitwise_xor _ _)

/-- Each calculation follows its rule. -/
theorem calculates_calculation (m : Machine μ) (operand : UInt16) (op : Calculation) :
    m.Calculates operand (.calculation op) (m.carried (.calculation op) operand) := by
  cases op with
  | accumulate op source => exact m.calculates_accumulate operand op source
  -- The other calculations have one form each, computed above, and one rule.
  | increment target =>
    rw [carried_increment]
    exact .increment (Arithmetic.isSuccessor_increment _ _)
  | decrement target =>
    rw [carried_decrement]
    exact .decrement (Arithmetic.isPredecessor_decrement _ _)
  | addWord source =>
    rw [carried_addWord]
    exact .addWord (Arithmetic.isWordSum_addWords _ _ _)
  | incrementWord target =>
    rw [carried_incrementWord]
    exact .incrementWord (UInt16.toNat_add _ 1)
  | decrementWord target =>
    have hlt := (m.cpu.wordRegister target).toNat_lt
    -- The only rule in integers for a word that can wrap around downwards.
    have hpredecessor : ((m.cpu.wordRegister target - 1).toNat : Int) =
        ((m.cpu.wordRegister target).toNat - 1) % 65536 := by
      rw [UInt16.toNat_sub]
      simp
      omega
    rw [carried_decrementWord]
    exact .decrementWord hpredecessor
  | addStackPointer =>
    rw [carried_addStackPointer]
    exact .addStackPointer (Arithmetic.isOffset_addSigned _ _)

/-- Each arithmetic instruction follows its rule, with any operand. -/
theorem calculates_carried (m : Machine μ) {i : Instruction} (hi : i.IsArithmetic)
    (operand : UInt16) : m.Calculates operand i (m.carried i operand) := by
  cases i with
  | calculation op => exact m.calculates_calculation operand op
  | load op =>
    obtain rfl : op = .stackOffset := hi
    rw [carried_stackOffset]
    exact .stackOffset (Arithmetic.isOffset_addSigned _ _)
  | _ => exact hi.elim

/-- The arithmetic instructions compute what integer arithmetic says, with any operand, and so does
every step in which one of them retires. -/
theorem integer_arithmetic {i : Instruction} (hi : i.IsArithmetic) (m : Machine μ) :
    (∀ operand, m.Calculates operand i (m.carried i operand)) ∧
    (m.retires = some i → ∀ (listener : Listener σ) (s : σ), ∃ m' cycles,
      (m.past i).Calculates (m.operand i) i m' ∧
      (m.step listener s).2.1 = { m' with cpu := (m'.cpu.spend cycles).retire }) := by
  refine ⟨m.calculates_carried hi, fun hretires listener s => ?_⟩
  -- In a step the program counter has gone past the instruction before it computes.
  obtain ⟨cycles, hstep⟩ := machine_step_of_retires hretires listener s
  exact ⟨_, cycles, (m.past i).calculates_carried hi (m.operand i), hstep⟩

/-- A machine about to increment the byte at HL, which is the op code of the increment itself. -/
def ownCode : Machine FlatMemory where
  cpu := Cpu.initial.setHL 0x100
  memory := Memory.write (.ofCells (.zero _)) 0x100 0x34

/-- A program increments its own op code, which it has fetched before. -/
theorem integer_arithmetic_ownCode :
    (Instruction.calculation (.increment .atHL)).IsArithmetic ∧
    ownCode.retires = some (.calculation (.increment .atHL)) ∧
    Memory.read (ownCode.step Listener.deaf ()).2.1.memory 0x100 = 0x35 := by
  have hread (addr : UInt16) :
      Memory.read ownCode.memory addr = if addr = 0x100 then 0x34 else 0 := by
    rw [ownCode, FlatMemory.read_write]
    exact congrArg (ite _ _) (Block.get_zero _)
  -- Nothing is requested, since the interrupt registers are cells with zero in them.
  have hduty : ownCode.duty = .execute := by
    have hactive : Memory.active ownCode.memory = 0 := by
      show Memory.read ownCode.memory _ &&& Memory.read ownCode.memory _ &&& _ = _
      rw [hread, hread]
      rfl
    rw [duty, hactive]
    rfl
  have hretires : ownCode.retires = some (.calculation (.increment .atHL)) := by
    rw [retires, hduty, fetched, hread, hread, Descriptor.select, Descriptor.primary_eq]
    rfl
  have harithmetic : (Instruction.calculation (.increment .atHL)).IsArithmetic := trivial
  obtain ⟨m', cycles, hcalculates, hstep⟩ :=
    (integer_arithmetic harithmetic ownCode).2 hretires Listener.deaf ()
  refine ⟨harithmetic, hretires, ?_⟩
  rw [hstep]
  -- The rule speaks of the byte as it was fetched, and the step writes its successor.
  cases hcalculates with
  | increment h =>
    have hbyte : (ownCode.past (.calculation (.increment .atHL))).placeByte .atHL = 0x34 :=
      hread 0x100
    have hvalue := h.value
    rw [hbyte] at hvalue
    show Memory.read (Memory.write ownCode.memory 0x100 _) 0x100 = _
    rw [FlatMemory.read_write, if_pos rfl]
    exact UInt8.toNat_inj.mp hvalue

end Machine

end GameBoy
