import GameBoy.Proofs.Machine.Footprint

/-!
# Where an operand stands

Many instructions work on a byte in a register as well as on the byte that HL points to, and the
accumulator instructions also on an immediate one.  What they make of the byte depends on the byte
alone: `Machine.place_independent` says that an instruction does the same for equal operands wherever
they stand, and only takes less time for a register.
-/

namespace GameBoy

/-- An instruction that changes the byte at a place. -/
inductive Modification where
  | increment
  | decrement
  | reset (index : UInt8)
  | set (index : UInt8)
  | shift (op : ShiftOp)
  deriving DecidableEq, Repr

namespace Modification

/-- The instruction that makes a modification at a place. -/
def on (place : Place) : Modification → Instruction
  | increment => .calculation (.increment place)
  | decrement => .calculation (.decrement place)
  | reset index => .bit ⟨.reset, index, place⟩
  | set index => .bit ⟨.set, index, place⟩
  | shift op => .shift ⟨op, place⟩

/-- The new byte and the flags that a modification makes of a byte and the flags before. -/
def outcome (b : UInt8) (f : Flags) : Modification → UInt8 × Flags
  | increment => Arithmetic.increment b f
  | decrement => Arithmetic.decrement b f
  | reset index => (b &&& ~~~(1 <<< index), f)
  | set index => (b ||| (1 <<< index), f)
  | shift op =>
    let (result, out) := Execution.shiftByte op f.carry b
    (result, .ofShift (result == 0) out)

/-- What a modification costs; at HL it reads and writes memory. -/
def cycles (place : Place) : Modification → UInt8
  | increment | decrement => place.cost 4 12
  | reset _ | set _ | shift _ => place.cost 8 16

end Modification

namespace Machine

variable {μ : Type} [Memory μ]

/-- An instruction turns a machine into another one, issues some writes on the way, and takes some
clock cycles. -/
structure Leaves (m : Machine μ) (i : Instruction) (operand : UInt16) (next : Machine μ)
    (writes : List (UInt16 × UInt8)) (cycles : UInt8) : Prop where
  carried : m.carried i operand = next
  writes : m.writes i operand = writes
  cycles : (m.perform (Execution.execute i operand) Listener.deaf ()).1 = cycles

/-- An accumulator instruction writes nothing, and its operand counts by its value. -/
theorem leaves_accumulate (m : Machine μ) (op : AccumulatorOp) (source : Source)
    (operand : UInt16) :
    m.Leaves (.calculation (.accumulate op source)) operand
      (m.withAccumulator
        (Execution.accumulate op m.cpu.a (m.operandByte operand source) m.cpu.f.carry))
      [] (Calculation.accumulate op source).cycles where
  carried := by
    rw [carried_accumulate, sourceByte_eq]
    rfl
  writes := m.writes_eq ..
  cycles := by
    cases source with
    | place p => cases p <;> rfl
    | immediate => rfl

/-- A modification replaces the byte at its place by what it makes of it. -/
theorem leaves_modification (m : Machine μ) (modification : Modification) (place : Place)
    (operand : UInt16) :
    let outcome := modification.outcome (m.placeByte place) m.cpu.f
    m.Leaves (modification.on place) operand (m.withPlace place outcome)
      (m.storeAt place outcome.1).writes (modification.cycles place) where
  carried := by
    -- The carried machine of each family has been computed with its own instructions.
    cases modification with
    | increment => exact m.carried_increment place operand
    | decrement => exact m.carried_decrement place operand
    | reset index => exact m.carried_bit_reset index place operand
    | set index => exact m.carried_bit_set index place operand
    | shift op => exact m.carried_shift op place operand
  writes := by
    rw [writes_eq]
    -- The store of each modification is that of its outcome.
    cases modification <;> rfl
  cycles := by cases modification <;> cases place <;> rfl

/-- A test of a bit leaves everything but the flags. -/
theorem leaves_test (m : Machine μ) (index : UInt8) (place : Place) (operand : UInt16) :
    let f := { m.cpu.f with
      zero := !Byte.bit index (m.placeByte place), subtract := false, halfCarry := true }
    m.Leaves (.bit ⟨.test, index, place⟩) operand { m with cpu := { m.cpu with f := f } } []
      (place.cost 8 12) where
  carried := m.carried_bit_test index place operand
  writes := m.writes_eq ..
  cycles := by cases place <;> rfl

/-- An instruction makes the same of the byte in a register and of an equal byte that HL points to,
and an accumulator instruction makes the same of an equal immediate byte. -/
theorem place_independent (m : Machine μ) {r : Register}
    (hr : m.cpu.register r = Memory.read m.memory m.cpu.hl) :
    (∀ op, ∃ cpu : Cpu,
      (∀ operand, m.Leaves (.calculation (.accumulate op (.place (.register r)))) operand
        ⟨cpu, m.memory⟩ [] 4) ∧
      (∀ operand, m.Leaves (.calculation (.accumulate op (.place .atHL))) operand
        ⟨cpu, m.memory⟩ [] 8) ∧
      (∀ operand, Word.low operand = m.cpu.register r →
        m.Leaves (.calculation (.accumulate op .immediate)) operand ⟨cpu, m.memory⟩ [] 8)) ∧
    (∀ modification : Modification,
      let (b, f) := modification.outcome (m.cpu.register r) m.cpu.f
      ∀ operand,
        m.Leaves (modification.on (.register r)) operand
          ⟨{ m.cpu.setRegister r b with f := f }, m.memory⟩ [] (modification.cycles (.register r)) ∧
        m.Leaves (modification.on .atHL) operand
          ⟨{ m.cpu with f := f }, Memory.write m.memory m.cpu.hl b⟩ [(m.cpu.hl, b)]
          (modification.cycles .atHL)) ∧
    (∀ index, ∃ f, ∀ operand,
      m.Leaves (.bit ⟨.test, index, .register r⟩) operand ⟨{ m.cpu with f := f }, m.memory⟩ [] 8 ∧
      m.Leaves (.bit ⟨.test, index, .atHL⟩) operand ⟨{ m.cpu with f := f }, m.memory⟩ [] 12) := by
  -- The byte at HL equals that in the register, so both forms compute from the same byte.
  have hsame : m.placeByte .atHL = m.placeByte (.register r) := hr.symm
  refine ⟨fun op => ?_, fun modification operand => ⟨?_, ?_⟩, fun index => ?_⟩
  -- The three forms have one outcome, so one processor stands for them all.
  · let outcome := Execution.accumulate op m.cpu.a (m.cpu.register r) m.cpu.f.carry
    refine ⟨(m.withAccumulator outcome).cpu, fun operand => ?_, fun operand => ?_,
      fun operand hoperand => ?_⟩
    · exact m.leaves_accumulate op (.place (.register r)) operand
    · have hleaves := m.leaves_accumulate op (.place .atHL) operand
      rwa [operandByte, hsame] at hleaves
    · have hleaves := m.leaves_accumulate op .immediate operand
      rwa [operandByte, hoperand] at hleaves
  · exact m.leaves_modification modification (.register r) operand
  · have hleaves := m.leaves_modification modification .atHL operand
    rwa [hsame] at hleaves
  -- The flags are those that the test of the register leaves.
  · refine ⟨_, fun operand => ⟨m.leaves_test index (.register r) operand, ?_⟩⟩
    have hleaves := m.leaves_test index .atHL operand
    rwa [hsame] at hleaves

/-- A machine with HL pointing to a byte that equals H. -/
def selfLike : Machine FlatMemory where
  cpu := Cpu.initial.setHL 0x3456
  memory := Memory.write (.ofCells (.zero _)) 0x3456 0x34

/-- Counting up makes the same of H and of the byte that HL points to. -/
theorem place_independent_selfLike :
    selfLike.cpu.register .h = Memory.read selfLike.memory selfLike.cpu.hl ∧
    (selfLike.carried (.calculation (.increment (.register .h))) 0).cpu.h = 0x35 ∧
    Memory.read (selfLike.carried (.calculation (.increment .atHL)) 0).memory 0x3456 = 0x35 := by
  have hbyte : selfLike.cpu.register .h = Memory.read selfLike.memory selfLike.cpu.hl := by
    rw [selfLike, Cpu.hl_setHL, FlatMemory.read_write, if_pos rfl]
    rfl
  obtain ⟨-, hmodify, -⟩ := selfLike.place_independent hbyte
  obtain ⟨hregister, hmemory⟩ := hmodify .increment 0
  refine ⟨hbyte, ?_, ?_⟩
  · exact congrArg (fun m => m.cpu.h) hregister.carried
  · have hhl : selfLike.cpu.hl = 0x3456 := Cpu.hl_setHL ..
    have hcarried := congrArg Machine.memory hmemory.carried
    rw [Modification.on, hhl] at hcarried
    rw [hcarried, FlatMemory.read_write, if_pos rfl]
    rfl

end Machine

end GameBoy
