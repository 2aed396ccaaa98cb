import GameBoy.Cpu.State
import GameBoy.Transaction

/-!
# Executing an instruction

`execute` carries out one instruction whose operand has already been fetched and past which the
program counter already stands.  It is a transaction with the processor as its state, so it says
which memory accesses an instruction makes, in which order, and how they and the registers depend on
each other.
-/

namespace GameBoy

/-- A computation on the processor that accesses memory. -/
abbrev Execution := StateT Cpu Transaction

namespace Execution

/-- Reads a byte of memory. -/
def readByte (addr : UInt16) : Execution UInt8 := (Transaction.readByte addr : Transaction _)

/-- Writes a byte to memory. -/
def writeByte (addr : UInt16) (value : UInt8) : Execution Unit :=
  (Transaction.writeByte addr value : Transaction _)

/-- Reads a word of memory. -/
def readWord (addr : UInt16) : Execution UInt16 := (Transaction.readWord addr : Transaction _)

/-- Writes a word to memory. -/
def writeWord (addr : UInt16) (value : UInt16) : Execution Unit :=
  (Transaction.writeWord addr value : Transaction _)

/-! ## Operands -/

/-- Reads a register or the byte that HL points to. -/
def readPlace : Place → Execution UInt8
  | .register r => return (← get).register r
  | .atHL => do readByte (← get).hl

/-- Writes a register or the byte that HL points to. -/
def writePlace (place : Place) (value : UInt8) : Execution Unit :=
  match place with
  | .register r => modify fun cpu => cpu.setRegister r value
  | .atHL => do writeByte (← get).hl value

/-- Puts the first part of what a function makes of the byte at a place back there and returns the
second part. -/
def exchangePlace {α : Type} (place : Place) (f : UInt8 → UInt8 × α) : Execution α :=
  match place with
  | .register r => modifyGet fun cpu =>
    let (value, result) := f (cpu.register r)
    (result, cpu.setRegister r value)
  | .atHL => do (Transaction.exchangeByte (← get).hl f : Transaction _)

/-- Puts what a function makes of the byte at a place back there and returns the new value. -/
def updatePlace (place : Place) (f : UInt8 → UInt8) : Execution UInt8 :=
  match place with
  | .register r => modifyGet fun cpu =>
    let value := f (cpu.register r)
    (value, cpu.setRegister r value)
  | .atHL => do (Transaction.updateByte (← get).hl f : Transaction _)

/-- An update is an exchange that returns what it puts back. -/
theorem updatePlace_eq (place : Place) (f : UInt8 → UInt8) :
    updatePlace place f = exchangePlace place fun b => (f b, f b) := by
  cases place <;> rfl

/-- The second operand of an accumulator instruction. -/
def readSource (immediate : UInt8) : Source → Execution UInt8
  | .place p => readPlace p
  | .immediate => return immediate

/-- The address in a pointer; HL moves on if the pointer says so. -/
def readPointer : Pointer → Execution UInt16
  | .bc => return (← get).bc
  | .de => return (← get).de
  | .hlIncrement => modifyGet fun cpu => (cpu.hl, cpu.setHL (cpu.hl + 1))
  | .hlDecrement => modifyGet fun cpu => (cpu.hl, cpu.setHL (cpu.hl - 1))

/-- Puts a byte into the accumulator. -/
def setAccumulator (value : UInt8) : Execution Unit := modify fun cpu => { cpu with a := value }

/-- Replaces the flags. -/
def setFlags (f : Flags) : Execution Unit := modify fun cpu => { cpu with f := f }

/-- Goes on at another address. -/
def setProgramCounter (addr : UInt16) : Execution Unit := modify fun cpu => { cpu with pc := addr }

/-! ## The stack -/

/-- Moves the stack pointer down by a word and stores the word there. -/
def push (value : UInt16) : Execution Unit := do
  -- The stack grows down, and the pointer stands on the last byte pushed.
  modify fun cpu => { cpu with sp := cpu.sp - 2 }
  writeWord (← get).sp value

/-- Takes the word at the stack pointer and moves the pointer up past it. -/
def pop : Execution UInt16 := do
  let value ← readWord (← get).sp
  modify fun cpu => { cpu with sp := cpu.sp + 2 }
  return value

/-! ## The families -/

/-- The last page of memory holds the device registers and the high RAM. -/
def highAddress (offset : UInt8) : UInt16 := Word.ofBytes 0xFF offset

/-- The stack pointer plus a signed byte, with its flags. -/
def offsetStackPointer (offset : UInt8) : Execution UInt16 :=
  modifyGet fun cpu =>
    let (value, f) := Arithmetic.addSigned cpu.sp offset
    (value, { cpu with f := f })

/-- Carries out an instruction that moves data. -/
def load (operand : UInt16) : Load → Execution Unit
  | .copy target source => do writePlace target (← readPlace source)
  | .word target => modify fun cpu => cpu.setWordRegister target operand
  | .byte target => writePlace target (Word.low operand)
  | .accumulatorFrom pointer => do setAccumulator (← readByte (← readPointer pointer))
  -- The pointer is read first: it may move HL, but never the accumulator.
  | .accumulatorTo pointer => do
    let addr ← readPointer pointer
    writeByte addr (← get).a
  | .storeStackPointer => do writeWord operand (← get).sp
  | .stackPointerFromHL => modify fun cpu => { cpu with sp := cpu.hl }
  | .stackOffset => do
    let value ← offsetStackPointer (Word.low operand)
    modify fun cpu => cpu.setHL value
  | .pop target => do
    let value ← pop
    modify fun cpu => cpu.setStackRegister target value
  | .push source => do push ((← get).stackRegister source)
  | .storeHigh => do writeByte (highAddress (Word.low operand)) (← get).a
  | .loadHigh => do setAccumulator (← readByte (highAddress (Word.low operand)))
  | .storeHighC => do writeByte (highAddress (← get).c) (← get).a
  | .loadHighC => do setAccumulator (← readByte (highAddress (← get).c))
  | .storeAbsolute => do writeByte operand (← get).a
  | .loadAbsolute => do setAccumulator (← readByte operand)

/-- Carries out an instruction that waits. -/
def control : Control → Execution Unit
  | .nop => return
  | .halt => modify fun cpu => { cpu with activity := .halted }
  | .stop => modify fun cpu => { cpu with activity := .stopped }

/-- Stores the address of the next instruction on the stack and goes on at another one. -/
def call (addr : UInt16) : Execution Unit := do
  push (← get).pc
  setProgramCounter addr

/-- Does something if a condition holds or if there is none; tells whether it did. -/
def whenHolds (condition : Option Condition) (action : Execution Unit) : Execution Bool := do
  match condition with
  | none =>
    action
    return true
  | some c =>
    if (← get).holds c then
      action
      return true
    else
      return false

/-- Tells whether the jump was taken. -/
def jump (operand : UInt16) : Jump → Execution Bool
  | .relative condition => whenHolds condition do
    setProgramCounter ((← get).pc + Word.signExtend (Word.low operand))
  | .absolute condition => whenHolds condition (setProgramCounter operand)
  | .toHL => whenHolds none do setProgramCounter (← get).hl
  | .call condition => whenHolds condition (call operand)
  -- A return that is not taken leaves the stack alone.
  | .ret condition => whenHolds condition do setProgramCounter (← pop)
  | .retEnable => whenHolds none do
    -- At once, unlike `enableInterrupts`, which takes effect an instruction later.
    modify fun cpu => { cpu with ime := true }
    setProgramCounter (← pop)
  | .restart vector => whenHolds none (call vector.toUInt16)

/-- The result and the flags of an accumulator operation; a comparison leaves the accumulator as it
is. -/
def accumulate (op : AccumulatorOp) (a b : UInt8) (carry : Bool) : UInt8 × Flags :=
  match op with
  | .add => Arithmetic.add a b false
  | .adc => Arithmetic.add a b carry
  | .sub => Arithmetic.sub a b false
  | .sbc => Arithmetic.sub a b carry
  | .and => Arithmetic.and a b
  | .xor => Arithmetic.xor a b
  | .or => Arithmetic.or a b
  -- A comparison is a subtraction of which only the flags are kept.
  | .cp => (a, (Arithmetic.sub a b false).2)

/-- Carries out an arithmetic instruction. -/
def calculation (operand : UInt16) : Calculation → Execution Unit
  | .accumulate op source => do
    let b ← readSource (Word.low operand) source
    modify fun cpu =>
      let (a, f) := accumulate op cpu.a b cpu.f.carry
      { cpu with a := a, f := f }
  | .increment target => do
    -- Counting keeps the carry, so the flags from before are needed.
    let before := (← get).f
    setFlags (← exchangePlace target fun b => Arithmetic.increment b before)
  | .decrement target => do
    let before := (← get).f
    setFlags (← exchangePlace target fun b => Arithmetic.decrement b before)
  | .addWord source => modify fun cpu =>
    let (sum, f) := Arithmetic.addWords cpu.hl (cpu.wordRegister source) cpu.f
    { cpu.setHL sum with f := f }
  | .incrementWord target => modify fun cpu =>
    cpu.setWordRegister target (cpu.wordRegister target + 1)
  | .decrementWord target => modify fun cpu =>
    cpu.setWordRegister target (cpu.wordRegister target - 1)
  | .addStackPointer => do
    let value ← offsetStackPointer (Word.low operand)
    modify fun cpu => { cpu with sp := value }

/-- Carries out an access to a bit. -/
def bit (i : BitAccess) : Execution Unit :=
  match i.action with
  | .test => do
    let b ← readPlace i.place
    modify fun cpu =>
      let f := { cpu.f with zero := !Byte.bit i.index b, subtract := false, halfCarry := true }
      { cpu with f := f }
  | .reset => do
    let _ ← updatePlace i.place fun b => b &&& ~~~(1 <<< i.index)
    return
  | .set => do
    let _ ← updatePlace i.place fun b => b ||| (1 <<< i.index)
    return

/-- The shifted byte and the bit that was pushed out. -/
def shiftByte (op : ShiftOp) (carry : Bool) (b : UInt8) : UInt8 × Bool :=
  match op with
  | .rotate .left => (Byte.rotateLeft b, Byte.bit 7 b)
  | .rotate .right => (Byte.rotateRight b, Byte.bit 0 b)
  | .rotate .leftThroughCarry => ((b <<< 1) ||| carry.toUInt8, Byte.bit 7 b)
  | .rotate .rightThroughCarry => ((b >>> 1) ||| (carry.toUInt8 <<< 7), Byte.bit 0 b)
  | .left => (b <<< 1, Byte.bit 7 b)
  | .rightSigned => ((b >>> 1) ||| (b &&& 0x80), Byte.bit 0 b)
  | .swap => (Byte.swapNibbles b, false)
  | .right => (b >>> 1, Byte.bit 0 b)

/-- Carries out a shift, which sets all flags. -/
def shift (i : Shift) : Execution Unit := do
  let carry := (← get).f.carry
  setFlags (← exchangePlace i.place fun b =>
    let (result, out) := shiftByte i.op carry b
    (result, Flags.ofShift (result == 0) out))

/-- Carries out an instruction without an operand. -/
def misc : Misc → Execution Unit
  | .decimalAdjust => modify fun cpu =>
    let (a, f) := Arithmetic.decimalAdjust cpu.a cpu.f
    { cpu with a := a, f := f }
  | .setCarry => modify fun cpu =>
    let f := { cpu.f with subtract := false, halfCarry := false, carry := true }
    { cpu with f := f }
  | .complement => modify fun cpu =>
    let f := { cpu.f with subtract := true, halfCarry := true }
    { cpu with a := ~~~cpu.a, f := f }
  | .complementCarry => modify fun cpu =>
    let f := { cpu.f with subtract := false, halfCarry := false, carry := !cpu.f.carry }
    { cpu with f := f }
  -- The switch does not move yet: it is armed, and moves when a later instruction retires.
  | .disableInterrupts => modify fun cpu => { cpu with imeSwitch := .arm false }
  | .enableInterrupts => modify fun cpu => { cpu with imeSwitch := .arm true }
  -- Unlike the shifts of any place, those of the accumulator never set the zero flag.
  | .rotate r => modify fun cpu =>
    let (a, out) := shiftByte (.rotate r) cpu.f.carry cpu.a
    { cpu with a := a, f := .ofShift false out }

/-- Carries out an instruction and returns the clock cycles that it takes. -/
def execute (i : Instruction) (operand : UInt16) : Execution UInt8 := do
  match i with
  | .load op =>
    load operand op
    return i.cycles
  | .control op =>
    control op
    return i.cycles
  | .jump op =>
    if ← jump operand op then
      return i.cycles + op.takenPenalty
    else
      return i.cycles
  | .calculation op =>
    calculation operand op
    return i.cycles
  | .bit op =>
    bit op
    return i.cycles
  | .shift op =>
    shift op
    return i.cycles
  | .misc op =>
    misc op
    return i.cycles
  -- The instruction behind the op code has already been looked up when an instruction executes.
  | .extend => return i.cycles

end Execution

end GameBoy
