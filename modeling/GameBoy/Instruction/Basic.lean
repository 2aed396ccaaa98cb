import GameBoy.Instruction.Operand
import GameBoy.Numeral

/-!
# The instruction set

An instruction is data: a family, an operation of the family and its operands.  Immediate operands
are no part of it; they are read from the bytes that follow the op code.  For each family this file
gives the cost in clock cycles, the length in bytes, the mnemonic and the assembly text.

The cost of a conditional jump, call or return is that of the branch not being taken;
`Jump.takenPenalty` is what a taken one costs on top.
-/

namespace GameBoy

/-! ## Loads -/

/-- Instructions that move bytes and words. -/
inductive Load where
  | copy (target source : Place)
  | word (target : WordRegister)
  | byte (target : Place)
  | accumulatorFrom (pointer : Pointer)
  | accumulatorTo (pointer : Pointer)
  /-- Stores the stack pointer at an immediate address. -/
  | storeStackPointer
  | stackPointerFromHL
  /-- Loads HL with the stack pointer plus an immediate signed byte. -/
  | stackOffset
  | pop (target : StackRegister)
  | push (source : StackRegister)
  /-- Stores A in the last page of memory, at an immediate offset. -/
  | storeHigh
  | loadHigh
  /-- Stores A in the last page of memory, at the offset in C. -/
  | storeHighC
  | loadHighC
  | storeAbsolute
  | loadAbsolute
  deriving DecidableEq, Repr

namespace Load

/-- The clock cycles that a load takes; each byte of memory that it touches takes four. -/
def cycles : Load → UInt8
  -- One of the two places may be in memory, never both.
  | copy target source => max (target.cost 4 8) (source.cost 4 8)
  | word _ => 12
  | byte target => target.cost 8 12
  | accumulatorFrom _ | accumulatorTo _ => 8
  | storeStackPointer => 20
  | stackPointerFromHL => 8
  | stackOffset => 12
  | pop _ => 12
  | push _ => 16
  | storeHigh | loadHigh => 12
  | storeHighC | loadHighC => 8
  | storeAbsolute | loadAbsolute => 16

/-- The bytes that a load occupies. -/
def length : Load → UInt8
  | byte _ | stackOffset | storeHigh | loadHigh => 2
  | word _ | storeStackPointer | storeAbsolute | loadAbsolute => 3
  | _ => 1

/-- The mnemonic of a load. -/
def mnemonic : Load → String
  | pop _ => "POP"
  | push _ => "PUSH"
  | storeHigh | loadHigh | storeHighC | loadHighC => "LDH"
  | _ => "LD"

/-- A load as listings write it. -/
def text (i : Load) : String :=
  let operands : String :=
    match i with
    | copy target source => target.text ++ ", " ++ source.text
    | word target => target.text ++ ", n16"
    | byte target => target.text ++ ", n8"
    | accumulatorFrom pointer => "A, " ++ pointer.text
    | accumulatorTo pointer => pointer.text ++ ", A"
    | storeStackPointer => "(a16), SP"
    | stackPointerFromHL => "SP, HL"
    | stackOffset => "HL, SP + e8"
    | pop target => target.text
    | push source => source.text
    | storeHigh => "(a8), A"
    | loadHigh => "A, (a8)"
    | storeHighC => "(C), A"
    | loadHighC => "A, (C)"
    | storeAbsolute => "(a16), A"
    | loadAbsolute => "A, (a16)"
  i.mnemonic ++ " " ++ operands

end Load

/-! ## Control -/

/-- Instructions that change whether the processor runs. -/
inductive Control where
  | nop
  | halt
  /-- Followed by a padding byte. -/
  | stop
  deriving DecidableEq, Repr

namespace Control

/-- The clock cycles that it takes to start waiting. -/
def cycles : Control → UInt8
  | _ => 4

/-- The bytes that the instruction occupies. -/
def length : Control → UInt8
  | nop | halt => 1
  | stop => 2

/-- The mnemonic. -/
def mnemonic : Control → String
  | nop => "NOP"
  | halt => "HALT"
  | stop => "STOP"

end Control

/-! ## Jumps -/

/-- Instructions that change where the program goes on.  Those with an optional condition go on
with the next instruction if it fails. -/
inductive Jump where
  /-- Jumps by an immediate signed byte. -/
  | relative (condition : Option Condition)
  | absolute (condition : Option Condition)
  | toHL
  | call (condition : Option Condition)
  | ret (condition : Option Condition)
  /-- Returns and enables interrupts. -/
  | retEnable
  | restart (vector : UInt8)
  deriving DecidableEq, Repr

namespace Jump

/-- The clock cycles of a jump that is not taken, or of one that has no condition. -/
def cycles : Jump → UInt8
  | relative condition => if condition.isSome then 8 else 12
  | absolute condition => if condition.isSome then 12 else 16
  | toHL => 4
  | call condition => if condition.isSome then 12 else 24
  | ret condition => if condition.isSome then 8 else 16
  | retEnable => 16
  | restart _ => 16

/-- What a conditional instruction costs more when its condition holds. -/
def takenPenalty : Jump → UInt8
  | relative (some _) | absolute (some _) => 4
  | call (some _) | ret (some _) => 12
  | _ => 0

/-- The bytes that a jump occupies. -/
def length : Jump → UInt8
  | relative _ => 2
  | absolute _ | call _ => 3
  | toHL | ret _ | retEnable | restart _ => 1

/-- The mnemonic of a jump. -/
def mnemonic : Jump → String
  | relative _ => "JR"
  | absolute _ | toHL => "JP"
  | call _ => "CALL"
  | ret _ => "RET"
  | retEnable => "RETI"
  | restart _ => "RST"

/-- A jump as listings write it, with its condition in front. -/
def text (i : Jump) : String :=
  let conditional (condition : Option Condition) (operands : List String) : List String :=
    (condition.map Condition.text).toList ++ operands
  let operands : List String :=
    match i with
    | relative condition => conditional condition ["e8"]
    | absolute condition | call condition => conditional condition ["a16"]
    | ret condition => conditional condition []
    | toHL => ["HL"]
    | retEnable => []
    | restart vector => ["0x" ++ Numeral.hexByte vector]
  -- A jump without operands has nothing behind its mnemonic, not even a blank.
  " ".intercalate (i.mnemonic :: ([", ".intercalate operands].filter (· ≠ "")))

end Jump

/-! ## Calculations -/

/-- The operations that combine the accumulator with a second operand. -/
inductive AccumulatorOp where
  | add | adc | sub | sbc | and | xor | or
  /-- Subtracts for the flags alone. -/
  | cp
  deriving DecidableEq, Repr

namespace AccumulatorOp

/-- The mnemonic of an operation. -/
def mnemonic : AccumulatorOp → String
  | add => "ADD"
  | adc => "ADC"
  | sub => "SUB"
  | sbc => "SBC"
  | and => "AND"
  | xor => "XOR"
  | or => "OR"
  | cp => "CP"

/-- The operations in the order in which op codes number them. -/
def table : Vector AccumulatorOp 8 := #v[add, adc, sub, sbc, and, xor, or, cp]

/-- The operation that an op code means by a number. -/
def ofNumber (n : Fin 8) : AccumulatorOp := table.get n

end AccumulatorOp

/-- Arithmetic and logical instructions. -/
inductive Calculation where
  | accumulate (op : AccumulatorOp) (source : Source)
  | increment (target : Place)
  | decrement (target : Place)
  | addWord (source : WordRegister)
  | incrementWord (target : WordRegister)
  | decrementWord (target : WordRegister)
  /-- Adds an immediate signed byte to the stack pointer. -/
  | addStackPointer
  deriving DecidableEq, Repr

namespace Calculation

/-- The clock cycles of a calculation. -/
def cycles : Calculation → UInt8
  | accumulate _ (.place p) => p.cost 4 8
  | accumulate _ .immediate => 8
  | increment target | decrement target => target.cost 4 12
  | addWord _ | incrementWord _ | decrementWord _ => 8
  | addStackPointer => 16

/-- The bytes that a calculation occupies. -/
def length : Calculation → UInt8
  | accumulate _ .immediate | addStackPointer => 2
  | _ => 1

/-- The mnemonic of a calculation. -/
def mnemonic : Calculation → String
  | accumulate op _ => op.mnemonic
  | addWord _ | addStackPointer => "ADD"
  | increment _ | incrementWord _ => "INC"
  | decrement _ | decrementWord _ => "DEC"

/-- A calculation as listings write it. -/
def text (i : Calculation) : String :=
  let operands : String :=
    match i with
    | accumulate _ source => "A, " ++ source.text
    | increment target | decrement target => target.text
    | addWord source => "HL, " ++ source.text
    | incrementWord target | decrementWord target => target.text
    | addStackPointer => "SP, e8"
  i.mnemonic ++ " " ++ operands

end Calculation

/-! ## Bit access -/

/-- What is done to a single bit. -/
inductive BitAction where
  | test | reset | set
  deriving DecidableEq, Repr

/-- The mnemonic of what is done to a bit. -/
def BitAction.mnemonic : BitAction → String
  | test => "BIT"
  | reset => "RES"
  | set => "SET"

/-- An instruction on one bit of a byte. -/
structure BitAccess where
  action : BitAction
  /-- The number of the bit; op codes hold numbers below 8. -/
  index : UInt8
  place : Place
  deriving DecidableEq, Repr

namespace BitAccess

/-- The clock cycles of an access; a test does not write back and is faster. -/
def cycles (i : BitAccess) : UInt8 :=
  match i.action with
  | .test => i.place.cost 8 12
  | .reset | .set => i.place.cost 8 16

/-- The mnemonic of an access to a bit. -/
def mnemonic (i : BitAccess) : String := i.action.mnemonic

/-- An access as listings write it. -/
def text (i : BitAccess) : String :=
  i.mnemonic ++ " " ++ toString i.index.toNat ++ ", " ++ i.place.text

end BitAccess

/-! ## Shifts -/

/-- The rotations by one place: through the carry flag, or with a copy into it. -/
inductive Rotation where
  /-- To the left; bit 7 goes to bit 0 and to the carry flag. -/
  | left
  /-- To the right; bit 0 goes to bit 7 and to the carry flag. -/
  | right
  /-- To the left; the carry flag is the ninth bit. -/
  | leftThroughCarry
  /-- To the right; the carry flag is the ninth bit. -/
  | rightThroughCarry
  deriving DecidableEq, Repr

/-- The mnemonic of a rotation. -/
def Rotation.mnemonic : Rotation → String
  | left => "RLC"
  | right => "RRC"
  | leftThroughCarry => "RL"
  | rightThroughCarry => "RR"

/-- The operations that move the bits of a byte. -/
inductive ShiftOp where
  | rotate (r : Rotation)
  | left
  /-- To the right; bit 7, the sign, stays. -/
  | rightSigned
  /-- Exchanges the two halves. -/
  | swap
  | right
  deriving DecidableEq, Repr

namespace ShiftOp

/-- The mnemonic of a shift. -/
def mnemonic : ShiftOp → String
  | rotate r => r.mnemonic
  | left => "SLA"
  | rightSigned => "SRA"
  | swap => "SWAP"
  | right => "SRL"

/-- The operations in the order in which op codes number them. -/
def table : Vector ShiftOp 8 :=
  #v[rotate .left, rotate .right, rotate .leftThroughCarry, rotate .rightThroughCarry, left,
    rightSigned, swap, right]

/-- The shift that an op code means by a number. -/
def ofNumber (n : Fin 8) : ShiftOp := table.get n

end ShiftOp

/-- An instruction that shifts a byte. -/
structure Shift where
  op : ShiftOp
  place : Place
  deriving DecidableEq, Repr

namespace Shift

/-- The clock cycles of a shift. -/
def cycles (i : Shift) : UInt8 := i.place.cost 8 16

/-- The mnemonic of a shift and its place. -/
def mnemonic (i : Shift) : String := i.op.mnemonic

/-- A shift as listings write it. -/
def text (i : Shift) : String := i.mnemonic ++ " " ++ i.place.text

end Shift

/-! ## Instructions without operands -/

/-- Instructions on the accumulator, the flags and the interrupt switch. -/
inductive Misc where
  | decimalAdjust
  | setCarry
  | complement
  | complementCarry
  | disableInterrupts
  | enableInterrupts
  /-- Rotates the accumulator; the zero flag is cleared whatever the result. -/
  | rotate (r : Rotation)
  deriving DecidableEq, Repr

/-- The mnemonic. -/
def Misc.mnemonic : Misc → String
  | decimalAdjust => "DAA"
  | setCarry => "SCF"
  | complement => "CPL"
  | complementCarry => "CCF"
  | disableInterrupts => "DI"
  | enableInterrupts => "EI"
  | rotate r => r.mnemonic ++ "A"

/-! ## The whole set -/

/-- Every operation of the processor. -/
inductive Instruction where
  | load (op : Load)
  | control (op : Control)
  | jump (op : Jump)
  | calculation (op : Calculation)
  | bit (op : BitAccess)
  | shift (op : Shift)
  | misc (op : Misc)
  /-- The op code 0xCB: the next byte selects an instruction of the extended table. -/
  | extend
  deriving DecidableEq, Repr

/-- Where the operand of an instruction is found. -/
inductive AddressingMode where
  /-- It follows the op code. -/
  | immediate
  /-- Its address follows the op code. -/
  | absolute
  /-- There is none in memory. -/
  | implied
  deriving DecidableEq, Repr

/-- The name of an addressing mode. -/
def AddressingMode.name : AddressingMode → String
  | immediate => "Immediate"
  | absolute => "Absolute"
  | implied => "None"

namespace Instruction

/-- The clock cycles that the instruction takes, a taken branch apart. -/
def cycles : Instruction → UInt8
  | load op => op.cycles
  | control op => op.cycles
  | jump op => op.cycles
  | calculation op => op.cycles
  | bit op => op.cycles
  | shift op => op.cycles
  | misc _ | extend => 4

/-- The bytes that the instruction occupies, op codes and operands included. -/
def length : Instruction → UInt8
  | load op => op.length
  | control op => op.length
  | jump op => op.length
  | calculation op => op.length
  | bit _ | shift _ => 2
  | misc _ | extend => 1

/-- The mnemonic that traces show. -/
def mnemonic : Instruction → String
  | load op => op.mnemonic
  | control op => op.mnemonic
  | jump op => op.mnemonic
  | calculation op => op.mnemonic
  | bit op => op.mnemonic
  | shift op => op.mnemonic
  | misc op => op.mnemonic
  | extend => "PREFIX"

/-- An instruction as listings write it. -/
def text : Instruction → String
  | load op => op.text
  | control op => op.mnemonic
  | jump op => op.text
  | calculation op => op.text
  | bit op => op.text
  | shift op => op.text
  | misc op => op.mnemonic
  | extend => "PREFIX CB"

/-- The second byte of an extended instruction is its op code and no operand, so these
instructions have none. -/
def addressingMode : Instruction → AddressingMode
  | load .loadAbsolute | load .storeAbsolute => .absolute
  | bit _ | shift _ => .implied
  | i => if i.length > 1 then .immediate else .implied

/-- Whether the op code stands in the table behind the prefix. -/
def isExtended : Instruction → Bool
  | bit _ | shift _ => true
  | _ => false

end Instruction

end GameBoy
