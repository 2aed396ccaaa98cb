import GameBoy.Instruction.Basic

/-!
# Op codes

An op code is read as three octal fields: the quarter of the table that it lies in (two bits), its
row in the quarter and its column (three bits each).  In most columns the row or the column numbers
an operand or an operation.

`Descriptor.primary` and `Descriptor.extended` look the two tables up; `primary_eq` and
`extended_eq` say that they hold what decoding gives.
-/

namespace GameBoy

namespace Opcode

/-- The two highest bits. -/
def quarter (code : UInt8) : Fin 4 := Fin.ofNat 4 (code.toNat / 64)

/-- The three bits in the middle. -/
def row (code : UInt8) : Fin 8 := Fin.ofNat 8 (code.toNat / 8)

/-- The three lowest bits. -/
def column (code : UInt8) : Fin 8 := Fin.ofNat 8 code.toNat

end Opcode

namespace Instruction

/-- The first quarter: immediate loads, word arithmetic, increments and the accumulator rotations. -/
def decodeFirst (row column : Fin 8) : Instruction :=
  match column with
  -- Relative jumps, and what shares their column.
  | 0 =>
    match row with
    | 0 => control .nop
    | 1 => load .storeStackPointer
    | 2 => control .stop
    | 3 => jump (.relative none)
    | 4 => jump (.relative (some .notZero))
    | 5 => jump (.relative (some .zero))
    | 6 => jump (.relative (some .notCarry))
    | 7 => jump (.relative (some .carry))
  -- Words: a load and a sum for each of the four registers.
  | 1 =>
    match row with
    | 0 => load (.word .bc)
    | 1 => calculation (.addWord .bc)
    | 2 => load (.word .de)
    | 3 => calculation (.addWord .de)
    | 4 => load (.word .hl)
    | 5 => calculation (.addWord .hl)
    | 6 => load (.word .sp)
    | 7 => calculation (.addWord .sp)
  -- The accumulator and the pointers.
  | 2 =>
    match row with
    | 0 => load (.accumulatorTo .bc)
    | 1 => load (.accumulatorFrom .bc)
    | 2 => load (.accumulatorTo .de)
    | 3 => load (.accumulatorFrom .de)
    | 4 => load (.accumulatorTo .hlIncrement)
    | 5 => load (.accumulatorFrom .hlIncrement)
    | 6 => load (.accumulatorTo .hlDecrement)
    | 7 => load (.accumulatorFrom .hlDecrement)
  -- Counting words up and down, which leaves the flags alone.
  | 3 =>
    match row with
    | 0 => calculation (.incrementWord .bc)
    | 1 => calculation (.decrementWord .bc)
    | 2 => calculation (.incrementWord .de)
    | 3 => calculation (.decrementWord .de)
    | 4 => calculation (.incrementWord .hl)
    | 5 => calculation (.decrementWord .hl)
    | 6 => calculation (.incrementWord .sp)
    | 7 => calculation (.decrementWord .sp)
  | 4 => calculation (.increment (Place.ofNumber row))
  | 5 => calculation (.decrement (Place.ofNumber row))
  | 6 => load (.byte (Place.ofNumber row))
  -- The accumulator and the flags alone.
  | 7 =>
    match row with
    | 0 => misc (.rotate .left)
    | 1 => misc (.rotate .right)
    | 2 => misc (.rotate .leftThroughCarry)
    | 3 => misc (.rotate .rightThroughCarry)
    | 4 => misc .decimalAdjust
    | 5 => misc .complement
    | 6 => misc .setCarry
    | 7 => misc .complementCarry

/-- The second quarter: copies between places.  Copying the cell at HL to itself would do nothing,
so its op code halts the processor. -/
def decodeSecond (row column : Fin 8) : Instruction :=
  if row = 6 ∧ column = 6 then control .halt
  else load (.copy (Place.ofNumber row) (Place.ofNumber column))

/-- The last quarter: jumps, the stack, immediate accumulator operations, and eleven op codes without
meaning. -/
def decodeLast (row column : Fin 8) : Option Instruction :=
  match column with
  -- Returns, the last page, and the two sums with the stack pointer.
  | 0 =>
    match row with
    | 0 => jump (.ret (some .notZero))
    | 1 => jump (.ret (some .zero))
    | 2 => jump (.ret (some .notCarry))
    | 3 => jump (.ret (some .carry))
    | 4 => load .storeHigh
    | 5 => calculation .addStackPointer
    | 6 => load .loadHigh
    | 7 => load .stackOffset
  | 1 =>
    match row with
    | 0 => load (.pop .bc)
    | 1 => jump (.ret none)
    | 2 => load (.pop .de)
    | 3 => jump .retEnable
    | 4 => load (.pop .hl)
    | 5 => jump .toHL
    | 6 => load (.pop .af)
    | 7 => load .stackPointerFromHL
  -- Jumps, and the accumulator at an address.
  | 2 =>
    match row with
    | 0 => jump (.absolute (some .notZero))
    | 1 => jump (.absolute (some .zero))
    | 2 => jump (.absolute (some .notCarry))
    | 3 => jump (.absolute (some .carry))
    | 4 => load .storeHighC
    | 5 => load .storeAbsolute
    | 6 => load .loadHighC
    | 7 => load .loadAbsolute
  | 3 =>
    match row with
    | 0 => jump (.absolute none)
    -- The prefix of the other table.
    | 1 => extend
    | 6 => misc .disableInterrupts
    | 7 => misc .enableInterrupts
    | _ => none
  | 4 =>
    match row with
    | 0 => jump (.call (some .notZero))
    | 1 => jump (.call (some .zero))
    | 2 => jump (.call (some .notCarry))
    | 3 => jump (.call (some .carry))
    | _ => none
  | 5 =>
    match row with
    | 0 => load (.push .bc)
    | 1 => jump (.call none)
    | 2 => load (.push .de)
    | 4 => load (.push .hl)
    | 6 => load (.push .af)
    | _ => none
  | 6 => calculation (.accumulate (.ofNumber row) .immediate)
  | 7 => jump (.restart (8 * UInt8.ofNat row))

/-- The instruction with the given op code, if there is one. -/
def decode (code : UInt8) : Option Instruction :=
  let row := Opcode.row code
  let column := Opcode.column code
  match Opcode.quarter code with
  | 0 => decodeFirst row column
  | 1 => decodeSecond row column
  | 2 => calculation (.accumulate (.ofNumber row) (.place (Place.ofNumber column)))
  | 3 => decodeLast row column

/-- The instruction whose op code follows 0xCB; there is one for every byte. -/
def decodeExtended (code : UInt8) : Instruction :=
  let row := Opcode.row code
  let place := Place.ofNumber (Opcode.column code)
  let index := UInt8.ofNat row
  match Opcode.quarter code with
  | 0 => shift ⟨.ofNumber row, place⟩
  | 1 => bit ⟨.test, index, place⟩
  | 2 => bit ⟨.reset, index, place⟩
  | 3 => bit ⟨.set, index, place⟩

end Instruction

/-- An instruction together with its op code, which for an extended instruction is the byte after
0xCB. -/
structure Descriptor where
  code : UInt8
  instruction : Instruction
  deriving DecidableEq, Repr

namespace Descriptor

/-- An op code with its instruction, as listings write it. -/
def text (d : Descriptor) : String := "0x" ++ Numeral.hexByte d.code ++ " " ++ d.instruction.text

/-- The table of one-byte op codes. -/
def primaryTable : Vector (Option Descriptor) 256 :=
  Vector.ofFn fun i =>
    let code := UInt8.ofNat i
    (Instruction.decode code).map (Descriptor.mk code)

/-- The table of op codes that follow the prefix. -/
def extendedTable : Vector Descriptor 256 :=
  Vector.ofFn fun i =>
    let code := UInt8.ofNat i
    ⟨code, Instruction.decodeExtended code⟩

/-- Looks up a one-byte op code. -/
def primary (code : UInt8) : Option Descriptor :=
  have : code.toNat < 256 := code.toNat_lt
  primaryTable[code.toNat]

/-- Looks up an op code that follows the prefix. -/
def extended (code : UInt8) : Descriptor :=
  have : code.toNat < 256 := code.toNat_lt
  extendedTable[code.toNat]

/-- The first table holds what the op codes decode to. -/
theorem primary_eq (code : UInt8) :
    primary code = (Instruction.decode code).map (Descriptor.mk code) := by
  simp [primary, primaryTable]

/-- The other table holds what its op codes decode to. -/
theorem extended_eq (code : UInt8) : extended code = ⟨code, Instruction.decodeExtended code⟩ := by
  simp [extended, extendedTable]

end Descriptor

end GameBoy
