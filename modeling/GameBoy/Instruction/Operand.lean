/-!
# Operands

What an instruction works on: single registers, the byte that HL points to, an immediate byte, and
the register pairs.  Each kind of operand is written as in assembly listings by its `text`.
-/

namespace GameBoy

/-- The 8-bit registers that instructions name.  The flags are no operand of their own. -/
inductive Register where
  | a | b | c | d | e | h | l
  deriving DecidableEq, Repr

/-- The name of a register. -/
def Register.text : Register → String
  | a => "A"
  | b => "B"
  | c => "C"
  | d => "D"
  | e => "E"
  | h => "H"
  | l => "L"

/-- Where a byte operand lives. -/
inductive Place where
  | register (r : Register)
  /-- The memory cell that HL points to. -/
  | atHL
  deriving DecidableEq, Repr

namespace Place

/-- A place as listings write it. -/
def text : Place → String
  | register r => r.text
  | atHL => "(HL)"

/-- The places in the order in which op codes number them. -/
def table : Vector Place 8 :=
  #v[register .b, register .c, register .d, register .e, register .h, register .l, atHL,
    register .a]

/-- The place that an op code means by a number. -/
def ofNumber (n : Fin 8) : Place := table[n]

/-- `onRegister` for a register and `onMemory` for a memory cell. -/
def cost (onRegister onMemory : UInt8) : Place → UInt8
  | register _ => onRegister
  | atHL => onMemory

end Place

/-- The second operand of the accumulator instructions. -/
inductive Source where
  | place (p : Place)
  | immediate
  deriving DecidableEq, Repr

/-- An operand as listings write it; an immediate byte is not shown. -/
def Source.text : Source → String
  | place p => p.text
  | immediate => "n8"

/-- The 16-bit registers of loads and of word arithmetic. -/
inductive WordRegister where
  | bc | de | hl | sp
  deriving DecidableEq, Repr

/-- The name of a word register. -/
def WordRegister.text : WordRegister → String
  | bc => "BC"
  | de => "DE"
  | hl => "HL"
  | sp => "SP"

/-- The 16-bit registers that go to and from the stack. -/
inductive StackRegister where
  | bc | de | hl | af
  deriving DecidableEq, Repr

/-- The name of a register pair on the stack. -/
def StackRegister.text : StackRegister → String
  | bc => "BC"
  | de => "DE"
  | hl => "HL"
  | af => "AF"

/-- The register pairs that address memory for the accumulator. -/
inductive Pointer where
  | bc
  | de
  /-- HL, which is incremented afterwards. -/
  | hlIncrement
  /-- HL, which is decremented afterwards. -/
  | hlDecrement
  deriving DecidableEq, Repr

/-- A pointer as listings write it. -/
def Pointer.text : Pointer → String
  | bc => "(BC)"
  | de => "(DE)"
  | hlIncrement => "(HL+)"
  | hlDecrement => "(HL-)"

/-- What a conditional jump asks of the flags. -/
inductive Condition where
  | notZero | zero | notCarry | carry
  deriving DecidableEq, Repr

/-- A condition as listings write it. -/
def Condition.text : Condition → String
  | notZero => "NZ"
  | zero => "Z"
  | notCarry => "NC"
  | carry => "C"

end GameBoy
