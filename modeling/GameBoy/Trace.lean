import GameBoy.Instruction.Decode

/-!
# Execution traces

A trace has one line per executed instruction: the address and op code, the mnemonic, and the
registers and the cycle counter as they were right before the instruction.
-/

namespace GameBoy

/-- The word registers and the cycle counter at one moment. -/
structure RegisterDump where
  pc : UInt16
  sp : UInt16
  af : UInt16
  bc : UInt16
  de : UInt16
  hl : UInt16
  cycles : UInt64
  deriving DecidableEq

namespace RegisterDump

/-- The registers as the reports of the runner write them. -/
def text (d : RegisterDump) : String :=
  let field (name : String) (w : UInt16) : String := name ++ "=0x" ++ Numeral.hexWord w ++ " "
  field "PC" d.pc ++ field "SP" d.sp ++ field "AF" d.af ++ field "BC" d.bc ++ field "DE" d.de ++
    field "HL" d.hl ++ "cycles=" ++ toString d.cycles.toNat

/-- The trace line of the instruction about to execute.  An extended instruction shows both of its
op codes, so that it cannot be taken for the primary one with the same code. -/
def traceLine (d : RegisterDump) (next : Descriptor) : String :=
  let code := (if next.instruction.isExtended then "CB" else "") ++ Numeral.hexByte next.code
  let columns := [d.af, d.bc, d.de, d.hl].map Numeral.hexWord ++ [toString d.cycles.toNat]
  Numeral.hexWord d.pc ++ "  " ++ code ++ "\t" ++
    Numeral.padLeft 6 ' ' next.instruction.mnemonic ++ "\t" ++ " ".intercalate columns

end RegisterDump

end GameBoy
