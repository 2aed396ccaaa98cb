import GameBoy.Arithmetic
import GameBoy.Interrupt
import GameBoy.Trace

/-!
# The state of the processor

Seven 8-bit registers, the flags, the stack pointer and the program counter, the master switch of
the interrupts with its delayed changes, whether the processor runs, and the cycle counter.

Register pairs are read and written as words; `wordRegister`, `setWordRegister` and those for the
stack are inverse to each other, except that AF keeps only the wired half of the flags.
-/

namespace GameBoy

/-- Whether the processor runs. -/
inductive Activity where
  | running
  /-- Asleep until any source is active. -/
  | halted
  /-- Asleep until the joypad is active. -/
  | stopped
  deriving DecidableEq, Repr

namespace Activity

/-- The name of a state of activity in the log. -/
def name : Activity → String
  | running => "Running"
  | halted => "Halted"
  | stopped => "Stopped"

/-- Active sources wake the processor up: any source from a halt, only the joypad from a stop. -/
def wake (active : UInt8) : Activity → Activity
  | running => running
  | halted => if active != 0 then running else halted
  | stopped => if active &&& Interrupt.joypad.mask != 0 then running else stopped

end Activity

/-- A change of the master switch that the program has asked for but that has not happened yet. -/
inductive PendingSwitch where
  | idle
  /-- The switch takes the value `target` when `remaining` further instructions have retired and one
  more retires. -/
  | pending (target : Bool) (remaining : UInt8)
  deriving DecidableEq, Repr

namespace PendingSwitch

/-- A change that happens when the next instruction retires.  The instruction that arms it retires
first, so it counts one. -/
def arm (target : Bool) : PendingSwitch := pending target 1

/-- An instruction retires: the value that the switch takes now, if any, and what is still to
come. -/
def retire : PendingSwitch → Option Bool × PendingSwitch
  | idle => (none, idle)
  | pending target remaining =>
    -- The instruction that retires is the last one that the change has waited for.
    if remaining = 0 then (some target, idle) else (none, pending target (remaining - 1))

end PendingSwitch

/-- The processor. -/
structure Cpu where
  a : UInt8
  f : Flags
  b : UInt8
  c : UInt8
  d : UInt8
  e : UInt8
  h : UInt8
  l : UInt8
  sp : UInt16
  pc : UInt16
  /-- The master switch: interrupts are served only while it is on. -/
  ime : Bool
  imeSwitch : PendingSwitch
  activity : Activity
  /-- The clock cycles since the last reset. -/
  cycles : UInt64
  deriving DecidableEq

namespace Cpu

/-- The processor with everything cleared. -/
def zero : Cpu where
  a := 0
  f := .clear
  b := 0
  c := 0
  d := 0
  e := 0
  h := 0
  l := 0
  sp := 0
  pc := 0
  ime := false
  imeSwitch := .idle
  activity := .running
  cycles := 0

/-- The processor as a cartridge finds it: the program starts at 0x0100 and the stack grows down
from the end of memory. -/
def initial : Cpu := { zero with pc := 0x0100, sp := 0xFFFE }

/-! ## Registers by name -/

/-- The value of a register. -/
def register (cpu : Cpu) : Register → UInt8
  | .a => cpu.a
  | .b => cpu.b
  | .c => cpu.c
  | .d => cpu.d
  | .e => cpu.e
  | .h => cpu.h
  | .l => cpu.l

/-- Puts a value into a register. -/
def setRegister (cpu : Cpu) (r : Register) (value : UInt8) : Cpu :=
  match r with
  | .a => { cpu with a := value }
  | .b => { cpu with b := value }
  | .c => { cpu with c := value }
  | .d => { cpu with d := value }
  | .e => { cpu with e := value }
  | .h => { cpu with h := value }
  | .l => { cpu with l := value }

/-- A register holds what was put into it last, and no other register changes. -/
@[simp] theorem register_setRegister (cpu : Cpu) (r s : Register) (value : UInt8) :
    (cpu.setRegister r value).register s = if s = r then value else cpu.register s := by
  cases r <;> cases s <;> rfl

/-- The accumulator above the flags. -/
def af (cpu : Cpu) : UInt16 := Word.ofBytes cpu.a cpu.f.toByte

/-- B above C. -/
def bc (cpu : Cpu) : UInt16 := Word.ofBytes cpu.b cpu.c

/-- D above E. -/
def de (cpu : Cpu) : UInt16 := Word.ofBytes cpu.d cpu.e

/-- H above L. -/
def hl (cpu : Cpu) : UInt16 := Word.ofBytes cpu.h cpu.l

/-- Writes A and the flags; the lower half of the flag byte is lost. -/
def setAF (cpu : Cpu) (w : UInt16) : Cpu :=
  { cpu with a := Word.high w, f := .ofByte (Word.low w) }

/-- Writes B and C. -/
def setBC (cpu : Cpu) (w : UInt16) : Cpu := { cpu with b := Word.high w, c := Word.low w }

/-- Writes D and E. -/
def setDE (cpu : Cpu) (w : UInt16) : Cpu := { cpu with d := Word.high w, e := Word.low w }

/-- Writes H and L. -/
def setHL (cpu : Cpu) (w : UInt16) : Cpu := { cpu with h := Word.high w, l := Word.low w }

/-- BC reads what was written to it. -/
@[simp] theorem bc_setBC (cpu : Cpu) (w : UInt16) : (cpu.setBC w).bc = w := by simp [bc, setBC]

/-- DE reads what was written to it. -/
@[simp] theorem de_setDE (cpu : Cpu) (w : UInt16) : (cpu.setDE w).de = w := by simp [de, setDE]

/-- HL reads what was written to it. -/
@[simp] theorem hl_setHL (cpu : Cpu) (w : UInt16) : (cpu.setHL w).hl = w := by simp [hl, setHL]

/-- The value of a word register. -/
def wordRegister (cpu : Cpu) : WordRegister → UInt16
  | .bc => cpu.bc
  | .de => cpu.de
  | .hl => cpu.hl
  | .sp => cpu.sp

/-- Puts a value into a word register. -/
def setWordRegister (cpu : Cpu) (r : WordRegister) (w : UInt16) : Cpu :=
  match r with
  | .bc => cpu.setBC w
  | .de => cpu.setDE w
  | .hl => cpu.setHL w
  | .sp => { cpu with sp := w }

/-- A word register holds what was put into it last. -/
@[simp] theorem wordRegister_setWordRegister (cpu : Cpu) (r : WordRegister) (w : UInt16) :
    (cpu.setWordRegister r w).wordRegister r = w := by
  cases r <;> simp [wordRegister, setWordRegister]

/-- The value of a register pair that can be pushed. -/
def stackRegister (cpu : Cpu) : StackRegister → UInt16
  | .bc => cpu.bc
  | .de => cpu.de
  | .hl => cpu.hl
  | .af => cpu.af

/-- Puts a value into a register pair that can be popped.  AF keeps only the wired half of the
flags. -/
def setStackRegister (cpu : Cpu) (r : StackRegister) (w : UInt16) : Cpu :=
  match r with
  | .bc => cpu.setBC w
  | .de => cpu.setDE w
  | .hl => cpu.setHL w
  | .af => cpu.setAF w

/-- Whether a condition is met. -/
def holds (cpu : Cpu) : Condition → Bool
  | .notZero => !cpu.f.zero
  | .zero => cpu.f.zero
  | .notCarry => !cpu.f.carry
  | .carry => cpu.f.carry

/-! ## Reports -/

/-- The registers of the processor at this moment. -/
def dump (cpu : Cpu) : RegisterDump where
  pc := cpu.pc
  sp := cpu.sp
  af := cpu.af
  bc := cpu.bc
  de := cpu.de
  hl := cpu.hl
  cycles := cpu.cycles

/-- What a dump has to show of a processor: the program counter, the stack pointer and the cycle
counter as they are, and the other registers two by two, the first one as the high byte.  The flags
stand in the upper half of the low byte of AF, and its lower half is zero. -/
structure Shown (cpu : Cpu) (d : RegisterDump) : Prop where
  pc : d.pc = cpu.pc
  sp : d.sp = cpu.sp
  af : d.af.toNat = 256 * cpu.a.toNat + (128 * cpu.f.zero.toNat + 64 * cpu.f.subtract.toNat +
    32 * cpu.f.halfCarry.toNat + 16 * cpu.f.carry.toNat)
  bc : d.bc.toNat = 256 * cpu.b.toNat + cpu.c.toNat
  de : d.de.toNat = 256 * cpu.d.toNat + cpu.e.toNat
  hl : d.hl.toNat = 256 * cpu.h.toNat + cpu.l.toNat
  cycles : d.cycles = cpu.cycles

/-- The dump of a processor shows all its registers. -/
theorem shown_dump (cpu : Cpu) : cpu.Shown cpu.dump where
  pc := rfl
  sp := rfl
  af := (Word.toNat_ofBytes cpu.a cpu.f.toByte).trans (congrArg _ cpu.f.toNat_toByte)
  bc := Word.toNat_ofBytes cpu.b cpu.c
  de := Word.toNat_ofBytes cpu.d cpu.e
  hl := Word.toNat_ofBytes cpu.h cpu.l
  cycles := rfl

/-- The processor as a user is shown it. -/
def text (cpu : Cpu) : String :=
  let byte (name : String) (b : UInt8) : String := name ++ "=0x" ++ Numeral.hexByte b
  let word (name : String) (w : UInt16) : String := name ++ "=0x" ++ Numeral.hexWord w
  let fields :=
    ["CPU \x7b", byte "A" cpu.a, "F=" ++ cpu.f.text, byte "B" cpu.b, byte "C" cpu.c,
      byte "D" cpu.d, byte "E" cpu.e, byte "H" cpu.h, byte "L" cpu.l, word "SP" cpu.sp,
      word "PC" cpu.pc, "IME=" ++ toString cpu.ime, "State=" ++ cpu.activity.name,
      "Cycles=" ++ toString cpu.cycles.toNat, "\x7d"]
  " ".intercalate fields

end Cpu

end GameBoy
