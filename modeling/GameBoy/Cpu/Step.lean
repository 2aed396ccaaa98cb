import GameBoy.Cpu.Execute

/-!
# One step of the processor

A step serves an interrupt, sleeps for a moment, or executes one instruction.  Which of the three it
is depends only on the processor and the active sources (`Cpu.duty`).  A step fails if the next
byte of the program is no op code; then it leaves everything as it found it, except that it may have
woken the processor up.
-/

namespace GameBoy

/-- The program goes on with a byte that is no op code. -/
structure Fault where
  code : UInt8
  pc : UInt16
  deriving DecidableEq, Repr

/-- The text that a user is told. -/
def Fault.message (fault : Fault) : String :=
  "op code '" ++ Event.byteText fault.code ++ "' @ " ++ Event.wordText fault.pc ++
    " does not correspond to any valid operation"

/-- The clock cycles that it takes to enter an interrupt handler. -/
def interruptCycles : UInt8 := 20

/-- The clock cycles after which a processor that sleeps looks at the active sources again. -/
def sleepCycles : UInt8 := 4

/-- What a processor can do in a step. -/
inductive Duty where
  | serve (source : Interrupt)
  | sleep
  | execute
  deriving DecidableEq, Repr

namespace Cpu

/-- What the processor does next while the given sources are active: if it sleeps it goes on
sleeping; else it serves the most important active source, if the master switch is on and there is
one; else it executes an instruction. -/
def duty (cpu : Cpu) (active : UInt8) : Duty :=
  match cpu.activity with
  | .running =>
    match (if cpu.ime then Interrupt.highestPriority active else none) with
    | some source => .serve source
    | none => .execute
  | .halted | .stopped => .sleep

/-- The processor while the given sources are active: they may have woken it up. -/
def wake (cpu : Cpu) (active : UInt8) : Cpu := { cpu with activity := cpu.activity.wake active }

/-- Lets clock cycles pass. -/
def spend (cpu : Cpu) (cycles : UInt8) : Cpu := { cpu with cycles := cpu.cycles + cycles.toUInt64 }

/-- An instruction retires: a change of the master switch that is due happens now. -/
def retire (cpu : Cpu) : Cpu :=
  let (due, imeSwitch) := cpu.imeSwitch.retire
  { cpu with ime := due.getD cpu.ime, imeSwitch := imeSwitch }

end Cpu

namespace Execution

/-- Enters the handler of a source: withdraws the request, turns the master switch off, and calls the
handler. -/
def serve (source : Interrupt) : Execution Unit := do
  Transaction.reportEvent (.interruptServiced source (← get).pc)
  Transaction.acknowledgeInterrupt source
  modify fun cpu => { cpu with ime := false }
  call source.vector
  modify fun cpu => cpu.spend interruptCycles

/-- Looks up the instruction at the program counter.  A byte that stands for none is reported. -/
def fetch : Execution (Except Fault Descriptor) := do
  let pc := (← get).pc
  let code ← readByte pc
  match Descriptor.primary code with
  | none =>
    Transaction.reportEvent (.undefinedOpcode code pc)
    return .error ⟨code, pc⟩
  | some d =>
    match d.instruction with
    -- The prefix alone is no instruction: the next byte says which one it is.
    | .extend => return .ok (.extended (← readByte (pc + 1)))
    | _ => return .ok d

/-- Reads the operand of the instruction at the program counter.  An instruction without one has the
operand zero. -/
def fetchOperand (i : Instruction) : Execution UInt16 := do
  let addr := (← get).pc + 1
  match i.addressingMode with
  | .implied => return 0
  | .immediate | .absolute =>
    if i.length = 2 then
      return (← readByte addr).toUInt16
    else
      readWord addr

/-- Executes the instruction at the program counter.  The counter moves past the instruction before
it takes effect, so relative jumps and return addresses start from the next one. -/
def executeNext : Execution (Except Fault UInt8) := do
  match ← fetch with
  | .error fault => return .error fault
  | .ok d =>
    -- The listener sees the registers from before the instruction, its operand still unread.
    Transaction.reportEvent (.executing (← get).dump d)
    let operand ← fetchOperand d.instruction
    modify fun cpu => { cpu with pc := cpu.pc + d.instruction.length.toUInt16 }
    let cycles ← execute d.instruction operand
    modify fun cpu => (cpu.spend cycles).retire
    return .ok cycles

/-- One step: the clock cycles that it took, or the fault that stopped it. -/
def step : Execution (Except Fault UInt8) := do
  let active ← Transaction.activeInterrupts
  -- A processor that has just been woken up serves or executes in the same step.
  modify fun cpu => cpu.wake active
  match (← get).duty active with
  | .serve source =>
    serve source
    return .ok interruptCycles
  | .sleep =>
    modify fun cpu => cpu.spend sleepCycles
    return .ok sleepCycles
  | .execute => executeNext

end Execution

end GameBoy
