import GameBoy.Cpu.Step

/-!
# Machines

A machine is a processor wired to a memory.  `step` performs one step and `tick` performs steps until
a span of emulated time has passed.  Both take a listener, whose state is threaded through; what it
hears has no influence on the machine.

`tick` ends because every step moves the cycle counter up.  A counter that has come to the end of
its 64 bits ends the tick as well.
-/

namespace GameBoy

/-- A processor wired to a memory. -/
structure Machine (μ : Type) where
  cpu : Cpu
  memory : μ
  deriving DecidableEq

/-- The clock cycles in a second. -/
def clockSpeed : Nat := 4194304

/-- The clock cycles in a span of time, rounded down and counted in 64 bits. -/
def Duration.clockCycles (d : Duration) : UInt64 :=
  UInt64.ofNat (d.nanoseconds * clockSpeed / nanosecondsPerSecond)

namespace Cpu

/-- The value of the cycle counter at which a tick of the given length ends; it stays at the end of
the counter's range rather than going past it. -/
def target (cpu : Cpu) (elapsed : Duration) : UInt64 :=
  let sum := cpu.cycles + elapsed.clockCycles
  -- The sum is below its first part exactly if it has wrapped around.
  if sum < cpu.cycles then UInt64.ofNat (UInt64.size - 1) else sum

end Cpu

namespace Machine

variable {μ σ α : Type} [Memory μ]

/-- A machine whose processor is about to start the program. -/
def boot (memory : μ) : Machine μ := ⟨.initial, memory⟩

/-- Puts the processor back to the start of the program and leaves the memory as it is. -/
def reset (m : Machine μ) : Machine μ := { m with cpu := .initial }

/-- Plays an execution against the memory of the machine. -/
@[specialize] def perform (execution : Execution α) (listener : Listener σ) (m : Machine μ) (s : σ) :
    α × Machine μ × σ :=
  let ((a, cpu), memory, s) := (execution.run m.cpu).run listener m.memory s
  (a, ⟨cpu, memory⟩, s)

/-- Plays accesses to the memory of the machine; the processor has no part in them. -/
@[specialize] def access (transaction : Transaction α) (listener : Listener σ) (m : Machine μ)
    (s : σ) : α × Machine μ × σ :=
  let (a, memory, s) := transaction.run listener m.memory s
  (a, { m with memory := memory }, s)

/-- Performs one step. -/
@[specialize] def step (listener : Listener σ) (m : Machine μ) (s : σ) :
    Except Fault UInt8 × Machine μ × σ :=
  m.perform Execution.step listener s

/-- Performs steps until the cycle counter reaches a target. -/
@[specialize] def runUntil (target : UInt64) (listener : Listener σ) (m : Machine μ) (s : σ) :
    Except Fault Unit × Machine μ × σ :=
  let before := m.cpu.cycles
  have _ : before = m.cpu.cycles := rfl
  if _ : before < target then
    match m.step listener s with
    | (.error fault, after, s) => (.error fault, after, s)
    | (.ok _, after, s) =>
      -- A step always lets time pass, so the counter is behind only if it has wrapped around.
      if _ : before < after.cpu.cycles then runUntil target listener after s
      -- The counter has gone past the end of its range.
      else (.ok (), after, s)
  else (.ok (), m, s)
termination_by target.toNat - m.cpu.cycles.toNat
decreasing_by
  simp_all only [UInt64.lt_iff_toNat_lt]
  omega

/-- Runs for at least the given time: the last instruction may go past the target, and the next tick
goes on from wherever the counter ended up. -/
@[specialize] def tick (elapsed : Duration) (listener : Listener σ) (m : Machine μ) (s : σ) :
    Except Fault Unit × Machine μ × σ :=
  let target := m.cpu.target elapsed
  m.runUntil target listener s

end Machine

end GameBoy
