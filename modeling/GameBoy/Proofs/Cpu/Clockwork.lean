import GameBoy.Proofs.Cpu.Step
import GameBoy.Proofs.Instruction.Cost
import GameBoy.Proofs.Transaction.Result

/-!
# The clockwork of the processor

What instructions do to the master switch of the interrupts and to the cycle counter.  Three of them
touch the switch (`Clockwork.after`), and none touches the counter (`yields_execute`).  When an
instruction is carried out as a whole, its cycles are spent and it retires, and a change of the
switch that is due happens (`yields_carryOut`).
-/

namespace GameBoy

namespace Clockwork

/-- The clockwork after some cycles. -/
def spend (c : Clockwork) (cycles : UInt8) : Clockwork :=
  { c with cycles := c.cycles + cycles.toUInt64 }

/-- The clockwork after a retirement, at which a change of the switch that is due happens. -/
def retire (c : Clockwork) : Clockwork :=
  let (due, imeSwitch) := c.imeSwitch.retire
  { c with ime := due.getD c.ime, imeSwitch := imeSwitch }

/-- What an instruction does to the clockwork before it retires. -/
def after (i : Instruction) (c : Clockwork) : Clockwork :=
  match i with
  | .misc .enableInterrupts => { c with imeSwitch := .arm true }
  | .misc .disableInterrupts => { c with imeSwitch := .arm false }
  | .jump .retEnable => { c with ime := true }
  | _ => c

/-- The counter wraps around like any word of its size. -/
@[simp] theorem cycles_spend (c : Clockwork) (cycles : UInt8) :
    (c.spend cycles).cycles = c.cycles + cycles.toUInt64 := rfl

/-- A retirement takes no time of its own. -/
@[simp] theorem cycles_retire (c : Clockwork) : c.retire.cycles = c.cycles := rfl

/-- No instruction touches the counter itself. -/
@[simp] theorem cycles_after (c : Clockwork) (i : Instruction) : (c.after i).cycles = c.cycles := by
  unfold after
  split <;> rfl

end Clockwork

namespace Execution

/-- Whatever memory answers, the clockwork is left as it is. -/
def KeepsClockwork {α : Type} (e : Execution α) : Prop :=
  ∀ cpu c, cpu.clockwork = c → (e.run cpu).Yields fun r => r.2.clockwork = c

/-- The building blocks of instructions leave the clockwork alone. -/
theorem uniform_keepsClockwork : Uniform KeepsClockwork where
  pure _ := fun _ _ hc => hc
  bind he hf := fun cpu c hc => (he cpu c hc).bind fun r hr => hf r.1 r.2 c hr
  get := fun _ _ hc => hc
  modifyGet _ hf := fun cpu _ hc => (hf cpu).trans hc
  readByte _ := fun _ _ hc _ => hc
  writeByte _ _ := fun _ _ hc => hc

/-- Of the jumps only the return from a handler turns the switch on. -/
private theorem yields_jump (operand : UInt16) (op : Jump) (cpu : Cpu) :
    ((jump operand op).run cpu).Yields fun r => r.2.clockwork = cpu.clockwork.after (.jump op) := by
  by_cases hop : op = .retEnable
  · subst hop
    -- The switch is turned on first; the return leaves it alone.
    exact uniform_whenHolds uniform_keepsClockwork none (uniform_ret uniform_keepsClockwork)
      { cpu with ime := true } _ rfl
  · have hafter : cpu.clockwork.after (.jump op) = cpu.clockwork := by
      cases op <;> first | rfl | exact absurd rfl hop
    exact uniform_jump uniform_keepsClockwork operand hop cpu _ hafter.symm

/-- Of the other instructions only EI and DI ask for a change. -/
private theorem yields_misc (op : Misc) (cpu : Cpu) :
    ((misc op).run cpu).Yields fun r => r.2.clockwork = cpu.clockwork.after (.misc op) := by
  cases op <;> rfl

/-- What executing an instruction does to the clockwork, and what it costs. -/
theorem yields_execute (i : Instruction) (operand : UInt16) (cpu : Cpu) :
    ((execute i operand).run cpu).Yields fun r =>
      r.2.clockwork = cpu.clockwork.after i ∧ i.Costs r.1 := by
  have h := uniform_keepsClockwork
  -- By the constructors: most groups are made of blocks that leave the clockwork alone.
  cases i with
  | load op => exact (uniform_load h operand op cpu _ rfl).bind fun _ hr => ⟨hr, .inl rfl⟩
  | control op => exact (uniform_control h op cpu _ rfl).bind fun _ hr => ⟨hr, .inl rfl⟩
  | jump op =>
    refine (yields_jump operand op cpu).bind fun r hr => ?_
    obtain ⟨taken, cpu'⟩ := r
    cases taken with
    | true => exact ⟨hr, .inr ⟨op, rfl, rfl⟩⟩
    | false => exact ⟨hr, .inl rfl⟩
  | calculation op =>
    exact (uniform_calculation h operand op cpu _ rfl).bind fun _ hr => ⟨hr, .inl rfl⟩
  | bit op => exact (uniform_bit h op cpu _ rfl).bind fun _ hr => ⟨hr, .inl rfl⟩
  | shift op => exact (uniform_shift h op cpu _ rfl).bind fun _ hr => ⟨hr, .inl rfl⟩
  | misc op => exact (yields_misc op cpu).bind fun _ hr => ⟨hr, .inl rfl⟩
  | extend => exact ⟨rfl, .inl rfl⟩

/-- Every instruction that has been fetched is carried out: it takes effect on the clockwork, its
cycles are spent, and it retires. -/
theorem yields_carryOut (i : Instruction) (operand : UInt16) (cpu : Cpu) :
    ((carryOut i operand).run cpu).Yields fun r => ∃ cycles, r.1 = .ok cycles ∧ i.Costs cycles ∧
      r.2.clockwork = ((cpu.clockwork.after i).spend cycles).retire := by
  -- The program counter moves past the instruction first, which does not show in the clockwork.
  refine (yields_execute i operand
    { cpu with pc := cpu.pc + i.length.toUInt16 }).bind fun r hr => ?_
  refine ⟨r.1, rfl, hr.2, ?_⟩
  show (r.2.clockwork.spend r.1).retire = _
  rw [hr.1]
  rfl

end Execution

end GameBoy
