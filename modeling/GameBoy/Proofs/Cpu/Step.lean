import GameBoy.Machine
import GameBoy.Proofs.Cpu.Accesses
import GameBoy.Proofs.Machine.Steps

/-!
# What a step does

A step asks for the active sources and then serves one, sleeps, or executes an instruction
(`run_step`).  `Machine.duty` says which, and for each of them there is a lemma on the accesses of
the step; a step that serves a source is described in full (`Machine.step_of_serve`).
-/

namespace GameBoy

namespace Execution

/-- Serving a source withdraws its request, stores the program counter on the stack, and goes on at
the handler with the master switch off. -/
theorem run_serve (source : Interrupt) (cpu : Cpu) :
    (serve source).run cpu =
      .report (.interruptServiced source cpu.pc) (.acknowledge source
        (.write (cpu.sp - 2) (Word.low cpu.pc) (.write (cpu.sp - 2 + 1) (Word.high cpu.pc)
          (.done ((), { cpu with ime := false, sp := cpu.sp - 2, pc := source.vector,
                                 cycles := cpu.cycles + interruptCycles.toUInt64 }))))) := rfl

/-- A step is what the duty of the woken processor says. -/
theorem run_step (cpu : Cpu) :
    step.run cpu = .poll fun active =>
      match (cpu.wake active).duty active with
      | .serve source =>
        (serve source).run (cpu.wake active) >>= fun r => pure (.ok interruptCycles, r.2)
      | .sleep => .done (.ok sleepCycles, (cpu.wake active).spend sleepCycles)
      | .execute => executeNext.run (cpu.wake active) := by
  -- The first two statements of the step: the question, and the wake-up that needs the answer.
  have h : step.run cpu = .poll fun active => (do
      match (← get).duty active with
      | .serve source => serve source; return .ok interruptCycles
      | .sleep => modify (fun cpu => cpu.spend sleepCycles); return .ok sleepCycles
      | .execute => executeNext : Execution (Except Fault UInt8)).run (cpu.wake active) := rfl
  rw [h]
  congr 1
  funext active
  show (match (cpu.wake active).duty active with
      | .serve source => _
      | .sleep => _
      | .execute => _ : Execution (Except Fault UInt8)).run (cpu.wake active) = _
  cases (cpu.wake active).duty active <;> rfl

/-- The byte that is read is given to what comes next. -/
private theorem run_readByte_bind {α : Type} (addr : UInt16) (f : UInt8 → Execution α) (cpu : Cpu) :
    (readByte addr >>= f).run cpu = .read addr fun b => (f b).run cpu := rfl

/-- Fetching reads one byte, and a second one after the prefix. -/
theorem run_fetch (cpu : Cpu) :
    fetch.run cpu = .read cpu.pc fun code =>
      match Descriptor.primary code with
      | none => .report (.undefinedOpcode code cpu.pc) (.done (.error ⟨code, cpu.pc⟩, cpu))
      | some d =>
        match d.instruction with
        | .extend => .read (cpu.pc + 1) fun code => .done (.ok (.extended code), cpu)
        | _ => .done (.ok d, cpu) := by
  rw [fetch, StateT.run_bind, StateT.run_get, pure_bind, run_readByte_bind]
  refine congrArg (Transaction.read cpu.pc) (funext fun code => ?_)
  cases Descriptor.primary code with
  | none => rfl
  | some d =>
    obtain ⟨code, i⟩ := d
    -- Of all instructions only the prefix asks for a second byte.
    cases i <;> rfl

/-- An instruction with an operand reads the one or two bytes after its op code. -/
theorem run_fetchOperand (i : Instruction) (cpu : Cpu) :
    (fetchOperand i).run cpu =
      if i.addressingMode = .implied then .done (0, cpu)
      else if i.length = 2 then .read (cpu.pc + 1) fun b => .done (b.toUInt16, cpu)
      else .read (cpu.pc + 1) fun lo => .read (cpu.pc + 1 + 1) fun hi =>
        .done (Word.ofBytes hi lo, cpu) := by
  unfold fetchOperand
  cases i.addressingMode with
  | implied => rfl
  | immediate | absolute => by_cases hlength : i.length = 2 <;> simp only [hlength] <;> rfl

/-- Executes an instruction that has been fetched with its operand, up to and including its
retirement. -/
def carryOut (i : Instruction) (operand : UInt16) : Execution (Except Fault UInt8) := do
  modify fun cpu => { cpu with pc := cpu.pc + i.length.toUInt16 }
  let cycles ← execute i operand
  modify fun cpu => (cpu.spend cycles).retire
  return .ok cycles

/-- An instruction is fetched, reported, and carried out with its operand. -/
theorem executeNext_eq :
    executeNext = (do
      match ← fetch with
      | .error fault => return .error fault
      | .ok d =>
        Transaction.reportEvent (.executing (← get).dump d)
        carryOut d.instruction (← fetchOperand d.instruction)) := rfl

/-- Executing an instruction begins with its first byte. -/
theorem exists_run_executeNext (cpu : Cpu) : ∃ next, executeNext.run cpu = .read cpu.pc next := by
  rw [executeNext_eq, StateT.run_bind, run_fetch]
  exact ⟨_, rfl⟩

end Execution

namespace Cpu

/-- When an interrupt is served: the master switch is on, nothing is left to sleep for, and the
source is the first of the active ones. -/
theorem duty_wake_eq_serve_iff {cpu : Cpu} {active : UInt8} {source : Interrupt} :
    (cpu.wake active).duty active = .serve source ↔
      cpu.ime = true ∧ cpu.activity.wake active = .running ∧
        Interrupt.highestPriority active = some source := by
  -- Waking up changes nothing but the activity.
  show Cpu.duty { cpu with activity := cpu.activity.wake active } active = _ ↔ _
  cases hactivity : cpu.activity.wake active with
  | running =>
    cases hime : cpu.ime with
    | false => simp [duty]
    | true => cases hsource : Interrupt.highestPriority active <;> simp [duty, hsource]
  | halted => simp [duty]
  | stopped => simp [duty]

/-- When an instruction executes: nothing is left to sleep for, and no source is served. -/
theorem duty_wake_eq_execute_iff {cpu : Cpu} {active : UInt8} :
    (cpu.wake active).duty active = .execute ↔
      cpu.activity.wake active = .running ∧
        (cpu.ime = false ∨ Interrupt.highestPriority active = none) := by
  -- Waking up changes nothing but the activity.
  show Cpu.duty { cpu with activity := cpu.activity.wake active } active = _ ↔ _
  cases cpu.activity.wake active with
  | running =>
    cases cpu.ime with
    | false => simp [duty]
    | true => cases hsource : Interrupt.highestPriority active <;> simp [duty, hsource]
  | halted => simp [duty]
  | stopped => simp [duty]

end Cpu

namespace Machine

variable {μ σ : Type} [Memory μ] {m : Machine μ} {source : Interrupt}

/-- What the next step of the machine is for, once the active sources have woken it up. -/
def duty (m : Machine μ) : Duty :=
  (m.cpu.wake (Memory.active m.memory)).duty (Memory.active m.memory)

/-- A step that serves a source. -/
theorem step_of_serve (h : m.duty = .serve source) (listener : Listener σ) (s : σ) :
    (m.step listener s).1 = .ok interruptCycles ∧
      (m.step listener s).2.1 = {
        cpu := { m.cpu with
          activity := m.cpu.activity.wake (Memory.active m.memory)
          ime := false
          sp := m.cpu.sp - 2
          pc := source.vector
          cycles := m.cpu.cycles + interruptCycles.toUInt64 }
        memory := Memory.write
          (Memory.write (Memory.acknowledge m.memory source) (m.cpu.sp - 2) (Word.low m.cpu.pc))
          (m.cpu.sp - 2 + 1) (Word.high m.cpu.pc) } := by
  unfold duty at h
  rw [step, perform, Execution.run_step]
  simp only [Transaction.run, h, Execution.run_serve]
  exact ⟨rfl, rfl⟩

/-- Serving a source withdraws its request and stores two bytes. -/
theorem accesses_of_serve (h : m.duty = .serve source) :
    m.accesses = [.poll, .acknowledge source, .write (m.cpu.sp - 2) (Word.low m.cpu.pc),
      .write (m.cpu.sp - 2 + 1) (Word.high m.cpu.pc)] := by
  unfold duty at h
  rw [accesses, Execution.run_step]
  simp only [Transaction.accesses, h, Execution.run_serve]
  rfl

/-- Sleep reaches no memory. -/
theorem accesses_of_sleep (h : m.duty = .sleep) : m.accesses = [.poll] := by
  unfold duty at h
  rw [accesses, Execution.run_step]
  simp only [Transaction.accesses, h]

/-- After the sources have been asked for, the byte at the program counter is read, and what follows
reads and writes bytes. -/
theorem accesses_of_execute (h : m.duty = .execute) :
    ∃ rest : List Access, m.accesses = .poll :: .read m.cpu.pc :: rest ∧
      ∀ access ∈ rest, access.IsByte := by
  let awake := m.cpu.wake (Memory.active m.memory)
  have haccesses : m.accesses = .poll :: (Execution.executeNext.run awake).accesses m.memory := by
    unfold duty at h
    rw [accesses, Execution.run_step]
    simp only [Transaction.accesses, h]
    rfl
  -- All that comes after the poll reads and writes bytes, beginning with the op code.
  have hbytes := (Execution.onlyBytes_executeNext awake).forall_accesses m.memory
  obtain ⟨next, hnext⟩ := Execution.exists_run_executeNext awake
  rw [hnext] at haccesses hbytes
  exact ⟨_, haccesses, (List.forall_mem_cons.mp hbytes).2⟩

end Machine

end GameBoy
