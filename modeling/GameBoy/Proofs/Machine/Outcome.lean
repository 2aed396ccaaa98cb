import GameBoy.Proofs.Cpu.Clockwork
import GameBoy.Proofs.Cpu.Step

/-!
# Outcomes of a step

A step serves a source, sleeps, fails, or carries out the instruction at the program counter
(`Machine.fetched`), which then retires.  `Machine.outcome_step` says for each of the four what the
step results in and what it does to the clockwork of the processor.  From it follow the cost of a
step (`Machine.cycles_of_ok`) and what becomes of the master switch, which depends on the instruction
that retires (`Machine.clockwork_of_retires`, `Machine.ime_of_retires_eq_none`).

What an instruction makes of a machine by itself is `Machine.carried`, and a step in which it retires
adds no more than its cycles and its retirement (`Machine.machine_step_of_retires`).

`Machine.forall_accesses_of_fetched_eq_some` bounds the accesses of a step that carries out an
instruction by those of the instruction itself.
-/

namespace GameBoy

/-- The instruction that a byte of the program stands for; after the prefix the next byte decides. -/
def Descriptor.select (code next : UInt8) : Option Descriptor :=
  (primary code).map fun d => if d.instruction = .extend then extended next else d

/-- An op code other than the prefix stands for its own instruction. -/
theorem Descriptor.select_of_decode {code : UInt8} {i : Instruction}
    (h : Instruction.decode code = some i) (hextend : i ≠ .extend) (next : UInt8) :
    select code next = some ⟨code, i⟩ := by
  rw [select, primary_eq, h]
  exact congrArg some (if_neg hextend)

/-- An instruction up to its retirement. -/
def Execution.takeEffect (i : Instruction) (operand : UInt16) : Execution UInt8 := do
  modify fun cpu => { cpu with pc := cpu.pc + i.length.toUInt16 }
  execute i operand

/-- An instruction is carried out in two parts, its effect and its retirement. -/
theorem Execution.carryOut_eq (i : Instruction) (operand : UInt16) :
    carryOut i operand = (do
      let cycles ← takeEffect i operand
      modify fun cpu => (cpu.spend cycles).retire
      return .ok cycles) := by
  simp only [carryOut, takeEffect, bind_assoc]

namespace Machine

variable {μ σ : Type} [Memory μ] {m : Machine μ}

/-- The instruction at the program counter, if there is one. -/
def fetched (m : Machine μ) : Option Descriptor :=
  Descriptor.select (Memory.read m.memory m.cpu.pc) (Memory.read m.memory (m.cpu.pc + 1))

/-- The operand of an instruction at the program counter. -/
def operand (m : Machine μ) (i : Instruction) : UInt16 :=
  if i.addressingMode = .implied then 0
  else if i.length = 2 then (Memory.read m.memory (m.cpu.pc + 1)).toUInt16
  else Word.ofBytes (Memory.read m.memory (m.cpu.pc + 1 + 1)) (Memory.read m.memory (m.cpu.pc + 1))

/-- The machine as it goes on after it has been asked for the active sources. -/
def awake (m : Machine μ) : Machine μ := { m with cpu := m.cpu.wake (Memory.active m.memory) }

/-- Waking up does not move the program counter. -/
theorem fetched_awake (m : Machine μ) : m.awake.fetched = m.fetched := rfl

/-- Waking up does not change the operand. -/
theorem operand_awake (m : Machine μ) (i : Instruction) : m.awake.operand i = m.operand i := rfl

/-- The fault of a step that finds no instruction. -/
def fault (m : Machine μ) : Fault := ⟨Memory.read m.memory m.cpu.pc, m.cpu.pc⟩

/-- What is reported of a step that finds no instruction: what the memory has to say about the read,
and the op code. -/
def faultEvents (m : Machine μ) : List Event :=
  Memory.readEvents m.memory m.cpu.pc ++ [.undefinedOpcode m.fault.code m.fault.pc]

/-- The instruction that retires in the next step, if one does. -/
def retires (m : Machine μ) : Option Instruction :=
  match m.duty with
  | .execute => m.fetched.map Descriptor.instruction
  | .serve _ | .sleep => none

/-- The ways in which a step can end, with its result and the clockwork that it leaves. -/
inductive Outcome (m : Machine μ) : Except Fault UInt8 → Clockwork → Prop where
  | served {source : Interrupt} (duty : m.duty = .serve source) :
      Outcome m (.ok interruptCycles)
        ({ m.cpu.clockwork with ime := false }.spend interruptCycles)
  | slept (duty : m.duty = .sleep) :
      Outcome m (.ok sleepCycles) (m.cpu.clockwork.spend sleepCycles)
  | failed (duty : m.duty = .execute) (fetched : m.fetched = none) (fault : Fault) :
      Outcome m (.error fault) m.cpu.clockwork
  | retired {d : Descriptor} {cycles : UInt8} (duty : m.duty = .execute)
      (fetched : m.fetched = some d) (costs : d.instruction.Costs cycles) :
      Outcome m (.ok cycles) ((m.cpu.clockwork.after d.instruction).spend cycles).retire

/-- A sequence is performed part by part. -/
theorem perform_bind {α β : Type} (e : Execution α) (f : α → Execution β) (m : Machine μ)
    (listener : Listener σ) (s : σ) :
    m.perform (e >>= f) listener s =
      (m.perform e listener s).2.1.perform (f (m.perform e listener s).1) listener
        (m.perform e listener s).2.2 := by
  simp only [perform, StateT.run_bind, Transaction.run_bind]

/-- Fetching reads and reports, and leaves the machine as it is. -/
theorem perform_fetch (m : Machine μ) (listener : Listener σ) (s : σ) :
    ∃ s', m.perform Execution.fetch listener s =
      (match m.fetched with
        | none => .error ⟨Memory.read m.memory m.cpu.pc, m.cpu.pc⟩
        | some d => .ok d, m, s') := by
  rw [perform, Execution.run_fetch, Transaction.run, fetched, Descriptor.select]
  generalize Descriptor.primary (Memory.read m.memory m.cpu.pc) = found
  cases found with
  | none => exact ⟨_, rfl⟩
  | some d =>
    obtain ⟨code, i⟩ := d
    -- The prefix reads one more byte, and what that selects is part of `fetched`.
    cases i <;> exact ⟨_, rfl⟩

/-- Fetching an operand leaves the machine as it is. -/
theorem perform_fetchOperand (i : Instruction) (m : Machine μ) (listener : Listener σ) (s : σ) :
    ∃ s', m.perform (Execution.fetchOperand i) listener s = (m.operand i, m, s') := by
  rw [perform, Execution.run_fetchOperand, operand]
  -- There is no operand, one byte of it, or two; each is only read.
  by_cases himplied : i.addressingMode = .implied
  · simp only [if_pos himplied]
    exact ⟨_, rfl⟩
  · by_cases hlength : i.length = 2 <;> simp only [if_neg himplied, hlength, if_true, if_false] <;>
      exact ⟨_, rfl⟩

/-- Sleep takes its time and nothing else happens. -/
theorem step_of_sleep (h : m.duty = .sleep) (listener : Listener σ) (s : σ) :
    m.step listener s =
      (.ok sleepCycles, { m.awake with cpu := m.awake.cpu.spend sleepCycles }, s) := by
  unfold duty at h
  rw [step, perform, Execution.run_step]
  simp only [Transaction.run, h]
  rfl

/-- A step that executes goes on with the processor awake. -/
theorem step_of_execute (h : m.duty = .execute) (listener : Listener σ) (s : σ) :
    m.step listener s = m.awake.perform Execution.executeNext listener s := by
  -- The poll comes first and decides on the duty.
  unfold duty at h
  rw [step, perform, Execution.run_step, perform]
  simp only [Transaction.run, h, awake]

/-- A byte that is no op code stops the step; the processor may have woken up. -/
theorem step_of_fetched_eq_none (h : m.duty = .execute) (hd : m.fetched = none)
    (listener : Listener σ) (s : σ) :
    m.step listener s = (.error m.fault, m.awake, listener.hear s m.faultEvents) := by
  have hcode : Descriptor.primary (Memory.read m.memory m.cpu.pc) = none := by
    rwa [fetched, Descriptor.select, Option.map_eq_none_iff] at hd
  have hfetch : m.awake.perform Execution.fetch listener s =
      (.error m.fault, m.awake, listener.hear s m.faultEvents) := by
    -- The read is reported first and the undefined op code after it.
    have hheard : listener.hear s m.faultEvents =
        listener (listener.hear s (Memory.readEvents m.memory m.cpu.pc))
          (.undefinedOpcode m.fault.code m.fault.pc) := List.foldl_append ..
    rw [hheard, perform, Execution.run_fetch, Transaction.run]
    dsimp only [awake, Cpu.wake]
    rw [hcode]
    rfl
  rw [step_of_execute h, Execution.executeNext_eq, perform_bind, hfetch]
  rfl

/-- An instruction that has been fetched is carried out. -/
theorem step_of_fetched_eq_some (h : m.duty = .execute) {d : Descriptor} (hd : m.fetched = some d)
    (listener : Listener σ) (s : σ) :
    ∃ s', m.step listener s =
      m.awake.perform (Execution.carryOut d.instruction (m.operand d.instruction)) listener s' := by
  obtain ⟨s', hs⟩ := perform_fetch m.awake listener s
  rw [fetched_awake, hd] at hs
  -- The report of the instruction goes to the listener before its operand is read.
  obtain ⟨s'', hoperand⟩ := perform_fetchOperand d.instruction m.awake listener
    (listener s' (.executing m.awake.cpu.dump d))
  refine ⟨s'', ?_⟩
  rw [step_of_execute h, Execution.executeNext_eq, perform_bind, hs]
  show m.awake.perform (Execution.fetchOperand d.instruction >>= Execution.carryOut d.instruction)
    listener (listener s' (.executing m.awake.cpu.dump d)) = _
  rw [perform_bind, hoperand, operand_awake]

/-! ## Instructions that retire -/

/-- An instruction that retires has been fetched and executed. -/
theorem execute_of_retires {i : Instruction} (h : m.retires = some i) :
    m.duty = .execute ∧ ∃ d, m.fetched = some d ∧ d.instruction = i := by
  unfold retires at h
  split at h
  · next hduty => exact ⟨hduty, Option.map_eq_some_iff.mp h⟩
  · cases h
  · cases h

/-- A step in which an instruction retires: the instruction takes effect, its cycles are spent, and it
retires. -/
theorem step_of_retires {i : Instruction} (h : m.retires = some i) (listener : Listener σ)
    (s : σ) :
    ∃ s', m.step listener s =
      let before := m.awake.perform (Execution.takeEffect i (m.operand i)) listener s'
      (.ok before.1,
        { before.2.1 with cpu := (before.2.1.cpu.spend before.1).retire }, before.2.2) := by
  obtain ⟨hduty, d, hd, rfl⟩ := execute_of_retires h
  obtain ⟨s', hs⟩ := step_of_fetched_eq_some hduty hd listener s
  refine ⟨s', ?_⟩
  -- Spending and retiring touch the processor alone.
  rw [hs, Execution.carryOut_eq, perform_bind]
  rfl

/-- The machine after an instruction has been carried out with an operand. -/
def carried (m : Machine μ) (i : Instruction) (operand : UInt16) : Machine μ :=
  (m.perform (Execution.execute i operand) Listener.deaf ()).2.1

/-- The machine as an instruction finds it: awake, with the program counter past the instruction. -/
def past (m : Machine μ) (i : Instruction) : Machine μ :=
  { m.awake with cpu := { m.awake.cpu with pc := m.cpu.pc + i.length.toUInt16 } }

/-- The machine after a step in which an instruction retires. -/
theorem machine_step_of_retires {i : Instruction} (h : m.retires = some i) (listener : Listener σ)
    (s : σ) : ∃ cycles, (m.step listener s).2.1 =
      let after := (m.past i).carried i (m.operand i)
      { after with cpu := (after.cpu.spend cycles).retire } := by
  obtain ⟨s', hs⟩ := step_of_retires h Listener.deaf ()
  rw [machine_step_eq listener Listener.deaf m s (), hs]
  exact ⟨_, rfl⟩

/-! ## Accesses of an instruction -/

/-- The accesses that a part of a step makes. -/
def accessesOf {α : Type} (e : Execution α) (m : Machine μ) : List Access :=
  (e.run m.cpu).accesses m.memory

/-- A sequence accesses the memory part by part. -/
private theorem accessesOf_bind {α β : Type} (e : Execution α) (f : α → Execution β)
    (m : Machine μ) :
    accessesOf (e >>= f) m = accessesOf e m ++
      accessesOf (f (m.perform e Listener.deaf ()).1) (m.perform e Listener.deaf ()).2.1 := by
  rw [accessesOf, StateT.run_bind, Transaction.accesses_bind]
  rfl

/-- Fetching reads the op code, and after the prefix one more byte. -/
private theorem mem_accessesOf_fetch {access : Access} (h : access ∈ accessesOf Execution.fetch m) :
    access = .read m.cpu.pc ∨ access = .read (m.cpu.pc + 1) := by
  rw [accessesOf, Execution.run_fetch, Transaction.accesses] at h
  generalize Descriptor.primary (Memory.read m.memory m.cpu.pc) = found at h
  cases found with
  | none => exact .inl (List.mem_singleton.mp h)
  | some d =>
    obtain ⟨code, i⟩ := d
    cases i with
    -- Only the prefix goes on to read a second byte.
    | extend => simpa [Transaction.accesses] using h
    | _ => exact .inl (List.mem_singleton.mp h)

/-- Fetching an operand reads one or two bytes after the op code. -/
private theorem mem_accessesOf_fetchOperand {i : Instruction} {access : Access}
    (h : access ∈ accessesOf (Execution.fetchOperand i) m) :
    access = .read (m.cpu.pc + 1) ∨ access = .read (m.cpu.pc + 1 + 1) := by
  rw [accessesOf, Execution.run_fetchOperand] at h
  split at h
  · cases h
  split at h
  · exact .inl (List.mem_singleton.mp h)
  · simpa [Transaction.accesses] using h

/-- What holds of the question for the active sources, of the reads of an instruction's own bytes, and
of the accesses of its effect holds of every access of its step. -/
theorem forall_accesses_of_fetched_eq_some (P : Access → Prop) (h : m.duty = .execute)
    {d : Descriptor} (hd : m.fetched = some d) (poll : P .poll)
    (code : ∀ addr ∈ [m.cpu.pc, m.cpu.pc + 1, m.cpu.pc + 1 + 1], P (.read addr))
    (effect : ∀ access ∈ accessesOf
      (Execution.carryOut d.instruction (m.operand d.instruction)) m.awake, P access) :
    ∀ access ∈ m.accesses, P access := by
  -- The step is the poll and, on the machine that is awake, fetching, the operand and the effect.
  have hstep : m.accesses = .poll :: accessesOf Execution.executeNext m.awake := by
    unfold duty at h
    rw [accesses, Execution.run_step]
    simp only [Transaction.accesses, h]
    rfl
  simp only [List.forall_mem_cons, List.not_mem_nil, false_implies, implies_true, and_true] at code
  obtain ⟨s', hfetch⟩ := perform_fetch m.awake Listener.deaf ()
  obtain ⟨s'', hoperand⟩ := perform_fetchOperand d.instruction m.awake Listener.deaf ()
  rw [fetched_awake, hd] at hfetch
  rw [hstep, Execution.executeNext_eq, accessesOf_bind, hfetch, List.forall_mem_cons,
    List.forall_mem_append]
  refine ⟨poll, fun access hmem => ?_, ?_⟩
  · rcases mem_accessesOf_fetch hmem with rfl | rfl
    · exact code.1
    · exact code.2.1
  · -- The report that comes first is no access.
    show ∀ access ∈ accessesOf (Execution.fetchOperand d.instruction >>=
      Execution.carryOut d.instruction) m.awake, P access
    rw [accessesOf_bind, hoperand, List.forall_mem_append]
    refine ⟨fun access hmem => ?_, effect⟩
    rcases mem_accessesOf_fetchOperand hmem with rfl | rfl
    · exact code.2.1
    · exact code.2.2

/-- Moving the program counter and retiring reach no memory. -/
private theorem accessesOf_carryOut (m : Machine μ) (i : Instruction) (operand : UInt16) :
    accessesOf (Execution.carryOut i operand) m.awake =
      accessesOf (Execution.execute i operand) (m.past i) := by
  rw [Execution.carryOut_eq, accessesOf_bind, Execution.takeEffect, accessesOf_bind]
  exact List.append_nil _

/-- Of the accesses of a step in which an instruction retires, those that are neither the question for
the active sources nor a read are the instruction's own. -/
theorem forall_accesses_of_retires (P : Access → Prop) {i : Instruction}
    (h : m.retires = some i) (poll : P .poll) (read : ∀ addr, P (.read addr))
    (effect : ∀ access ∈ accessesOf (Execution.execute i (m.operand i)) (m.past i), P access) :
    ∀ access ∈ m.accesses, P access := by
  obtain ⟨hduty, d, hd, rfl⟩ := execute_of_retires h
  refine forall_accesses_of_fetched_eq_some P hduty hd poll (fun addr _ => read addr) ?_
  rwa [accessesOf_carryOut]

/-! ## Outcomes -/

/-- Every step ends in one of the four ways. -/
theorem outcome_step (m : Machine μ) (listener : Listener σ) (s : σ) :
    m.Outcome (m.step listener s).1 (m.step listener s).2.1.cpu.clockwork := by
  -- The duty decides between the four ways, and for execution whether there is an instruction.
  cases hduty : m.duty with
  | serve source =>
    obtain ⟨hresult, hmachine⟩ := step_of_serve hduty listener s
    rw [hresult, hmachine]
    exact .served hduty
  | sleep =>
    rw [step_of_sleep hduty]
    exact .slept hduty
  | execute =>
    cases hfetched : m.fetched with
    | none =>
      rw [step_of_fetched_eq_none hduty hfetched]
      exact .failed hduty hfetched _
    | some d =>
      obtain ⟨s', hs⟩ := step_of_fetched_eq_some hduty hfetched listener s
      -- What an instruction may cost and do to the clockwork is read off its text.
      let rest := (Execution.carryOut d.instruction (m.operand d.instruction)).run m.awake.cpu
      obtain ⟨cycles, hresult, hcosts, hclockwork⟩ :=
        (Execution.yields_carryOut d.instruction (m.operand d.instruction) m.awake.cpu).run
          listener m.memory s'
      rw [hs]
      show m.Outcome (rest.run listener m.memory s').1.1 (rest.run listener m.memory s').1.2.clockwork
      rw [hresult, hclockwork]
      exact .retired hduty hfetched hcosts

/-- A step that succeeds takes one of six numbers of cycles and moves the counter by it. -/
theorem cycles_of_ok {listener : Listener σ} {s : σ} {cycles : UInt8}
    (h : (m.step listener s).1 = .ok cycles) :
    cycles ∈ Instruction.stepCosts ∧
      (m.step listener s).2.1.cpu.cycles = m.cpu.cycles + cycles.toUInt64 := by
  have houtcome := outcome_step m listener s
  -- The counter is part of the clockwork, which is what the outcome speaks of.
  show _ ∧ (m.step listener s).2.1.cpu.clockwork.cycles = m.cpu.clockwork.cycles + _
  rw [h] at houtcome
  generalize (m.step listener s).2.1.cpu.clockwork = after at houtcome ⊢
  cases houtcome with
  | served duty => exact ⟨by decide, rfl⟩
  | slept duty => exact ⟨by decide, rfl⟩
  | retired duty fetched costs => exact ⟨costs.mem, by simp⟩

/-- A fault leaves the clockwork as it is. -/
theorem clockwork_of_error {listener : Listener σ} {s : σ} {fault : Fault}
    (h : (m.step listener s).1 = .error fault) :
    (m.step listener s).2.1.cpu.clockwork = m.cpu.clockwork := by
  have houtcome := outcome_step m listener s
  rw [h] at houtcome
  generalize (m.step listener s).2.1.cpu.clockwork = after at houtcome ⊢
  cases houtcome with
  | failed duty fetched fault => rfl

/-- The clockwork after a step in which an instruction retires. -/
theorem clockwork_of_retires {i : Instruction} (h : m.retires = some i) (listener : Listener σ)
    (s : σ) : ∃ cycles, (m.step listener s).2.1.cpu.clockwork =
      ((m.cpu.clockwork.after i).spend cycles).retire := by
  have houtcome := outcome_step m listener s
  generalize (m.step listener s).1 = result, (m.step listener s).2.1.cpu.clockwork = after
    at houtcome ⊢
  -- The other three ways have no instruction that retires.
  cases houtcome with
  | served duty => rw [retires, duty] at h; cases h
  | slept duty => rw [retires, duty] at h; cases h
  | failed duty fetched => rw [retires, duty, fetched] at h; cases h
  | retired duty fetched =>
    rw [retires, duty, fetched] at h
    obtain rfl := Option.some.inj h
    exact ⟨_, rfl⟩

/-- Without an instruction that retires, a change of the master switch stays under way, and the switch
itself stays as it was or is turned off by a service. -/
theorem ime_of_retires_eq_none (h : m.retires = none) (listener : Listener σ) (s : σ) :
    (m.step listener s).2.1.cpu.imeSwitch = m.cpu.imeSwitch ∧
      ((m.step listener s).2.1.cpu.ime = m.cpu.ime ∨
        (∃ source, m.duty = .serve source) ∧ (m.step listener s).2.1.cpu.ime = false) := by
  have houtcome := outcome_step m listener s
  show (m.step listener s).2.1.cpu.clockwork.imeSwitch = _ ∧
    ((m.step listener s).2.1.cpu.clockwork.ime = _ ∨
      _ ∧ (m.step listener s).2.1.cpu.clockwork.ime = _)
  generalize (m.step listener s).1 = result, (m.step listener s).2.1.cpu.clockwork = after
    at houtcome ⊢
  cases houtcome with
  | served duty => exact ⟨rfl, .inr ⟨⟨_, duty⟩, rfl⟩⟩
  | slept duty => exact ⟨rfl, .inl rfl⟩
  | failed duty fetched => exact ⟨rfl, .inl rfl⟩
  | retired duty fetched => rw [retires, duty, fetched] at h; cases h

end Machine

end GameBoy
