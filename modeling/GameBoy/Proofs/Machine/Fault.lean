import GameBoy.Proofs.Instruction.Table
import GameBoy.Proofs.Interrupt
import GameBoy.Proofs.Machine.Pacing
import GameBoy.Proofs.Machine.Trace

/-!
# Faults

A step fails if the processor is awake, has no source to serve, and finds an undefined op code
(`Machine.Faults`).  Such a step reports the op code and leaves the machine as it was, but awake
(`Machine.step_rouses`).  So the machine that is left fails again in the same way, in a step
as well as in a tick (`Machine.duty_roused`, `Machine.tick_rouses`).

A tick that fails is some successful steps and then one that fails
(`Machine.exists_climbs_of_tick_error`).  `Machine.fails_iff_undefined` puts all of this together.
-/

namespace GameBoy.Machine

variable {μ σ : Type} [Memory μ] {m : Machine μ} {s : σ} {listener : Listener σ}

/-- Whether the next step finds an undefined op code: the processor is awake, no source is served,
and the byte at the program counter is one of the eleven. -/
structure Faults (m : Machine μ) : Prop where
  running : m.cpu.activity.wake (Memory.active m.memory) = .running
  unserved : m.cpu.ime = false ∨ Memory.active m.memory = 0
  undefined : Memory.read m.memory m.cpu.pc ∈ Instruction.undefinedCodes

/-- The machine with its processor running. -/
def roused (m : Machine μ) : Machine μ := { m with cpu := { m.cpu with activity := .running } }

/-! ## The condition -/

/-- There is no instruction at the program counter just if the op code is undefined. -/
theorem fetched_eq_none_iff :
    m.fetched = none ↔ Memory.read m.memory m.cpu.pc ∈ Instruction.undefinedCodes := by
  rw [fetched, Descriptor.select, Option.map_eq_none_iff, Descriptor.primary_eq_none_iff]

/-- If only the five sources can be active, there is one to serve whenever one is active. -/
theorem faults_iff (hwired : Memory.active m.memory ≤ 0x1F) :
    m.Faults ↔ m.duty = .execute ∧ m.fetched = none := by
  rw [duty, Cpu.duty_wake_eq_execute_iff, Interrupt.highestPriority_eq_none_iff hwired,
    fetched_eq_none_iff, and_assoc]
  exact ⟨fun h => ⟨h.running, h.unserved, h.undefined⟩, fun h => ⟨h.1, h.2.1, h.2.2⟩⟩

/-- A step fails only for want of an instruction to execute. -/
theorem execute_of_error {fault : Fault} (h : (m.step listener s).1 = .error fault) :
    m.duty = .execute ∧ m.fetched = none := by
  have houtcome := outcome_step m listener s
  rw [h] at houtcome
  generalize (m.step listener s).2.1.cpu.clockwork = after at houtcome
  -- Of the four outcomes only one is an error.
  cases houtcome with
  | failed duty fetched => exact ⟨duty, fetched⟩

/-! ## Steps -/

section Step

variable (hduty : m.duty = .execute) (hfetched : m.fetched = none)

include hduty in

/-- A machine that executes has its processor running. -/
theorem awake_eq_roused : m.awake = m.roused := by
  obtain ⟨hrunning, -⟩ := Cpu.duty_wake_eq_execute_iff.mp hduty
  rw [awake, Cpu.wake, hrunning, roused]

include hduty in
/-- A processor that has been woken up goes on executing. -/
theorem duty_roused : m.roused.duty = .execute := by
  obtain ⟨-, hunserved⟩ := Cpu.duty_wake_eq_execute_iff.mp hduty
  exact Cpu.duty_wake_eq_execute_iff.mpr ⟨rfl, hunserved⟩

include hduty hfetched in
/-- A step that finds no instruction reports the op code and leaves the machine as it was, but
awake. -/
theorem step_rouses (listener : Listener σ) (s : σ) :
    m.step listener s = (.error m.fault, m.roused, listener.hear s m.faultEvents) := by
  rw [step_of_fetched_eq_none hduty hfetched, awake_eq_roused hduty]

include hduty hfetched in
/-- A tick that has to step fails at once. -/
theorem tick_rouses {elapsed : Duration} (hlt : m.cpu.cycles < m.cpu.target elapsed)
    (listener : Listener σ) (s : σ) :
    m.tick elapsed listener s = (.error m.fault, m.roused, listener.hear s m.faultEvents) :=
  runUntil_of_fault hlt (step_rouses hduty hfetched listener s)

end Step

/-! ## Ticks -/

/-- A tick that has some cycles to spend aims past where the counter stands. -/
theorem lt_target {cpu : Cpu} {elapsed : Duration} (hpos : elapsed.clockCycles ≠ 0)
    (hfits : cpu.cycles.toNat + elapsed.clockCycles.toNat < UInt64.size) :
    cpu.cycles < cpu.target elapsed := by
  have hne : elapsed.clockCycles.toNat ≠ 0 := fun hzero => hpos (UInt64.toNat_inj.mp hzero)
  rw [UInt64.lt_iff_toNat_lt, toNat_target_of_fits hfits]
  omega

/-- A tick that fails leaves the machine of its successful steps, but awake. -/
theorem exists_climbs_of_tick_error {elapsed : Duration} {fault : Fault}
    (herror : (m.tick elapsed listener s).1 = .error fault) :
    ∃ n before, Climbs n m before ∧ (before.step Listener.deaf ()).1 = .error fault ∧
      (m.tick elapsed listener s).2.1 = before.roused := by
  generalize hrun : m.tick elapsed listener s = final at herror ⊢
  obtain ⟨result, m', s'⟩ := final
  obtain rfl : result = .error fault := herror
  obtain ⟨n, before, s₀, hclimbs, -, hends⟩ :=
    exists_ends_runUntil (m.cpu.target elapsed) listener m s
  rw [tick] at hrun
  rw [hrun] at hends
  -- Of the ways in which the loop ends only a failed step is an error.
  cases hends with
  | failed hstep =>
    obtain ⟨hduty, hfetched⟩ := execute_of_error (congrArg Prod.fst hstep)
    rw [step_rouses hduty hfetched] at hstep
    cases hstep
    exact ⟨n, before, hclimbs, by rw [step_rouses hduty hfetched], rfl⟩

/-- A step fails exactly if it finds an undefined op code.  The fault names the code and its place,
one error is reported and no instruction, and nothing of the machine changes but that it is awake; so
it fails again in every further step, and in every tick that has to step.  A tick that fails
midway leaves the machine of the steps before its fault, but awake. -/
theorem fails_iff_undefined (m : Machine μ) (hwired : Memory.active m.memory ≤ 0x1F)
    (listener : Listener σ) (s : σ) :
    ((∃ fault, (m.step listener s).1 = .error fault) ↔ m.Faults) ∧
    (m.Faults →
      m.step listener s = (.error m.fault, m.roused, listener.hear s m.faultEvents) ∧
      ((∀ event ∈ Memory.readEvents m.memory m.cpu.pc,
          event.level ≠ .error ∧ ¬event.IsExecuting) →
        m.faultEvents.filter (·.level = .error) = [.undefinedOpcode m.fault.code m.fault.pc] ∧
        ∀ event ∈ m.faultEvents, ¬event.IsExecuting) ∧
      ∀ {τ : Type} (listener' : Listener τ) (t : τ),
        (∃ t', m.roused.step listener' t = (.error m.fault, m.roused, t')) ∧
        ∀ elapsed : Duration, elapsed.clockCycles ≠ 0 →
          m.cpu.cycles.toNat + elapsed.clockCycles.toNat < UInt64.size →
          ∃ t', m.roused.tick elapsed listener' t = (.error m.fault, m.roused, t')) ∧
    ∀ elapsed fault, (m.tick elapsed listener s).1 = .error fault →
      ∃ n before, m.advanceMany n = some before ∧
        (before.step Listener.deaf ()).1 = .error fault ∧
        (m.tick elapsed listener s).2.1 = before.roused := by
  refine ⟨⟨?_, ?_⟩, fun hfaults => ?_, fun elapsed fault herror => ?_⟩
  · rintro ⟨fault, herror⟩
    exact (faults_iff hwired).mpr (execute_of_error herror)
  · intro hfaults
    obtain ⟨hduty, hfetched⟩ := (faults_iff hwired).mp hfaults
    exact ⟨m.fault, by rw [step_rouses hduty hfetched]⟩
  · obtain ⟨hduty, hfetched⟩ := (faults_iff hwired).mp hfaults
    refine ⟨step_rouses hduty hfetched listener s, fun hquiet => ⟨?_, ?_⟩, ?_⟩
    -- The reports of the read are no errors, so the op code is the only one.
    · have hnone : (Memory.readEvents m.memory m.cpu.pc).filter (·.level = .error) = [] := by
        simpa using fun event hmem => (hquiet event hmem).1
      rw [faultEvents, List.filter_append, hnone]
      rfl
    · intro event hmem
      rcases List.mem_append.mp hmem with hread | hcode
      · exact (hquiet event hread).2
      · obtain rfl := List.mem_singleton.mp hcode
        exact not_false
    · intro τ listener' t
      -- The machine that is left finds the same op code with the processor running.
      have hagain : m.roused.duty = .execute := duty_roused hduty
      refine ⟨⟨_, step_rouses hagain hfetched listener' t⟩, fun elapsed hpos hfits => ?_⟩
      exact ⟨_, tick_rouses hagain hfetched (lt_target hpos hfits) listener' t⟩
  · obtain ⟨n, before, hclimbs, hbefore, hafter⟩ := exists_climbs_of_tick_error herror
    exact ⟨n, before, hclimbs.advanceMany, hbefore, hafter⟩

/-- A machine asleep before an undefined op code, with a source active that may not interrupt. -/
def derailed : Machine FlatMemory where
  cpu := { Cpu.initial with activity := .halted }
  memory := .ofCells ((((Block.zero _).set 0x0100 0xD3).set 0xFFFF 0x01).set 0xFF0F 0x01)

/-- The memory is zero but for the op code and the two interrupt registers. -/
theorem read_derailed (addr : UInt16) : Memory.read derailed.memory addr =
    if addr.toNat = 0xFF0F then 0x01 else if addr.toNat = 0xFFFF then 0x01
    else if addr.toNat = 0x0100 then 0xD3 else 0 := by
  simp [Memory.read, derailed, FlatMemory.ofCells, Block.get_set]

/-- One source is active. -/
theorem active_derailed : Memory.active derailed.memory = 0x01 := by
  show Memory.read derailed.memory enableAddress &&& Memory.read derailed.memory pendingAddress
    &&& 0x1F = _
  rw [read_derailed, read_derailed]
  rfl

/-- The source wakes the machine up, and then it fails, once and again. -/
theorem fails_iff_undefined_derailed :
    let errors : Listener Nat := fun count event => if event.level = .error then count + 1 else count
    derailed.step errors 0 = (.error ⟨0xD3, 0x0100⟩, derailed.roused, 1) ∧
      ∃ t', derailed.roused.tick ⟨1000⟩ Listener.deaf () =
        (.error ⟨0xD3, 0x0100⟩, derailed.roused, t') := by
  intro errors
  have hfault : derailed.fault = ⟨0xD3, 0x0100⟩ := by
    rw [fault, read_derailed]
    rfl
  -- The active source ends the halt, and with the master switch off it is not served.
  have hfaults : derailed.Faults := by
    refine ⟨?_, .inl rfl, ?_⟩
    · rw [active_derailed]
      rfl
    · rw [read_derailed]
      decide
  obtain ⟨-, hfails, -⟩ := fails_iff_undefined derailed (by rw [active_derailed]; decide) errors 0
  obtain ⟨hstep, -, hagain⟩ := hfails hfaults
  rw [hfault] at hstep hagain
  refine ⟨?_, (hagain Listener.deaf ()).2 ⟨1000⟩ (by decide) (by decide)⟩
  rw [hstep, faultEvents, hfault]
  rfl

end GameBoy.Machine
