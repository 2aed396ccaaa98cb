import GameBoy.Proofs.Console.Reentry
import GameBoy.Proofs.Machine.Trace

/-!
# The delayed switch over whole runs

EI and DI ask for a change of the master switch that happens when the next instruction has retired.
In every state of every run the change under way is the one that the last instruction asked for, if
it asked for one (`Console.imeSwitch_eq_inFlight`).  The last instruction is what a listener has heard
of last (`Listener.lastExecuted`), so this also speaks of runs in which ticks decide how many steps
there are.

`Machine.Switches` lists what a step does to the switch, given the change under way.  The main
statement is `Console.switches_on_next_retirement`.
-/

namespace GameBoy

/-- The value that an instruction asks the master switch to take when the next one has retired. -/
def Instruction.switchTo? : Instruction → Option Bool
  | misc .enableInterrupts => some true
  | misc .disableInterrupts => some false
  | _ => none

/-- Remembers the instruction that executed last. -/
def Listener.lastExecuted : Listener (Option Instruction) := fun last event =>
  match event with
  | .executing _ d => some d.instruction
  | _ => last

/-- Only the reports of instructions are listened to. -/
theorem Listener.selective_lastExecuted : Listener.lastExecuted.Selective := by
  intro last event h
  cases event with
  | executing registers next => exact absurd trivial h
  | _ => rfl

/-! ## The clockwork -/

/-- What is in flight after an instruction is the change that it asks for, not yet due. -/
theorem PendingSwitch.inFlight_eq (last : Option Instruction) :
    inFlight last = match last.bind Instruction.switchTo? with
      | some target => .pending target 0
      | none => .idle := by
  unfold inFlight
  split
  · rfl
  · rfl
  · next henable hdisable =>
    -- Neither of the two that ask for a change.
    have hnone : last.bind Instruction.switchTo? = none := by
      cases last with
      | none => rfl
      | some i =>
        show i.switchTo? = none
        unfold Instruction.switchTo?
        split
        · exact absurd rfl henable
        · exact absurd rfl hdisable
        · rfl
    rw [hnone]

namespace Clockwork

variable {c : Clockwork} {i : Instruction} {last : Option Instruction} {target : Bool}

/-- An instruction that asks for a change starts the delay over, so nothing happens at its own
retirement. -/
theorem ime_retire_after_of_switchTo (hi : i.switchTo? = some target) (cycles : UInt8) :
    ((c.after i).spend cycles).retire.ime = c.ime := by
  unfold Instruction.switchTo? at hi
  split at hi
  · rfl
  · rfl
  · cases hi

/-- Most instructions leave the clockwork alone until they retire. -/
theorem after_eq_self (hi : i.switchTo? = none) (hreturn : i ≠ .jump .retEnable) : c.after i = c := by
  unfold Clockwork.after
  split
  · cases hi
  · cases hi
  · exact absurd rfl hreturn
  · rfl

/-- At the retirement of an instruction that asks for nothing, the change under way happens. -/
theorem retire_after_of_due (h : c.imeSwitch = .inFlight last)
    (hlast : last.bind Instruction.switchTo? = some target) (hi : i.switchTo? = none)
    (hreturn : i ≠ .jump .retEnable) (cycles : UInt8) :
    ((c.after i).spend cycles).retire.ime = target ∧
      ((c.after i).spend cycles).retire.imeSwitch = .idle := by
  rw [PendingSwitch.inFlight_eq, hlast] at h
  obtain ⟨ime, imeSwitch, count⟩ := c
  obtain rfl : imeSwitch = .pending target 0 := h
  rw [after_eq_self hi hreturn]
  exact ⟨rfl, rfl⟩

/-- Without a change under way the switch stays as it is. -/
theorem ime_retire_after_of_not_due (h : c.imeSwitch = .inFlight last)
    (hlast : last.bind Instruction.switchTo? = none) (hi : i.switchTo? = none)
    (hreturn : i ≠ .jump .retEnable) (cycles : UInt8) :
    ((c.after i).spend cycles).retire.ime = c.ime := by
  rw [PendingSwitch.inFlight_eq, hlast] at h
  obtain ⟨ime, imeSwitch, count⟩ := c
  obtain rfl : imeSwitch = .idle := h
  -- An idle switch stays idle over the retirement.
  rw [after_eq_self hi hreturn]
  rfl

end Clockwork

/-! ## Steps -/

namespace Machine

variable {μ σ : Type} [Memory μ] {m : Machine μ} {last : Option Instruction} {i : Instruction}

/-- An instruction that does not ask for a change, and does not turn the switch on itself, runs with
the switch as it was. -/
theorem ime_takeEffect (hi : i.switchTo? = none) (hreturn : i ≠ .jump .retEnable)
    (operand : UInt16) (m : Machine μ) (listener : Listener σ) (s : σ) :
    (m.perform (Execution.takeEffect i operand) listener s).2.1.cpu.ime = m.cpu.ime := by
  -- Moving the program counter past the instruction does not show in the clockwork.
  let moved : Cpu := { m.cpu with pc := m.cpu.pc + i.length.toUInt16 }
  have hexecute := (Execution.yields_execute i operand moved).run listener m.memory s
  have hclockwork := hexecute.1
  rw [Clockwork.after_eq_self hi hreturn] at hclockwork
  exact congrArg Clockwork.ime hclockwork

/-- What the next step of a machine does to the master switch if the last instruction to retire was
the given one. -/
structure Switches (m : Machine μ) (last : Option Instruction) (listener : Listener σ) (s : σ) :
    Prop where
  /-- An instruction that asks for a change leaves the switch as it was. -/
  asked : ∀ i target, m.retires = some i → i.switchTo? = some target →
    (m.step listener s).2.1.cpu.ime = m.cpu.ime
  /-- A change under way happens when the next instruction retires, and not before. -/
  committed : ∀ i target, m.retires = some i → i.switchTo? = none → i ≠ .jump .retEnable →
    last.bind Instruction.switchTo? = some target →
    (m.step listener s).2.1.cpu.ime = target ∧ (m.step listener s).2.1.cpu.imeSwitch = .idle ∧
    ∃ s', let before := m.awake.perform (Execution.takeEffect i (m.operand i)) listener s'
      before.2.1.cpu.ime = m.cpu.ime ∧
      (m.step listener s).2.1 =
        { before.2.1 with cpu := (before.2.1.cpu.spend before.1).retire }
  /-- There is no other way for the switch to change. -/
  changed : (m.step listener s).2.1.cpu.ime ≠ m.cpu.ime →
    (∃ source, m.duty = .serve source) ∧ (m.step listener s).2.1.cpu.ime = false ∨
    m.retires = some (.jump .retEnable) ∨
    ∃ i target, m.retires = some i ∧ i.switchTo? = none ∧
      last.bind Instruction.switchTo? = some target ∧ (m.step listener s).2.1.cpu.ime = target
  served : ∀ source, m.duty = .serve source →
    (m.step listener s).2.1.cpu.imeSwitch = m.cpu.imeSwitch ∧
      (m.step listener s).2.1.cpu.ime = false
  slept : m.duty = .sleep →
    (m.step listener s).2.1.cpu.imeSwitch = m.cpu.imeSwitch ∧
      (m.step listener s).2.1.cpu.ime = m.cpu.ime
  failed : ∀ fault, (m.step listener s).1 = .error fault →
    (m.step listener s).2.1.cpu.imeSwitch = m.cpu.imeSwitch ∧
      (m.step listener s).2.1.cpu.ime = m.cpu.ime

/-- A step with the change under way that the last instruction asked for, if it asked for one. -/
theorem switches_of_inFlight (h : m.cpu.imeSwitch = .inFlight last) (listener : Listener σ) (s : σ) :
    m.Switches last listener s := by
  have hclock : m.cpu.clockwork.imeSwitch = .inFlight last := h
  -- An instruction that retires decides over the clockwork.
  have hretires {i : Instruction} (hi : m.retires = some i) : ∃ cycles,
      (m.step listener s).2.1.cpu.ime =
          ((m.cpu.clockwork.after i).spend cycles).retire.ime ∧
        (m.step listener s).2.1.cpu.imeSwitch =
          ((m.cpu.clockwork.after i).spend cycles).retire.imeSwitch := by
    obtain ⟨cycles, hclockwork⟩ := clockwork_of_retires hi listener s
    exact ⟨cycles, congrArg Clockwork.ime hclockwork, congrArg Clockwork.imeSwitch hclockwork⟩
  constructor
  case asked =>
    intro i target hi htarget
    obtain ⟨cycles, hime, -⟩ := hretires hi
    rw [hime]
    exact Clockwork.ime_retire_after_of_switchTo htarget cycles
  case committed =>
    intro i target hi hnone hreturn hlast
    obtain ⟨cycles, hime, hswitch⟩ := hretires hi
    obtain ⟨hdue, hidle⟩ := Clockwork.retire_after_of_due hclock hlast hnone hreturn cycles
    obtain ⟨s', hs⟩ := step_of_retires hi listener s
    refine ⟨hime.trans hdue, hswitch.trans hidle, s', ?_, by rw [hs]⟩
    exact ime_takeEffect hnone hreturn (m.operand i) m.awake listener s'
  case changed =>
    intro hchanged
    -- A service clears the switch; besides that only an instruction that retires can change it.
    cases hi : m.retires with
    | none =>
      have hnone := (ime_of_retires_eq_none hi listener s).2
      exact .inl (hnone.resolve_left hchanged)
    | some i =>
      right
      by_cases hreturn : i = .jump .retEnable
      · exact .inl (congrArg some hreturn)
      right
      obtain ⟨cycles, hime, -⟩ := hretires hi
      rw [hime] at hchanged ⊢
      -- It cannot be the instruction itself that asks, nor can nobody have asked.
      cases hask : i.switchTo? with
      | some target =>
        exact absurd (Clockwork.ime_retire_after_of_switchTo hask cycles) hchanged
      | none =>
        cases hlast : last.bind Instruction.switchTo? with
        | none =>
          have hkept := Clockwork.ime_retire_after_of_not_due hclock hlast hask hreturn cycles
          exact absurd hkept hchanged
        | some target =>
          have hdue := Clockwork.retire_after_of_due hclock hlast hask hreturn cycles
          exact ⟨i, target, rfl, hask, rfl, hdue.1⟩
  case served =>
    intro source hduty
    rw [(step_of_serve hduty listener s).2]
    exact ⟨rfl, rfl⟩
  case slept =>
    intro hduty
    rw [step_of_sleep hduty]
    exact ⟨rfl, rfl⟩
  case failed =>
    intro fault herror
    have hclockwork := clockwork_of_error herror
    exact ⟨congrArg Clockwork.imeSwitch hclockwork, congrArg Clockwork.ime hclockwork⟩

/-- What is remembered as the last instruction is the one that retires. -/
theorem lastExecuted_step (hμ : Memory.Discreet μ) (m : Machine μ) (last : Option Instruction) :
    (m.step Listener.lastExecuted last).2.2 = m.retires.or last := by
  rw [heard_step hμ Listener.selective_lastExecuted, retires]
  cases m.duty with
  | serve source => rfl
  | sleep => rfl
  | execute => cases m.fetched <;> rfl

end Machine

/-! ## Runs -/

namespace Console

/-- Many steps are a run whose actions are all steps. -/
theorem stepMany_eq_run {σ : Type} (listener : Listener σ) (n : Nat) (c : Console × σ) :
    Machine.stepMany listener n c = run listener c (List.replicate n .step) := by
  induction n generalizing c with
  | zero => rfl
  | succ n ih => exact ih _

/-- The change under way is the one that the last instruction has asked for. -/
private def InStep (c : Console × Option Instruction) : Prop :=
  c.1.cpu.imeSwitch = .inFlight c.2

/-- The instruction that retires in a step is both the one remembered and the one that has asked. -/
private theorem inStep_step (c : Console × Option Instruction) (h : InStep c) :
    InStep (Machine.after (c.1.step Listener.lastExecuted c.2)) := by
  show (c.1.step Listener.lastExecuted c.2).2.1.cpu.imeSwitch =
    .inFlight (c.1.step Listener.lastExecuted c.2).2.2
  rw [Machine.lastExecuted_step Bus.discreet]
  exact Machine.imeSwitch_step h Listener.lastExecuted c.2

/-- An access from outside is no instruction. -/
private theorem inStep_access {α : Type} {t : Transaction α} (ht : t.Silent)
    {c : Console × Option Instruction} (h : InStep c) :
    InStep (Machine.after (c.1.access t Listener.lastExecuted c.2)) := by
  have hheard := ht.run Bus.discreet Listener.selective_lastExecuted c.1.memory c.2
  show c.1.cpu.imeSwitch = .inFlight (t.run Listener.lastExecuted c.1.memory c.2).2.2
  rw [hheard]
  exact h

/-- Every action but a reset keeps the last instruction and the change under way in step. -/
private theorem inStep_act {c : Console × Option Instruction} (h : InStep c) {action : Action}
    (haction : action ≠ .reset) : InStep (act Listener.lastExecuted c action) := by
  cases action with
  | step => exact inStep_step c h
  -- A tick is a number of steps, so the step lemma carries over to it.
  | tick elapsed => exact Machine.tick_invariant inStep_step h elapsed
  | reset => exact absurd rfl haction
  | request source => exact h
  | read addr => exact inStep_access (Transaction.silent_readByte addr) h
  | write addr value => exact inStep_access (Transaction.silent_writeByte addr value) h

/-- As long as there is no further reset, the change under way is the one that the last instruction has
asked for. -/
theorem imeSwitch_eq_inFlight {c : Console × Option Instruction}
    (h : c.1.cpu.imeSwitch = .inFlight c.2) {actions : List Action} (hactions : .reset ∉ actions) :
    (run Listener.lastExecuted c actions).1.cpu.imeSwitch =
      .inFlight (run Listener.lastExecuted c actions).2 := by
  -- Over the actions, each of which keeps the two in step.
  induction actions generalizing c with
  | nil => exact h
  | cons action rest ih =>
    rw [List.mem_cons, not_or] at hactions
    exact ih (inStep_act h (Ne.symm hactions.1)) hactions.2

/-- A step in which an instruction is known to execute remembers that instruction. -/
theorem Executes.act_lastExecuted {m m' : Console} {i : Instruction} (h : m.Executes i m')
    (last : Option Instruction) :
    Console.act Listener.lastExecuted (m, last) .step = (m', some i) := by
  have hmachine : (m.step Listener.lastExecuted last).2.1 = m' :=
    (Machine.machine_step_eq _ Listener.deaf m last ()).trans (congrArg Prod.fst h.act)
  have hheard := Machine.lastExecuted_step Bus.discreet m last
  rw [h.retires] at hheard
  exact Prod.ext hmachine hheard

/-- The step at whose end a change is due makes it. -/
theorem ime_act_step_of_due {c : Console × Option Instruction} {i : Instruction} {target : Bool}
    (h : c.1.Switches c.2 Listener.lastExecuted c.2) (hi : c.1.retires = some i)
    (hask : i.switchTo? = none) (hreturn : i ≠ .jump .retEnable)
    (hlast : c.2.bind Instruction.switchTo? = some target) :
    (act Listener.lastExecuted c .step).1.cpu.ime = target :=
  (h.committed i target hi hask hreturn hlast).1

/-- In every state after a reset, whatever steps, ticks, requests and accesses have led to it, a change
of the master switch is under way exactly if the last instruction has asked for one, and it is due at
the next retirement.  The next step does to the switch what `Machine.Switches` says, a tick is some
number of steps, and a request does not touch the processor. -/
theorem switches_on_next_retirement (m : Console) {actions : List Action}
    (hactions : .reset ∉ actions) :
    let c := run Listener.lastExecuted (m.reset, none) actions
    (c.1.cpu.imeSwitch = match c.2.bind Instruction.switchTo? with
      | some target => .pending target 0
      | none => .idle) ∧
    (act Listener.lastExecuted c .step).2 = c.1.retires.or c.2 ∧
    c.1.Switches c.2 Listener.lastExecuted c.2 ∧
    (∀ elapsed, ∃ n, act Listener.lastExecuted c (.tick elapsed) =
      run Listener.lastExecuted c (List.replicate n .step)) ∧
    ∀ source, (act Listener.lastExecuted c (.request source)).1.cpu = c.1.cpu := by
  intro c
  have hswitch : c.1.cpu.imeSwitch = .inFlight c.2 := imeSwitch_eq_inFlight rfl hactions
  refine ⟨?_, ?_, ?_, fun elapsed => ?_, fun source => rfl⟩
  · rw [hswitch, PendingSwitch.inFlight_eq]
  · exact Machine.lastExecuted_step Bus.discreet c.1 c.2
  · exact Machine.switches_of_inFlight hswitch Listener.lastExecuted c.2
  · obtain ⟨n, hn⟩ := Machine.exists_stepMany_tick elapsed Listener.lastExecuted c.1 c.2
    exact ⟨n, hn.trans (stepMany_eq_run Listener.lastExecuted n c)⟩

/-- The processor when the first instruction of its program has enabled interrupts. -/
def enabling : Cpu := { Cpu.initial with pc := 0x101, cycles := 4, imeSwitch := .pending true 0 }

/-- After an instruction that enables interrupts the switch is still off, and the one after it turns
it on. -/
theorem switches_on_next_retirement_enable :
    let c := run Listener.lastExecuted ((playing [0xFB]).reset, none) [.request .timer, .step]
    c.1.cpu.imeSwitch = .pending true 0 ∧ c.1.cpu.ime = false ∧
      (act Listener.lastExecuted c .step).1.cpu.ime = true := by
  let bus : Bus VideoRam := (playing [0xFB]).memory.request .timer
  have hbus : bus.Plays [0xFB] := (plays_playing [0xFB]).request .timer
  -- The machines before and after each instruction are written out, and the steps between them
  -- verified.
  have henable : Executes ⟨.initial, bus⟩ (.misc .enableInterrupts) ⟨enabling, bus⟩ :=
    executes_of_plays _ hbus rfl rfl (by decide) rfl (by decide) rfl rfl
  have hnop : Executes ⟨enabling, bus⟩ (.control .nop)
      ⟨{ enabling with pc := 0x102, cycles := 8, ime := true, imeSwitch := .idle }, bus⟩ :=
    executes_of_plays _ hbus rfl rfl (by decide) rfl (by decide) rfl rfl
  have hrun : run Listener.lastExecuted ((playing [0xFB]).reset, none) [.request .timer, .step] =
      (⟨enabling, bus⟩, some (.misc .enableInterrupts)) := by
    rw [run, List.foldl_cons, List.foldl_cons, List.foldl_nil]
    exact henable.act_lastExecuted none
  have h := @switches_on_next_retirement (playing [0xFB]) [.request .timer, .step] (by simp)
  rw [hrun] at h ⊢
  obtain ⟨hswitch, -, hstep, -⟩ := h
  exact ⟨hswitch, rfl, ime_act_step_of_due hstep hnop.retires rfl (by decide) rfl⟩

end Console

end GameBoy
