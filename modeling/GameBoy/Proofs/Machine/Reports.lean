import GameBoy.Bus
import GameBoy.Proofs.Cpu.Step

/-!
# Reports of a machine

A step reports the service of an interrupt, an undefined op code, or the instruction that is about to
execute, and besides what its accesses are reported with (`Event.IsOfMachine`).  So a listener that
ignores such events is after any step, and after any tick, as it was before (`Machine.ignores_step`,
`Machine.ignores_tick`).
-/

namespace GameBoy

variable {α β μ σ : Type} {P : Event → Prop}

/-- The events that accesses to memory are reported with. -/
def Event.IsOfAccess : Event → Prop
  | romWriteIgnored .. | romBankSelected _ | bankingModeIgnored _ | unmappedRead _
  | unmappedWrite .. | workRamBankSelected _ | videoBankSelected _ | spriteCopy _ => True
  | _ => False

/-- The events that a step is reported with. -/
def Event.IsOfMachine : Event → Prop
  | interruptServiced .. | undefinedOpcode .. | executing .. => True
  | event => event.IsOfAccess

/-- A step is reported with its accesses as well. -/
theorem Event.IsOfAccess.isOfMachine {event : Event} (h : event.IsOfAccess) : event.IsOfMachine := by
  cases event <;> first | exact h | trivial

/-! ## Listeners -/

/-- The listener takes no notice of some events. -/
def Listener.Ignores (listener : Listener σ) (P : Event → Prop) : Prop :=
  ∀ s event, P event → listener s event = s

/-- What is ignored one by one is ignored all together. -/
theorem Listener.Ignores.hear {listener : Listener σ} (h : listener.Ignores P) {events : List Event}
    (hevents : ∀ event ∈ events, P event) (s : σ) : listener.hear s events = s := by
  induction events generalizing s with
  | nil => rfl
  | cons event rest ih =>
    rw [List.forall_mem_cons] at hevents
    show Listener.hear listener (listener s event) rest = s
    rw [h s event hevents.1]
    exact ih hevents.2 s

/-- A memory whose accesses are reported with some events only. -/
structure Memory.Reports (P : Event → Prop) (μ : Type) [Memory μ] : Prop where
  readEvents : ∀ (m : μ) addr, ∀ event ∈ Memory.readEvents m addr, P event
  writeEvents : ∀ (m : μ) addr value, ∀ event ∈ Memory.writeEvents m addr value, P event

/-- Reports with some events only are reports with more events. -/
theorem Memory.Reports.mono [Memory μ] {Q : Event → Prop} (h : Memory.Reports P μ)
    (hle : ∀ event, P event → Q event) : Memory.Reports Q μ where
  readEvents m addr event hmem := hle event (h.readEvents m addr event hmem)
  writeEvents m addr value event hmem := hle event (h.writeEvents m addr value event hmem)

/-! ## Transactions -/

/-- Whatever it reads, the transaction itself reports some events only. -/
def Transaction.Reports (P : Event → Prop) : Transaction α → Prop
  | done _ => True
  | read _ next => ∀ b, (next b).Reports P
  | write _ _ next => next.Reports P
  | poll next => ∀ b, (next b).Reports P
  | acknowledge _ next => next.Reports P
  | report event next => P event ∧ next.Reports P

namespace Transaction.Reports

variable {t : Transaction α}

/-- A sequence reports what its parts report. -/
theorem bind {f : α → Transaction β} (ht : t.Reports P) (hf : ∀ a, (f a).Reports P) :
    (t >>= f).Reports P := by
  show (t.bind f).Reports P
  -- Over the first part; the second one comes at its end.
  induction t with
  | done a => exact hf a
  | read addr next ih => exact fun b => ih b (ht b)
  | write addr value next ih => exact ih ht
  | poll next ih => exact fun b => ih b (ht b)
  | acknowledge source next ih => exact ih ht
  | report event next ih => exact ⟨ht.1, ih ht.2⟩

/-- A listener that ignores what is reported stays as it is. -/
theorem ignores_run [Memory μ] (h : t.Reports P) (hμ : Memory.Reports P μ) {listener : Listener σ}
    (hlistener : listener.Ignores P) (m : μ) (s : σ) : (t.run listener m s).2.2 = s := by
  -- Over the transaction: reports of the memory and reports of its own are ignored alike.
  induction t generalizing m s with
  | done a => rfl
  | read addr next ih =>
    rw [Transaction.run, hlistener.hear (hμ.readEvents m addr)]
    exact ih _ (h _) m s
  | write addr value next ih =>
    rw [Transaction.run, hlistener.hear (hμ.writeEvents m addr value)]
    exact ih h _ s
  | poll next ih => exact ih _ (h _) m s
  | acknowledge source next ih => exact ih h _ s
  | report event next ih =>
    rw [Transaction.run, hlistener s event h.1]
    exact ih h.2 m s

end Transaction.Reports

/-! ## Executions -/

namespace Execution

/-- Whatever the processor holds and the memory answers, some events only are reported. -/
structure Reports (P : Event → Prop) (e : Execution α) : Prop where
  run : ∀ cpu, (e.run cpu).Reports P

/-- The building blocks of instructions report nothing themselves. -/
theorem uniform_reports (P : Event → Prop) : Uniform (Reports P) where
  pure _ := ⟨fun _ => trivial⟩
  bind he hf := ⟨fun cpu => (he.run cpu).bind fun r => (hf r.1).run r.2⟩
  get := ⟨fun _ => trivial⟩
  modifyGet _ _ := ⟨fun _ => trivial⟩
  readByte _ := ⟨fun _ _ => trivial⟩
  writeByte _ _ := ⟨fun _ => trivial⟩

/-- What is done to the processor is not reported. -/
theorem reports_modify (f : Cpu → Cpu) : (modify f : Execution Unit).Reports P := ⟨fun _ => trivial⟩

/-- A single report. -/
theorem reports_reportEvent {event : Event} (h : P event) :
    Reports P (Transaction.reportEvent event : Transaction Unit) := ⟨fun _ => ⟨h, trivial⟩⟩

/-- An instruction reports nothing but what its accesses are reported with. -/
theorem reports_carryOut (P : Event → Prop) (i : Instruction) (operand : UInt16) :
    (carryOut i operand).Reports P := by
  have h := uniform_reports P
  refine h.bind (reports_modify _) fun _ => ?_
  refine h.bind (uniform_execute h reports_modify i operand) fun cycles => ?_
  exact h.bind (reports_modify _) fun _ => h.pure _

/-- Executing an instruction reports it, or its undefined op code. -/
theorem reports_executeNext : executeNext.Reports Event.IsOfMachine := by
  have h := uniform_reports Event.IsOfMachine
  rw [executeNext_eq]
  refine h.bind (uniform_fetch h fun _ _ => reports_reportEvent trivial) fun fetched => ?_
  split
  · exact h.pure _
  · refine h.bind h.get fun cpu => h.bind (reports_reportEvent trivial) fun _ => ?_
    refine h.bind (uniform_fetchOperand h _) fun operand => ?_
    exact reports_carryOut _ _ operand

/-- A step reports a service, or what its instruction reports. -/
theorem reports_step : step.Reports Event.IsOfMachine where
  run cpu := by
    rw [run_step]
    intro active
    dsimp only
    split
    · exact ⟨trivial, trivial⟩
    · trivial
    · -- As a variable the execution is not computed when its reports are asked for.
      have h := reports_executeNext
      generalize executeNext = e at h ⊢
      exact h.run (cpu.wake active)

end Execution

/-! ## Machines -/

namespace Machine

variable [Memory μ] {listener : Listener σ}

/-- A listener that ignores such events is not changed by a step. -/
theorem ignores_step (hμ : Memory.Reports Event.IsOfAccess μ)
    (hlistener : listener.Ignores Event.IsOfMachine) (m : Machine μ) (s : σ) :
    (m.step listener s).2.2 = s :=
  (Execution.reports_step.run m.cpu).ignores_run (hμ.mono fun _ h => h.isOfMachine) hlistener
    m.memory s

/-- A listener that ignores such events is not changed by a tick. -/
theorem ignores_tick (hμ : Memory.Reports Event.IsOfAccess μ)
    (hlistener : listener.Ignores Event.IsOfMachine) (elapsed : Duration) (m : Machine μ) (s : σ) :
    (after (m.tick elapsed listener s)).2 = s := by
  refine tick_invariant (P := fun c => c.2 = s) (c := (m, s)) ?_ rfl elapsed
  rintro ⟨m, _⟩ rfl
  exact ignores_step hμ hlistener m _

end Machine

/-! ## The bus -/

namespace Bus

variable {V : Type}

/-- Reads of the bus are reported with such events. -/
theorem isOfAccess_readEvents (bus : Bus V) (addr : UInt16) :
    ∀ event ∈ bus.readEvents addr, event.IsOfAccess := by
  intro event hmem
  unfold Bus.readEvents at hmem
  split at hmem
  · cases List.mem_singleton.mp hmem; trivial
  · cases List.mem_singleton.mp hmem; trivial
  · cases hmem

/-- Writes to a cartridge are reported with such events. -/
private theorem isOfAccess_controller (c : Controller) (addr : UInt16) (value : UInt8) :
    ∀ event ∈ c.writeEvents addr value, event.IsOfAccess := by
  intro event hmem
  cases c with
  | direct ram =>
    simp only [Controller.writeEvents] at hmem
    split at hmem
    · cases hmem
    · cases List.mem_singleton.mp hmem; trivial
  | mbc1 chip =>
    simp only [Controller.writeEvents, Mbc1.writeEvents] at hmem
    -- One range of addresses after the other; two of them report what was written.
    split at hmem; · cases hmem
    split at hmem; · cases List.mem_singleton.mp hmem; trivial
    split at hmem; · cases hmem
    split at hmem
    · cases List.mem_singleton.mp hmem; trivial
    · cases hmem

/-- Writes to the bus are reported with such events. -/
theorem isOfAccess_writeEvents [VideoDevice V] (bus : Bus V) (addr : UInt16) (value : UInt8) :
    ∀ event ∈ bus.writeEvents addr value, event.IsOfAccess := by
  intro event hmem
  cases hregion : Region.of bus.model addr <;> simp only [Bus.writeEvents, hregion] at hmem
  case cartridge => exact isOfAccess_controller _ addr value event hmem
  case spriteCopy =>
    -- A copy reads a page through the bus, with the reports of each read.
    rcases List.mem_cons.mp hmem with rfl | hmem
    · trivial
    · obtain ⟨source, -, hread⟩ := List.mem_flatMap.mp hmem
      exact isOfAccess_readEvents bus source event hread
  case videoBank | workRamBank | scanline | unmapped =>
    cases List.mem_singleton.mp hmem; trivial
  all_goals cases hmem

/-- The bus reports accesses and nothing else. -/
theorem reports [VideoDevice V] : Memory.Reports Event.IsOfAccess (Bus V) where
  readEvents := isOfAccess_readEvents
  writeEvents := isOfAccess_writeEvents

end Bus

end GameBoy
