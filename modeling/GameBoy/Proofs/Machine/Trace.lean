import GameBoy.Proofs.Machine.Outcome
import GameBoy.Proofs.Machine.Reports

/-!
# What is heard of instructions

A step announces an instruction right before it executes it, and nothing else that happens in the
machine is announced like that.  So a listener that keeps to such events (`Listener.Selective`) hears
one event for every step in which an instruction retires and none for any other step
(`Machine.heard_step`).
-/

namespace GameBoy

variable {α β μ σ : Type}

/-- Whether an event announces an instruction. -/
def Event.IsExecuting : Event → Prop
  | executing .. => True
  | _ => False

/-- The listener takes no notice of anything but the instructions that execute. -/
def Listener.Selective (listener : Listener σ) : Prop :=
  ∀ s event, ¬event.IsExecuting → listener s event = s

/-- A memory whose accesses are not reported as instructions. -/
structure Memory.Discreet (μ : Type) [Memory μ] : Prop where
  readEvents : ∀ (m : μ) addr, ∀ event ∈ Memory.readEvents m addr, ¬event.IsExecuting
  writeEvents : ∀ (m : μ) addr value, ∀ event ∈ Memory.writeEvents m addr value, ¬event.IsExecuting

/-- No report of an access announces an instruction. -/
theorem Event.IsOfAccess.not_isExecuting {event : Event} (h : event.IsOfAccess) :
    ¬event.IsExecuting := by
  cases event <;> first | exact not_false | exact absurd h not_false

/-- The bus reports its accesses and no instructions. -/
theorem Bus.discreet {V : Type} [VideoDevice V] : Memory.Discreet (Bus V) where
  readEvents bus addr event hmem := (Bus.isOfAccess_readEvents bus addr event hmem).not_isExecuting
  writeEvents bus addr value event hmem :=
    (Bus.isOfAccess_writeEvents bus addr value event hmem).not_isExecuting

/-! ## Transactions -/

/-- Whatever it reads, the transaction announces no instruction. -/
def Transaction.Silent : Transaction α → Prop
  | done _ => True
  | read _ next => ∀ b, (next b).Silent
  | write _ _ next => next.Silent
  | poll next => ∀ b, (next b).Silent
  | acknowledge _ next => next.Silent
  | report event next => ¬event.IsExecuting ∧ next.Silent

/-- To be silent is to report nothing that announces an instruction. -/
theorem Transaction.silent_iff_reports {t : Transaction α} :
    t.Silent ↔ t.Reports fun event => ¬event.IsExecuting := by
  induction t with
  | done a => exact Iff.rfl
  | read addr next ih => exact forall_congr' ih
  | write addr value next ih => exact ih
  | poll next ih => exact forall_congr' ih
  | acknowledge source next ih => exact ih
  | report event next ih => exact and_congr Iff.rfl ih

namespace Transaction.Silent

variable {t : Transaction α}

/-- A sequence of silent parts is silent. -/
theorem bind {f : α → Transaction β} (ht : t.Silent) (hf : ∀ a, (f a).Silent) :
    (t >>= f).Silent := by
  rw [silent_iff_reports] at ht ⊢
  exact ht.bind fun a => silent_iff_reports.mp (hf a)

/-- A silent transaction leaves a selective listener as it is. -/
theorem run [Memory μ] (h : t.Silent) (hμ : Memory.Discreet μ) {listener : Listener σ}
    (hlistener : listener.Selective) (m : μ) (s : σ) : (t.run listener m s).2.2 = s := by
  rw [silent_iff_reports] at h
  exact h.ignores_run ⟨hμ.readEvents, hμ.writeEvents⟩ hlistener m s

end Transaction.Silent

/-- A read announces nothing by itself. -/
theorem Transaction.silent_readByte (addr : UInt16) : (readByte addr).Silent := fun _ => trivial

/-- A write announces nothing by itself. -/
theorem Transaction.silent_writeByte (addr : UInt16) (value : UInt8) :
    (writeByte addr value).Silent := trivial

namespace Execution

/-- Whatever the processor holds and the memory answers, no instruction is announced. -/
structure Silent (e : Execution α) : Prop where
  run : ∀ cpu, (e.run cpu).Silent

/-- What is built from the accesses alone is silent. -/
theorem uniform_silent : Uniform Silent where
  pure _ := ⟨fun _ => trivial⟩
  bind he hf := ⟨fun cpu => (he.run cpu).bind fun r => (hf r.1).run r.2⟩
  get := ⟨fun _ => trivial⟩
  modifyGet _ _ := ⟨fun _ => trivial⟩
  readByte _ := ⟨fun _ _ => trivial⟩
  writeByte _ _ := ⟨fun _ => trivial⟩

/-- A change to the processor announces nothing. -/
theorem silent_modify (f : Cpu → Cpu) : (modify f : Execution Unit).Silent := ⟨fun _ => trivial⟩

/-- A fetch reports an undefined op code and announces nothing. -/
theorem silent_fetch : fetch.Silent :=
  uniform_fetch uniform_silent fun _ _ => ⟨fun _ => ⟨not_false, trivial⟩⟩

/-- An instruction does not announce another one. -/
theorem silent_carryOut (i : Instruction) (operand : UInt16) : (carryOut i operand).Silent := by
  have h := uniform_silent
  -- The program counter, the effect and the retirement, none of which reports an instruction.
  refine h.bind (silent_modify _) fun _ => ?_
  refine h.bind (uniform_execute h silent_modify i operand) fun cycles => ?_
  exact h.bind (silent_modify _) fun _ => h.pure _

end Execution

/-! ## Steps -/

namespace Machine

variable [Memory μ] {listener : Listener σ}

/-- A silent execution leaves a selective listener as it is. -/
theorem heard_perform (hμ : Memory.Discreet μ) (hlistener : listener.Selective)
    {e : Execution α} (he : e.Silent) (m : Machine μ) (s : σ) :
    (m.perform e listener s).2.2 = s :=
  (he.run m.cpu).run hμ hlistener m.memory s

/-- A selective listener hears of the instruction that retires in a step, with the registers from
before it, and of nothing else. -/
theorem heard_step (hμ : Memory.Discreet μ) (hlistener : listener.Selective) (m : Machine μ)
    (s : σ) :
    (m.step listener s).2.2 =
      match m.duty, m.fetched with
      | .execute, some d => listener s (.executing m.cpu.dump d)
      | _, _ => s := by
  cases hduty : m.duty with
  | serve source =>
    unfold duty at hduty
    -- The service is reported, but as what it is.
    have hserve : ((Execution.serve source).run m.awake.cpu >>= fun r =>
        pure (Except.ok (ε := Fault) interruptCycles, r.2)).Silent := ⟨not_false, trivial⟩
    rw [step, perform, Execution.run_step]
    simp only [Transaction.run, hduty]
    exact hserve.run hμ hlistener m.memory s
  | sleep => rw [step_of_sleep hduty]
  | execute =>
    -- Up to the announcement the listener stays as it is.
    have hfetch := heard_perform hμ hlistener Execution.silent_fetch m.awake s
    obtain ⟨s', hs⟩ := perform_fetch m.awake listener s
    rw [fetched_awake] at hs
    rw [hs] at hfetch
    obtain rfl : s' = s := hfetch
    rw [step_of_execute hduty, Execution.executeNext_eq, perform_bind, hs]
    cases hfetched : m.fetched with
    | none => rfl
    | some d =>
      -- After the announcement the operand is read and the instruction is carried out.
      have hsilent : (Execution.fetchOperand d.instruction >>=
          Execution.carryOut d.instruction).Silent :=
        Execution.uniform_silent.bind
          (Execution.uniform_fetchOperand Execution.uniform_silent d.instruction)
          (Execution.silent_carryOut d.instruction)
      exact heard_perform hμ hlistener hsilent m.awake _

end Machine

end GameBoy
