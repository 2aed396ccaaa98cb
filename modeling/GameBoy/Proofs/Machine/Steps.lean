import GameBoy.Machine
import GameBoy.Proofs.Transaction.Access

/-!
# Steps and ticks

A step changes the memory by its accesses alone (`memory_step`), and a tick is some number of steps
(`exists_stepMany_runUntil`), also when it ends with a fault.  Whoever listens, a step does the same
(`step_of_step`), and so does a tick.  What every step preserves, steps and ticks preserve
(`stepMany_invariant`, `tick_invariant`).
-/

namespace GameBoy.Machine

variable {μ σ : Type} [Memory μ]

/-- The accesses that a step makes, the first one first. -/
def accesses (m : Machine μ) : List Access := (Execution.step.run m.cpu).accesses m.memory

/-- A step leaves the memory that its accesses make. -/
theorem memory_step (listener : Listener σ) (m : Machine μ) (s : σ) :
    (m.step listener s).2.1.memory = Access.performAll m.memory m.accesses :=
  Transaction.run_memory listener (Execution.step.run m.cpu) m.memory s

/-- A step does the same whoever listens. -/
theorem step_of_step {τ : Type} {listener : Listener σ} {m m' : Machine μ} {s s' : σ}
    {result : Except Fault UInt8} (h : m.step listener s = (result, m', s'))
    (listener' : Listener τ) (t : τ) : ∃ t', m.step listener' t = (result, m', t') := by
  have hheard := Transaction.run_eq_eval listener (Execution.step.run m.cpu) m.memory s
  have hother := Transaction.run_eq_eval listener' (Execution.step.run m.cpu) m.memory t
  -- Both steps are the step without a listener, with what was heard put back.
  rw [step, perform, hheard] at h
  rw [step, perform, hother]
  dsimp only at h ⊢
  rw [Prod.mk.injEq, Prod.mk.injEq] at h
  rw [h.1, h.2.1]
  exact ⟨_, rfl⟩

/-- The machine after a step does not depend on who listens. -/
theorem machine_step_eq {τ : Type} (listener : Listener σ) (listener' : Listener τ) (m : Machine μ)
    (s : σ) (t : τ) : (m.step listener s).2.1 = (m.step listener' t).2.1 := by
  rw [step, perform, step, perform, Transaction.run_eq_eval listener,
    Transaction.run_eq_eval listener']

/-- What an operation leaves of the machine and the listener, apart from its result.  Unlike a
projection it keeps a tick from being computed when two of them are compared. -/
def after {α : Type} (outcome : α × Machine μ × σ) : Machine μ × σ := outcome.2

/-- The machine and the listener after some steps, whether they succeed or not. -/
def stepMany (listener : Listener σ) : Nat → Machine μ × σ → Machine μ × σ
  | 0, c => c
  | n + 1, c => stepMany listener n (after (c.1.step listener c.2))

/-- Some steps and then some more. -/
theorem stepMany_add (listener : Listener σ) (i j : Nat) (c : Machine μ × σ) :
    stepMany listener (i + j) c = stepMany listener j (stepMany listener i c) := by
  induction i generalizing c with
  | zero => rw [Nat.zero_add, stepMany]
  | succ i ih => rw [Nat.succ_add, stepMany, ih, stepMany]

/-- What every step preserves some steps preserve. -/
theorem stepMany_invariant {P : Machine μ × σ → Prop} {listener : Listener σ}
    (hstep : ∀ c, P c → P (after (c.1.step listener c.2))) (n : Nat) {c : Machine μ × σ} (h : P c) :
    P (stepMany listener n c) := by
  induction n generalizing c with
  | zero => exact h
  | succ n ih => exact ih (hstep c h)

/-- The machine after some steps does not depend on who listens either. -/
theorem machine_stepMany_eq (n : Nat) (m : Machine μ) (listener : Listener σ) (s : σ) :
    (stepMany listener n (m, s)).1 = (stepMany Listener.deaf n (m, ())).1 := by
  induction n generalizing m s with
  | zero => rfl
  | succ n ih =>
    -- The listener's state is not the same, so the machines are compared step by step.
    have hmachine := machine_step_eq listener Listener.deaf m s ()
    show (stepMany listener n ((m.step listener s).2.1, (m.step listener s).2.2)).1 =
      (stepMany Listener.deaf n ((m.step Listener.deaf ()).2.1, ())).1
    rw [hmachine]
    exact ih _ _

/-! ## Rounds -/

/-- One step towards a target, without the bookkeeping of why the steps end. -/
private theorem runUntil_eq (target : UInt64) (listener : Listener σ) (m : Machine μ) (s : σ) :
    m.runUntil target listener s =
      if m.cpu.cycles < target then
        match m.step listener s with
        | (.error fault, after, s) => (.error fault, after, s)
        | (.ok _, after, s) =>
          if m.cpu.cycles < after.cpu.cycles then after.runUntil target listener s
          else (.ok (), after, s)
      else (.ok (), m, s) := by
  rw [runUntil]
  rfl

section Round

variable {target : UInt64} {listener : Listener σ} {m m' : Machine μ} {s s' : σ} {cycles : UInt8}

/-- At or above the target nothing is done. -/
theorem runUntil_of_reached (h : ¬m.cpu.cycles < target) :
    m.runUntil target listener s = (.ok (), m, s) := by
  rw [runUntil_eq, if_neg h]

/-- A step that fails ends the loop with its fault. -/
theorem runUntil_of_fault (hlt : m.cpu.cycles < target) {fault : Fault}
    (hstep : m.step listener s = (.error fault, m', s')) :
    m.runUntil target listener s = (.error fault, m', s') := by
  rw [runUntil_eq, if_pos hlt, hstep]

/-- After a step that moves the counter up the loop goes on from there. -/
theorem runUntil_of_up (hlt : m.cpu.cycles < target)
    (hstep : m.step listener s = (.ok cycles, m', s')) (hup : m.cpu.cycles < m'.cpu.cycles) :
    m.runUntil target listener s = m'.runUntil target listener s' := by
  rw [runUntil_eq, if_pos hlt, hstep]
  exact if_pos hup

/-- A counter that does not move up has run over the end of its range. -/
theorem runUntil_of_not_up (hlt : m.cpu.cycles < target)
    (hstep : m.step listener s = (.ok cycles, m', s')) (hup : ¬m.cpu.cycles < m'.cpu.cycles) :
    m.runUntil target listener s = (.ok (), m', s') := by
  rw [runUntil_eq, if_pos hlt, hstep]
  exact if_neg hup

end Round

/-- The number of steps that a machine performs towards a target.  A step that fails counts, and so
does one that runs the counter over the end of its range; either is the last one. -/
def stepsUntil (target : UInt64) (m : Machine μ) : Nat :=
  if _ : m.cpu.cycles < target then
    match (m.step Listener.deaf ()).1 with
    | .error _ => 1
    | .ok _ =>
      if _ : m.cpu.cycles < (m.step Listener.deaf ()).2.1.cpu.cycles then
        stepsUntil target (m.step Listener.deaf ()).2.1 + 1
      else 1
  else 0
termination_by target.toNat - m.cpu.cycles.toNat
decreasing_by
  simp_all only [UInt64.lt_iff_toNat_lt]
  omega

section Count

variable {target : UInt64} {m : Machine μ} {fault : Fault} {cycles : UInt8}

/-- At or above the target there are no steps. -/
theorem stepsUntil_of_reached (h : ¬m.cpu.cycles < target) : m.stepsUntil target = 0 := by
  rw [stepsUntil, dif_neg h]

/-- A step that fails is the last one. -/
theorem stepsUntil_of_fault (hlt : m.cpu.cycles < target)
    (hstep : (m.step Listener.deaf ()).1 = .error fault) : m.stepsUntil target = 1 := by
  rw [stepsUntil, dif_pos hlt]
  simp only [hstep]

/-- A step that moves the counter up counts as one, and the others follow. -/
theorem stepsUntil_of_up (hlt : m.cpu.cycles < target)
    (hstep : (m.step Listener.deaf ()).1 = .ok cycles)
    (hup : m.cpu.cycles < (m.step Listener.deaf ()).2.1.cpu.cycles) :
    m.stepsUntil target = (m.step Listener.deaf ()).2.1.stepsUntil target + 1 := by
  rw [stepsUntil, dif_pos hlt]
  simp only [hstep]
  exact dif_pos hup

/-- A step that runs over the end of the range is the last one. -/
theorem stepsUntil_of_not_up (hlt : m.cpu.cycles < target)
    (hstep : (m.step Listener.deaf ()).1 = .ok cycles)
    (hup : ¬m.cpu.cycles < (m.step Listener.deaf ()).2.1.cpu.cycles) :
    m.stepsUntil target = 1 := by
  rw [stepsUntil, dif_pos hlt]
  simp only [hstep]
  exact dif_neg hup

end Count

/-- Going towards a target is performing that number of steps.  The result does not depend on who
listens. -/
theorem runUntil_eq_stepMany (target : UInt64) (m : Machine μ) :
    ∀ {σ : Type} (listener : Listener σ) (s : σ),
      (m.runUntil target listener s).1 = (m.runUntil target Listener.deaf ()).1 ∧
      after (m.runUntil target listener s) = stepMany listener (m.stepsUntil target) (m, s) := by
  -- The cases are the ways in which a round of the loop can go if nobody listens.
  refine runUntil.induct target Listener.deaf
    (fun m _ => ∀ {σ : Type} (listener : Listener σ) (s : σ),
      (m.runUntil target listener s).1 = (m.runUntil target Listener.deaf ()).1 ∧
      after (m.runUntil target listener s) = stepMany listener (m.stepsUntil target) (m, s))
    ?fault ?more ?stuck ?reached m ()
  case fault =>
    intro m _ before _ hlt fault after s'' hstep σ listener s
    obtain ⟨t, ht⟩ := step_of_step hstep listener s
    rw [runUntil_of_fault hlt hstep, runUntil_of_fault hlt ht,
      stepsUntil_of_fault hlt (congrArg Prod.fst hstep), stepMany, stepMany, ht]
    exact ⟨rfl, rfl⟩
  case more =>
    intro m _ before _ hlt cycles after s'' hstep hmore ih σ listener s
    obtain ⟨t, ht⟩ := step_of_step hstep listener s
    have hup : m.cpu.cycles < (m.step Listener.deaf ()).2.1.cpu.cycles := by rwa [hstep]
    rw [runUntil_of_up hlt hstep hmore, runUntil_of_up hlt ht hmore,
      stepsUntil_of_up hlt (congrArg Prod.fst hstep) hup, hstep, stepMany, ht]
    exact ih listener t
  case stuck =>
    intro m _ before _ hlt cycles after s'' hstep hstuck σ listener s
    obtain ⟨t, ht⟩ := step_of_step hstep listener s
    have hup : ¬m.cpu.cycles < (m.step Listener.deaf ()).2.1.cpu.cycles := by rwa [hstep]
    rw [runUntil_of_not_up hlt hstep hstuck, runUntil_of_not_up hlt ht hstuck,
      stepsUntil_of_not_up hlt (congrArg Prod.fst hstep) hup, stepMany, stepMany, ht]
    exact ⟨rfl, rfl⟩
  case reached =>
    intro m _ before _ hge σ listener s
    rw [runUntil_of_reached hge, runUntil_of_reached hge, stepsUntil_of_reached hge, stepMany]
    exact ⟨rfl, rfl⟩

/-- Going towards a target is performing some number of steps.  Neither their number nor the result
depends on who listens. -/
theorem exists_stepMany_runUntil (target : UInt64) (m : Machine μ) :
    ∃ n, ∀ {σ : Type} (listener : Listener σ) (s : σ),
      (m.runUntil target listener s).1 = (m.runUntil target Listener.deaf ()).1 ∧
      after (m.runUntil target listener s) = stepMany listener n (m, s) :=
  ⟨m.stepsUntil target, runUntil_eq_stepMany target m⟩

/-- A tick whose cycles fit in the counter aims at the counter plus these cycles. -/
theorem toNat_target_of_fits {cpu : Cpu} {elapsed : Duration}
    (hfits : cpu.cycles.toNat + elapsed.clockCycles.toNat < UInt64.size) :
    (cpu.target elapsed).toNat = cpu.cycles.toNat + elapsed.clockCycles.toNat := by
  have hsum : (cpu.cycles + elapsed.clockCycles).toNat =
      cpu.cycles.toNat + elapsed.clockCycles.toNat := by
    rw [UInt64.toNat_add]
    exact Nat.mod_eq_of_lt hfits
  -- A sum that fits is not below a summand, so the target is not cut.
  have hlt : ¬cpu.cycles + elapsed.clockCycles < cpu.cycles := by
    rw [UInt64.lt_iff_toNat_lt, hsum]
    omega
  rw [Cpu.target, if_neg hlt, hsum]

/-- A tick is some number of steps. -/
theorem exists_stepMany_tick (elapsed : Duration) (listener : Listener σ) (m : Machine μ) (s : σ) :
    ∃ n, after (m.tick elapsed listener s) = stepMany listener n (m, s) :=
  (exists_stepMany_runUntil _ m).imp fun _ hn => (hn listener s).2

/-- What every step preserves a tick preserves, whether it completes or ends with a fault. -/
theorem tick_invariant {P : Machine μ × σ → Prop} {listener : Listener σ}
    (hstep : ∀ c, P c → P (after (c.1.step listener c.2))) {c : Machine μ × σ} (h : P c)
    (elapsed : Duration) : P (after (c.1.tick elapsed listener c.2)) := by
  -- How many steps the tick takes does not matter.
  obtain ⟨n, hn⟩ := exists_stepMany_tick elapsed listener c.1 c.2
  rw [hn]
  exact stepMany_invariant hstep n h

end GameBoy.Machine
