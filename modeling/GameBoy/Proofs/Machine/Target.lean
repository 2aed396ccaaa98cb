import GameBoy.Proofs.Machine.Budget

/-!
# The target of a tick

A tick steps until the cycle counter reaches a target.  The sum that makes the target stays at the end
of the counter's range instead of wrapping (`Cpu.toNat_target`), but the cycles of the elapsed time
have been cut to 64 bits before (`Duration.toNat_clockCycles`).  So the target is what one expects
exactly for times that are shorter than `Duration.counterSpan`, the time in which the counter goes
round once; among these a longer time never makes the target lower or the steps fewer
(`Machine.tick_until_target`).  A tick of just that length does nothing
(`Machine.not_target_saturates`).

A tick in which neither the target nor a step goes past the end of the range (`Machine.Fits`) spends
its budget and at most the cycles of one step more (`Machine.Fits.cycles`).
-/

namespace GameBoy

/-! ## Cycles of a span of time -/

namespace Duration

/-- The nanoseconds in which a cycle counter of 64 bits goes round once. -/
def counterSpan : Nat := UInt64.size / clockSpeed * nanosecondsPerSecond

/-- The cycles of a span of time fit in 64 bits exactly if it is shorter than the counter's. -/
theorem budget_lt_iff {d : Duration} : d.budget < UInt64.size ↔ d.nanoseconds < counterSpan := by
  rw [budget, Nat.div_lt_iff_lt_mul (by decide)]
  -- The clock speed is a power of two and divides the range of the counter.
  simp only [clockSpeed, counterSpan, nanosecondsPerSecond, UInt64.size]
  omega

/-- A longer time has no fewer cycles. -/
theorem budget_le_budget {d d' : Duration} (h : d.nanoseconds ≤ d'.nanoseconds) :
    d.budget ≤ d'.budget :=
  Nat.div_le_div_right (Nat.mul_le_mul_right clockSpeed h)

/-- The cycles are counted in 64 bits; what does not fit is lost. -/
theorem toNat_clockCycles (d : Duration) : d.clockCycles.toNat = d.budget % UInt64.size :=
  UInt64.toNat_ofNat'

/-- Below the counter's span no cycles are lost. -/
theorem toNat_clockCycles_of_lt {d : Duration} (h : d.nanoseconds < counterSpan) :
    d.clockCycles.toNat = d.budget := by
  rw [toNat_clockCycles, Nat.mod_eq_of_lt (budget_lt_iff.mpr h)]

end Duration

/-! ## The target -/

namespace Cpu

variable {cpu : Cpu} {elapsed longer : Duration}

/-- The sum of the counter and the cycles to spend saturates. -/
theorem toNat_target (cpu : Cpu) (elapsed : Duration) :
    (cpu.target elapsed).toNat =
      min (UInt64.size - 1) (cpu.cycles.toNat + elapsed.clockCycles.toNat) := by
  have hcycles := cpu.cycles.toNat_lt
  have hspent := elapsed.clockCycles.toNat_lt
  have hsum : (cpu.cycles + elapsed.clockCycles).toNat =
      (cpu.cycles.toNat + elapsed.clockCycles.toNat) % UInt64.size := UInt64.toNat_add ..
  simp only [target, UInt64.lt_iff_toNat_lt, hsum]
  simp only [UInt64.size] at *
  -- A sum that is less than a summand has wrapped, and it wraps at most once.
  split
  · rw [UInt64.toNat_ofNat_of_lt' (by decide)]
    omega
  · omega

/-- Below the counter's span the target is the expected one. -/
theorem toNat_target_of_lt (h : elapsed.nanoseconds < Duration.counterSpan) :
    (cpu.target elapsed).toNat = min (UInt64.size - 1) (cpu.cycles.toNat + elapsed.budget) := by
  rw [toNat_target, Duration.toNat_clockCycles_of_lt h]

/-- Below the counter's span a longer time has no lower target. -/
theorem target_le_target (h : elapsed.nanoseconds ≤ longer.nanoseconds)
    (hlonger : longer.nanoseconds < Duration.counterSpan) :
    cpu.target elapsed ≤ cpu.target longer := by
  have hbudget := Duration.budget_le_budget h
  rw [UInt64.le_iff_toNat_le, toNat_target_of_lt hlonger,
    toNat_target_of_lt (Nat.lt_of_le_of_lt h hlonger)]
  omega

end Cpu

/-! ## Steps towards a target -/

namespace Machine

variable {μ : Type} [Memory μ] {m : Machine μ} {target later : UInt64}

/-- A later target is never reached in fewer steps. -/
theorem stepsUntil_le_stepsUntil (h : target ≤ later) (m : Machine μ) :
    m.stepsUntil target ≤ m.stepsUntil later := by
  -- As long as the counter is below the earlier target, both loops take the same steps.
  refine stepsUntil.induct target (fun m => m.stepsUntil target ≤ m.stepsUntil later)
    ?fault ?more ?stuck ?reached m
  case fault =>
    intro m hlt fault hstep
    apply Nat.le_of_eq
    rw [stepsUntil_of_fault hlt hstep, stepsUntil_of_fault (UInt64.lt_of_lt_of_le hlt h) hstep]
  case more =>
    intro m hlt cycles hstep hup ih
    rw [stepsUntil_of_up hlt hstep hup, stepsUntil_of_up (UInt64.lt_of_lt_of_le hlt h) hstep hup]
    apply Nat.succ_le_succ ih
  case stuck =>
    intro m hlt cycles hstep hup
    apply Nat.le_of_eq
    rw [stepsUntil_of_not_up hlt hstep hup,
      stepsUntil_of_not_up (UInt64.lt_of_lt_of_le hlt h) hstep hup]
  case reached =>
    intro m hge
    rw [stepsUntil_of_reached hge]
    apply Nat.zero_le

/-- Before each of these steps the counter is below the target. -/
theorem lt_of_lt_stepsUntil (target : UInt64) (m : Machine μ) :
    ∀ k < m.stepsUntil target, (stepMany Listener.deaf k (m, ())).1.cpu.cycles < target := by
  refine stepsUntil.induct target
    (fun m => ∀ k < m.stepsUntil target, (stepMany Listener.deaf k (m, ())).1.cpu.cycles < target)
    ?fault ?more ?stuck ?reached m
  case fault =>
    intro m hlt fault hstep k hk
    rw [stepsUntil_of_fault hlt hstep] at hk
    obtain rfl : k = 0 := by omega
    exact hlt
  case more =>
    intro m hlt cycles hstep hup ih k hk
    rw [stepsUntil_of_up hlt hstep hup] at hk
    cases k with
    | zero => exact hlt
    | succ k =>
      -- The steps from the next machine on are counted from zero again.
      show (stepMany Listener.deaf k (m.step Listener.deaf ()).2).1.cpu.cycles < target
      exact ih k (by omega)
  case stuck =>
    intro m hlt cycles hstep hup k hk
    rw [stepsUntil_of_not_up hlt hstep hup] at hk
    obtain rfl : k = 0 := by omega
    exact hlt
  case reached =>
    intro m hge k hk
    rw [stepsUntil_of_reached hge] at hk
    omega

/-- Steps towards a target that end without a fault have reached it, unless one of them has run the
counter over the end of its range. -/
theorem reaches_or_overruns {σ : Type} {listener : Listener σ} {s : σ}
    (hok : (m.runUntil target listener s).1 = .ok ()) :
    target ≤ (after (m.runUntil target listener s)).1.cpu.cycles ∨
      ∃ k cycles,
        ((stepMany listener k (m, s)).1.step listener (stepMany listener k (m, s)).2).1 =
          .ok cycles ∧
        UInt64.size ≤ (stepMany listener k (m, s)).1.cpu.cycles.toNat + cycles.toNat := by
  rcases hrun : m.runUntil target listener s with ⟨result, m', s'⟩
  rw [hrun] at hok
  obtain rfl : result = .ok () := hok
  rcases UInt64.lt_or_le m'.cpu.cycles target with hshort | hreached
  · exact .inr (overruns_runUntil hrun hshort)
  · exact .inl hreached

/-! ## Ticks in which nothing overflows -/

/-- None of the steps towards a target runs the counter over the end of its range. -/
def Rises (m : Machine μ) (target : UInt64) : Prop :=
  ∀ k < m.stepsUntil target, (stepMany Listener.deaf k (m, ())).1.cpu.cycles ≤
    (stepMany Listener.deaf (k + 1) (m, ())).1.cpu.cycles

/-- A loop that rises still rises after its first step. -/
theorem Rises.tail {cycles : UInt8} (h : m.Rises target) (hlt : m.cpu.cycles < target)
    (hstep : (m.step Listener.deaf ()).1 = .ok cycles)
    (hup : m.cpu.cycles < (m.step Listener.deaf ()).2.1.cpu.cycles) :
    (m.step Listener.deaf ()).2.1.Rises target := by
  intro k hk
  apply h (k + 1)
  rw [stepsUntil_of_up hlt hstep hup]
  omega

/-- A step that succeeds and does not move the counter down counts its cycles. -/
theorem toNat_cycles_of_le {cycles : UInt8} (hstep : (m.step Listener.deaf ()).1 = .ok cycles)
    (hle : m.cpu.cycles ≤ (m.step Listener.deaf ()).2.1.cpu.cycles) :
    (m.step Listener.deaf ()).2.1.cpu.cycles.toNat = m.cpu.cycles.toNat + cycles.toNat := by
  obtain ⟨hmem, hcycles⟩ := cycles_of_ok hstep
  have hcost := (Instruction.toNat_of_mem_stepCosts hmem).2.1
  have hpos := Instruction.pos_of_mem_stepCosts hmem
  have hbefore := m.cpu.cycles.toNat_lt
  have hsum : (m.step Listener.deaf ()).2.1.cpu.cycles.toNat =
      (m.cpu.cycles.toNat + cycles.toNat) % UInt64.size := by
    rw [hcycles, UInt64.toNat_add, UInt8.toNat_toUInt64]
  rw [UInt64.le_iff_toNat_le] at hle
  -- A sum that has wrapped is less than a summand.
  simp only [UInt64.size] at hsum
  omega

/-- A loop whose counter rises reaches its target, and goes past it by less than the cycles of its last
step. -/
theorem cycles_runUntil (hrises : m.Rises target) (hstart : m.cpu.cycles.toNat ≤ target.toNat + 23)
    (hok : (m.runUntil target Listener.deaf ()).1 = .ok ()) :
    target.toNat ≤ (after (m.runUntil target Listener.deaf ())).1.cpu.cycles.toNat ∧
      (after (m.runUntil target Listener.deaf ())).1.cpu.cycles.toNat ≤ target.toNat + 23 := by
  revert hrises hstart hok
  refine stepsUntil.induct target (fun m => m.Rises target →
      m.cpu.cycles.toNat ≤ target.toNat + 23 → (m.runUntil target Listener.deaf ()).1 = .ok () →
      target.toNat ≤ (after (m.runUntil target Listener.deaf ())).1.cpu.cycles.toNat ∧
        (after (m.runUntil target Listener.deaf ())).1.cpu.cycles.toNat ≤ target.toNat + 23)
    ?fault ?more ?stuck ?reached m
  case fault =>
    intro m hlt fault hstep _ _ hok
    rw [runUntil_of_fault hlt (Prod.ext hstep rfl)] at hok
    cases hok
  case more =>
    intro m hlt cycles hstep hup ih hrises _ hok
    have hcost := (Instruction.toNat_of_mem_stepCosts (cycles_of_ok hstep).1).2.1
    have hcycles := toNat_cycles_of_le hstep (UInt64.le_of_lt hup)
    have hbelow := UInt64.lt_iff_toNat_lt.mp hlt
    rw [runUntil_of_up hlt (Prod.ext hstep rfl) hup] at hok ⊢
    exact ih (hrises.tail hlt hstep hup) (by omega) hok
  case stuck =>
    intro m hlt cycles hstep hup hrises _ _
    -- The counter has neither gone up nor down, although a step takes some cycles.
    have hle := hrises 0 (by rw [stepsUntil_of_not_up hlt hstep hup]; decide)
    have hcycles := toNat_cycles_of_le hstep hle
    have hpos := Instruction.pos_of_mem_stepCosts (cycles_of_ok hstep).1
    rw [UInt64.lt_iff_toNat_lt] at hup
    omega
  case reached =>
    intro m hge _ hstart _
    rw [UInt64.lt_iff_toNat_lt] at hge
    rw [runUntil_of_reached (by rwa [UInt64.lt_iff_toNat_lt])]
    exact ⟨Nat.le_of_not_lt hge, hstart⟩

/-- Nothing overflows in a tick: the target fits in the counter, and the counter does not go past the
end of its range. -/
structure Fits (m : Machine μ) (elapsed : Duration) : Prop where
  target : m.cpu.cycles.toNat + elapsed.budget < UInt64.size
  rises : m.Rises (m.cpu.target elapsed)

/-- A tick in which nothing overflows spends its budget and at most 23 cycles more. -/
theorem Fits.cycles {elapsed : Duration} (h : m.Fits elapsed)
    (hok : (m.tick elapsed Listener.deaf ()).1 = .ok ()) :
    m.cpu.cycles.toNat + elapsed.budget ≤
        (after (m.tick elapsed Listener.deaf ())).1.cpu.cycles.toNat ∧
      (after (m.tick elapsed Listener.deaf ())).1.cpu.cycles.toNat ≤
        m.cpu.cycles.toNat + elapsed.budget + 23 := by
  have htarget : (m.cpu.target elapsed).toNat = m.cpu.cycles.toNat + elapsed.budget :=
    toNat_target h.target
  rw [← htarget]
  exact cycles_runUntil h.rises (by omega) hok

/-- With room for one more step above the target nothing overflows. -/
theorem fits_of_room {elapsed : Duration}
    (hroom : m.cpu.cycles.toNat + elapsed.budget + 24 ≤ UInt64.size) : m.Fits elapsed where
  target := by omega
  rises := by
    intro k hk
    have htarget : (m.cpu.target elapsed).toNat = m.cpu.cycles.toNat + elapsed.budget :=
      toNat_target (by omega)
    have hlt := UInt64.lt_iff_toNat_lt.mp (lt_of_lt_stepsUntil _ m k hk)
    have hnext : stepMany Listener.deaf (k + 1) (m, ()) =
        after ((stepMany Listener.deaf k (m, ())).1.step Listener.deaf ()) :=
      stepMany_add Listener.deaf k 1 (m, ())
    rw [hnext, UInt64.le_iff_toNat_le]
    -- What the step starts from does not matter but for its counter.
    generalize (stepMany Listener.deaf k (m, ())).1 = before at hlt ⊢
    rcases hstep : before.step Listener.deaf () with ⟨result, m', s'⟩
    cases result with
    | error fault =>
      -- A step that fails leaves the counter where it was.
      have hcycles := cycles_of_error (congrArg Prod.fst hstep)
      rw [hstep] at hcycles
      exact Nat.le_of_eq (congrArg UInt64.toNat hcycles).symm
    | ok cycles =>
      have hcycles := toNat_cycles_of_ok hstep (by omega)
      show before.cpu.cycles.toNat ≤ m'.cpu.cycles.toNat
      omega

/-! ## Ticks -/

/-- The target of a tick is the expected one exactly if its time is shorter than that in which the
counter goes round, or if what is left of the cycles brings the sum to the end of the range anyway.
For the shorter times a longer tick has a later target and no fewer steps.  A tick performs its steps
while the counter is below the target, and if it completes the counter has come there unless a step
has run it over the end of its range. -/
theorem tick_until_target (m : Machine μ) (elapsed : Duration) :
    let start := m.cpu.cycles.toNat
    let target := m.cpu.target elapsed
    target.toNat = min (UInt64.size - 1) (start + elapsed.budget % UInt64.size) ∧
    (target.toNat = min (UInt64.size - 1) (start + elapsed.budget) ↔
      elapsed.nanoseconds < Duration.counterSpan ∨
        UInt64.size - 1 ≤ start + elapsed.budget % UInt64.size) ∧
    (∀ longer : Duration, elapsed.nanoseconds ≤ longer.nanoseconds →
      longer.nanoseconds < Duration.counterSpan →
      target ≤ m.cpu.target longer ∧
        m.stepsUntil target ≤ m.stepsUntil (m.cpu.target longer)) ∧
    ∀ {σ : Type} (listener : Listener σ) (s : σ),
      let final := m.tick elapsed listener s
      after final = stepMany listener (m.stepsUntil target) (m, s) ∧
      (∀ k < m.stepsUntil target, (stepMany listener k (m, s)).1.cpu.cycles < target) ∧
      (final.1 = .ok () → target ≤ (after final).1.cpu.cycles ∨
        ∃ k cycles,
          ((stepMany listener k (m, s)).1.step listener (stepMany listener k (m, s)).2).1 =
            .ok cycles ∧
          UInt64.size ≤ (stepMany listener k (m, s)).1.cpu.cycles.toNat + cycles.toNat) := by
  intro start target
  have htarget : target.toNat =
      min (UInt64.size - 1) (start + elapsed.budget % UInt64.size) := by
    rw [Cpu.toNat_target, Duration.toNat_clockCycles]
  refine ⟨htarget, ?_, fun longer hle hlonger => ?_, fun listener s => ⟨?_, fun k hk => ?_, ?_⟩⟩
  · rw [htarget, ← Duration.budget_lt_iff]
    -- The two sums agree without the remainder, and also where both are cut at the end.
    have hmod : elapsed.budget < UInt64.size → elapsed.budget % UInt64.size = elapsed.budget :=
      Nat.mod_eq_of_lt
    have hlt : elapsed.budget % UInt64.size < UInt64.size := Nat.mod_lt _ (by decide)
    omega
  · have hearlier : target ≤ m.cpu.target longer := Cpu.target_le_target hle hlonger
    exact ⟨hearlier, stepsUntil_le_stepsUntil hearlier m⟩
  · exact (runUntil_eq_stepMany target m listener s).2
  · rw [machine_stepMany_eq]
    apply lt_of_lt_stepsUntil target m k hk
  · exact reaches_or_overruns

/-- Of two ticks of a machine that does nothing the longer one has the later target and no fewer steps,
and the shorter one completes at its target. -/
theorem tick_until_target_idling :
    ((idling 0x100 0).cpu.target ⟨1000⟩).toNat = 4 ∧
      (idling 0x100 0).cpu.target ⟨1000⟩ ≤ (idling 0x100 0).cpu.target ⟨2000⟩ ∧
      (idling 0x100 0).stepsUntil ((idling 0x100 0).cpu.target ⟨1000⟩) ≤
        (idling 0x100 0).stepsUntil ((idling 0x100 0).cpu.target ⟨2000⟩) ∧
      (stepMany Listener.deaf ((idling 0x100 0).stepsUntil ((idling 0x100 0).cpu.target ⟨1000⟩))
        (idling 0x100 0, ())).1.cpu.cycles = 4 := by
  obtain ⟨s', hs⟩ := step_idling 0x100 0 Listener.deaf ()
  have htick : (idling 0x100 0).tick ⟨1000⟩ Listener.deaf () = (.ok (), idling 0x101 4, s') := by
    rw [tick, runUntil_of_up (by decide) hs (by decide)]
    exact runUntil_of_reached (by decide)
  obtain ⟨-, hexpected, hmono, hticks⟩ := tick_until_target (idling 0x100 0) ⟨1000⟩
  obtain ⟨htarget, hsteps⟩ := hmono ⟨2000⟩ (by decide) (by decide)
  refine ⟨?_, htarget, hsteps, ?_⟩
  · rw [hexpected.mpr (.inl (by decide))]
    decide
  · rw [← (hticks Listener.deaf ()).1, htick]
    rfl

/-- The time in which the counter goes round once has cycles that the counter has no room for, so the
target is where the counter stands and a tick of that length does nothing. -/
theorem not_target_saturates :
    ¬∀ (cpu : Cpu) (elapsed : Duration),
      elapsed.nanoseconds < UInt64.size * Duration.nanosecondsPerSecond →
      (cpu.target elapsed).toNat = min (UInt64.size - 1) (cpu.cycles.toNat + elapsed.budget) := by
  intro h
  have hround := h .initial (.ofSeconds 4398046511104 0) (by decide)
  revert hround
  decide

end Machine

end GameBoy
