import GameBoy.Proofs.Machine.Pacing

/-!
# The budget of a tick

A tick has a budget of clock cycles and performs steps until the budget is spent.  `Rounds` is this
loop with the number of its steps, over a target that is a plain number; unlike `Machine.runUntil` it
knows nothing about the end of the counter's range.

Every step that succeeds takes between 4 and 24 cycles.  From this follow, round by round, how many
steps there can be (`Rounds.steps_le`) and where the counter stands at the end
(`Rounds.cycles_of_ok`, `Rounds.cycles_of_error`).  `Machine.tick_within_budget` puts them together
for ticks.
-/

namespace GameBoy

/-- The clock cycles in a span of time, rounded down. -/
def Duration.budget (d : Duration) : Nat := d.nanoseconds * clockSpeed / nanosecondsPerSecond

namespace Machine

variable {μ σ : Type} [Memory μ] {m m' : Machine μ} {s s' : σ} {listener : Listener σ}

/-! ## Cycles of a step -/

/-- A fault leaves the cycle counter as it is. -/
theorem cycles_of_error {fault : Fault} (h : (m.step listener s).1 = .error fault) :
    (m.step listener s).2.1.cpu.cycles = m.cpu.cycles :=
  congrArg Clockwork.cycles (clockwork_of_error h)

/-- As long as the counter stays in its range a step that succeeds counts its cycles. -/
theorem toNat_cycles_of_ok {cycles : UInt8} (h : m.step listener s = (.ok cycles, m', s'))
    (hroom : m.cpu.cycles.toNat + 24 < UInt64.size) :
    m'.cpu.cycles.toNat = m.cpu.cycles.toNat + cycles.toNat := by
  have hok : (m.step listener s).1 = .ok cycles := by rw [h]
  obtain ⟨hmem, hcycles⟩ := cycles_of_ok hok
  have hle := (Instruction.toNat_of_mem_stepCosts hmem).2.1
  rw [h] at hcycles
  rw [hcycles, UInt64.toNat_add, UInt8.toNat_toUInt64]
  exact Nat.mod_eq_of_lt (by simp only [UInt64.size] at hroom; omega)

/-! ## Rounds -/

/-- The rounds of a loop that steps while the cycle counter is below a target: how many steps it
performs, from which machine and listener, and what comes out. -/
inductive Rounds (target : Nat) (listener : Listener σ) :
    Nat → Machine μ × σ → Except Fault Unit × Machine μ × σ → Prop where
  | reached {m : Machine μ} {s : σ} (reached : target ≤ m.cpu.cycles.toNat) :
      Rounds target listener 0 (m, s) (.ok (), m, s)
  | failed {m m' : Machine μ} {s s' : σ} {fault : Fault} (below : m.cpu.cycles.toNat < target)
      (step : m.step listener s = (.error fault, m', s')) :
      Rounds target listener 1 (m, s) (.error fault, m', s')
  | succeeded {n : Nat} {m m' : Machine μ} {s s' : σ} {cycles : UInt8}
      {final : Except Fault Unit × Machine μ × σ} (below : m.cpu.cycles.toNat < target)
      (step : m.step listener s = (.ok cycles, m', s'))
      (rest : Rounds target listener n (m', s') final) :
      Rounds target listener (n + 1) (m, s) final

namespace Rounds

variable {target n : Nat} {c : Machine μ × σ} {final : Except Fault Unit × Machine μ × σ}

/-- Every step but the last spends at least four cycles of what is left. -/
theorem steps_le (h : Rounds target listener n c final) (hroom : target + 24 ≤ UInt64.size) :
    4 * n ≤ target - c.1.cpu.cycles.toNat + 3 := by
  -- Over the rounds: each success takes at least four cycles off the distance to the target.
  induction h with
  | reached => exact Nat.zero_le _
  | failed below step => dsimp only; omega
  | @succeeded n m m' s s' cycles final below step rest ih =>
    have hcycles := toNat_cycles_of_ok step (by omega)
    have hmem := (cycles_of_ok (by rw [step])).1
    have hge := (Instruction.toNat_of_mem_stepCosts hmem).1
    dsimp only at ih ⊢
    omega

/-- A loop that ends without a fault has reached its target, and its last step has gone past it by
less than the cycles that it took. -/
theorem cycles_of_ok (h : Rounds target listener n c final) (hroom : target + 24 ≤ UInt64.size)
    (hstart : c.1.cpu.cycles.toNat ≤ target + 23) (hok : final.1 = .ok ()) :
    target ≤ final.2.1.cpu.cycles.toNat ∧ final.2.1.cpu.cycles.toNat ≤ target + 23 := by
  -- Over the rounds: the bound above the target holds before each of them, since each begins below
  -- the target.
  induction h with
  | reached reached => exact ⟨reached, hstart⟩
  | failed below step => cases hok
  | @succeeded n m m' s s' cycles final below step rest ih =>
    refine ih ?_ hok
    have hcycles := toNat_cycles_of_ok step (by omega)
    have hmem := (Machine.cycles_of_ok (by rw [step])).1
    have hle := (Instruction.toNat_of_mem_stepCosts hmem).2.1
    dsimp only
    omega

/-- A fault comes before the target. -/
theorem cycles_of_error (h : Rounds target listener n c final) {fault : Fault}
    (herror : final.1 = .error fault) : final.2.1.cpu.cycles.toNat < target := by
  induction h with
  | reached => cases herror
  | @failed m m' s s' fault' below step =>
    have hcycles : (m.step listener s).2.1.cpu.cycles = m.cpu.cycles :=
      Machine.cycles_of_error (by rw [step])
    rw [step] at hcycles
    dsimp only at hcycles ⊢
    rwa [hcycles]
  | succeeded below step rest ih => exact ih herror

end Rounds

/-- With room for one more step above the target, the counter never comes to the end of its range. -/
theorem rounds_runUntil {target : UInt64} (hroom : target.toNat + 24 ≤ UInt64.size)
    (listener : Listener σ) (m : Machine μ) (s : σ) :
    ∃ n, Rounds target.toNat listener n (m, s) (m.runUntil target listener s) := by
  -- The cases are the ways in which a round of the loop can go.
  refine runUntil.induct target listener
    (fun m s => ∃ n, Rounds target.toNat listener n (m, s) (m.runUntil target listener s))
    ?fault ?more ?stuck ?reached m s
  case fault =>
    intro m s before _ hlt fault after s' hstep
    rw [runUntil_of_fault hlt hstep]
    exact ⟨1, .failed hlt hstep⟩
  case more =>
    intro m s before _ hlt cycles after s' hstep hmore ih
    obtain ⟨n, hn⟩ := ih
    rw [runUntil_of_up hlt hstep hmore]
    exact ⟨n + 1, .succeeded hlt hstep hn⟩
  case stuck =>
    intro m s before _ hlt cycles after s' hstep hstuck
    -- The counter has moved up after all: it is below the target, and there is room.
    refine absurd (UInt64.lt_iff_toNat_lt.mpr ?_) hstuck
    have hbelow : m.cpu.cycles.toNat < target.toNat := UInt64.lt_iff_toNat_lt.mp hlt
    have hmem := (cycles_of_ok (by rw [hstep])).1
    rw [toNat_cycles_of_ok hstep (by omega)]
    exact Nat.lt_add_of_pos_right (Instruction.pos_of_mem_stepCosts hmem)
  case reached =>
    intro m s before _ hge
    rw [runUntil_of_reached hge]
    exact ⟨0, .reached (Nat.le_of_not_lt fun hlt => hge (UInt64.lt_iff_toNat_lt.mpr hlt))⟩

/-! ## The counter after a reset -/

/-- What can become of a machine after a reset: it steps and ticks, whoever listens, and its memory
changes in any way. -/
inductive Reached : Machine μ → Prop where
  | reset (m : Machine μ) : Reached m.reset
  | step {σ : Type} {m : Machine μ} (h : Reached m) (listener : Listener σ) (s : σ) :
      Reached (after (m.step listener s)).1
  | tick {σ : Type} {m : Machine μ} (h : Reached m) (elapsed : Duration) (listener : Listener σ)
      (s : σ) : Reached (after (m.tick elapsed listener s)).1
  | memory {m : Machine μ} (h : Reached m) (memory : μ) : Reached { m with memory := memory }

/-- Every step keeps the counter a multiple of four, also when it comes to the end of its range. -/
theorem four_dvd_cycles_step (h : 4 ∣ m.cpu.cycles.toNat) (listener : Listener σ) (s : σ) :
    4 ∣ (m.step listener s).2.1.cpu.cycles.toNat := by
  cases hresult : (m.step listener s).1 with
  | error fault => rwa [cycles_of_error hresult]
  | ok cycles =>
    obtain ⟨hmem, hcycles⟩ := cycles_of_ok hresult
    have hdvd := (Instruction.toNat_of_mem_stepCosts hmem).2.2
    rw [hcycles, UInt64.toNat_add, UInt8.toNat_toUInt64]
    exact (Nat.dvd_mod_iff (by decide)).mpr (Nat.dvd_add h hdvd)

/-- A counter that has started from zero is a multiple of four. -/
theorem Reached.four_dvd_cycles (h : m.Reached) : 4 ∣ m.cpu.cycles.toNat := by
  -- By what can become of a machine; a tick is some number of steps.
  induction h with
  | reset m => exact Nat.dvd_zero 4
  | step h listener s ih => exact four_dvd_cycles_step ih listener s
  | @tick σ m h elapsed listener s ih =>
    have hstep (c : Machine μ × σ) (hc : 4 ∣ c.1.cpu.cycles.toNat) :
        4 ∣ (after (c.1.step listener c.2)).1.cpu.cycles.toNat :=
      four_dvd_cycles_step hc listener c.2
    exact tick_invariant (P := fun c => 4 ∣ c.1.cpu.cycles.toNat) hstep (c := (m, s)) ih elapsed
  | memory h memory ih => exact ih

/-! ## Ticks -/

/-- A tick whose budget fits in the counter aims at the counter plus the budget. -/
theorem toNat_target {cpu : Cpu} {elapsed : Duration}
    (h : cpu.cycles.toNat + elapsed.budget < UInt64.size) :
    (cpu.target elapsed).toNat = cpu.cycles.toNat + elapsed.budget := by
  have hbudget : elapsed.clockCycles.toNat = elapsed.budget :=
    UInt64.toNat_ofNat_of_lt' (Nat.lt_of_le_of_lt (Nat.le_add_left ..) h)
  rw [← hbudget] at h ⊢
  exact toNat_target_of_fits h

/-- A tick performs at most one step for every four cycles of its budget.  If it ends without a fault
the counter has moved by the budget and at most 23 cycles more; if it ends with one the counter is
still short of that.  This is so because every step that succeeds takes one of six numbers of cycles,
all of them multiples of four. -/
theorem tick_within_budget (m : Machine μ) (elapsed : Duration) (listener : Listener σ) (s : σ) :
    let start := m.cpu.cycles.toNat
    let final := m.tick elapsed listener s
    (start + elapsed.budget + 24 < UInt64.size →
      (∃ n ≤ (elapsed.budget + 3) / 4,
        Rounds (start + elapsed.budget) listener n (m, s) final) ∧
      (final.1 = .ok () → start + elapsed.budget ≤ final.2.1.cpu.cycles.toNat ∧
        final.2.1.cpu.cycles.toNat ≤ start + elapsed.budget + 23) ∧
      (∀ fault, final.1 = .error fault →
        final.2.1.cpu.cycles.toNat < start + elapsed.budget) ∧
      (elapsed.budget = 0 → final = (.ok (), m, s))) ∧
    (∀ cycles, (m.step listener s).1 = .ok cycles → cycles ∈ [4, 8, 12, 16, 20, 24] ∧
      (m.step listener s).2.1.cpu.cycles = m.cpu.cycles + cycles.toUInt64) ∧
    (m.Reached → 4 ∣ start) := by
  intro start final
  refine ⟨fun hfits => ?_, fun cycles => cycles_of_ok, Reached.four_dvd_cycles⟩
  have hroom : start + elapsed.budget + 24 ≤ UInt64.size := Nat.le_of_lt hfits
  have htarget : (m.cpu.target elapsed).toNat = start + elapsed.budget :=
    toNat_target (Nat.lt_of_lt_of_le (Nat.lt_add_of_pos_right (by decide)) hroom)
  obtain ⟨n, hn⟩ := rounds_runUntil (htarget ▸ hroom) listener m s
  rw [htarget] at hn
  refine ⟨⟨n, ?_, hn⟩, hn.cycles_of_ok hroom ?_, fun fault => hn.cycles_of_error, fun hzero => ?_⟩
  · have hsteps : 4 * n ≤ start + elapsed.budget - start + 3 := hn.steps_le hroom
    omega
  · exact Nat.le_add_right_of_le (Nat.le_add_right ..)
  · -- Without a budget the target is where the counter stands.
    refine runUntil_of_reached fun hlt => ?_
    have hbelow := UInt64.lt_iff_toNat_lt.mp hlt
    rw [htarget, hzero] at hbelow
    exact Nat.lt_irrefl _ hbelow

/-- A budget of one cycle is overrun by the instruction that spends it. -/
theorem tick_within_budget_idling :
    let final := (idling 0x100 0).tick ⟨239⟩ Listener.deaf ()
    (∃ n ≤ 1, Rounds 1 Listener.deaf n (idling 0x100 0, ()) final) ∧
      1 ≤ final.2.1.cpu.cycles.toNat ∧ final.2.1.cpu.cycles.toNat ≤ 24 ∧
      4 ∣ (idling 0x100 0).cpu.cycles.toNat := by
  intro final
  have hstart : (idling 0x100 0).cpu.cycles.toNat = 0 := rfl
  have hbudget : (⟨239⟩ : Duration).budget = 1 := by decide
  obtain ⟨s', hs⟩ := step_idling 0x100 0 Listener.deaf ()
  have htick : (idling 0x100 0).tick ⟨239⟩ Listener.deaf () = (.ok (), idling 0x101 4, s') := by
    rw [tick, runUntil_of_up (by decide) hs (by decide)]
    exact runUntil_of_reached (by decide)
  obtain ⟨hticks, -, hreached⟩ := tick_within_budget (idling 0x100 0) ⟨239⟩ Listener.deaf ()
  rw [hstart, hbudget] at hticks
  obtain ⟨hrounds, hcycles, -, -⟩ := hticks (by decide)
  obtain ⟨hge, hle⟩ := hcycles (by rw [htick])
  exact ⟨hrounds, hge, hle, hreached (.reset (idling 0x100 0))⟩

end Machine

end GameBoy
