import GameBoy.Proofs.Machine.Outcome

/-!
# Pacing

However the emulated time is cut into ticks, and whoever listens, a machine goes through the same
states; the ticks only decide how far it gets (`Machine.pacing_independent`).

A tick that completes is a number of successful steps each of which moves the cycle counter up
(`Climbs`).  Two climbs from one machine agree as long as both last, and the counter says which of
them is further up.
-/

namespace GameBoy.Machine

variable {μ σ τ : Type} [Memory μ] {m m' m'' : Machine μ}

/-! ## Plain steps -/

/-- The machine after a step that nobody listens to, if the step succeeds. -/
def advance (m : Machine μ) : Option (Machine μ) :=
  match m.step Listener.deaf () with
  | (.ok _, after, _) => some after
  | (.error _, _, _) => none

/-- The machine after some plain steps, if all of them succeed. -/
def advanceMany : Nat → Machine μ → Option (Machine μ)
  | 0, m => some m
  | n + 1, m => m.advance.bind (advanceMany n)

/-- A step that succeeds does the same to the machine whoever listens. -/
theorem advance_of_step {listener : Listener σ} {s s' : σ} {cycles : UInt8}
    (h : m.step listener s = (.ok cycles, m', s')) : m.advance = some m' := by
  obtain ⟨t', ht⟩ := step_of_step h Listener.deaf ()
  rw [advance, ht]

/-! ## Climbs -/

/-- Some successful plain steps, each of which moves the cycle counter up. -/
inductive Climbs : Nat → Machine μ → Machine μ → Prop where
  | refl (m : Machine μ) : Climbs 0 m m
  | step {n : Nat} {m m' m'' : Machine μ} (advance : m.advance = some m')
      (up : m.cpu.cycles < m'.cpu.cycles) (rest : Climbs n m' m'') : Climbs (n + 1) m m''

namespace Climbs

variable {n k : Nat}

/-- A climb can go on from where another one ends. -/
theorem trans (h : Climbs n m m') (h' : Climbs k m' m'') : Climbs (n + k) m m'' := by
  induction h with
  | refl m => rwa [Nat.zero_add]
  | step advance up rest ih =>
    rw [Nat.add_right_comm]
    exact .step advance up (ih h')

/-- A climb is some number of plain steps. -/
theorem advanceMany (h : Climbs n m m') : advanceMany n m = some m' := by
  induction h with
  | refl m => rfl
  | step advance up rest ih =>
    rw [Machine.advanceMany, advance]
    exact ih

/-- A climb does not lead down. -/
theorem le (h : Climbs n m m') : m.cpu.cycles ≤ m'.cpu.cycles := by
  induction h with
  | refl m => exact UInt64.le_refl _
  | step advance up rest ih => exact UInt64.le_of_lt (UInt64.lt_of_lt_of_le up ih)

/-- A climb that ends where it began took no step. -/
theorem eq_of_cycles_eq (h : Climbs n m m') (heq : m.cpu.cycles = m'.cpu.cycles) : m = m' := by
  cases h with
  | refl => rfl
  | step advance up rest =>
    have hlt := UInt64.lt_of_lt_of_le up rest.le
    rw [heq] at hlt
    exact absurd hlt (UInt64.lt_irrefl _)

/-- The longer of two climbs from one machine goes on from where the shorter one ends. -/
theorem of_le (h : Climbs n m m') (h' : Climbs k m m'') (hle : n ≤ k) : Climbs (k - n) m' m'' := by
  -- Over the shorter climb; the longer one is at least as long, so it has a step to match each.
  induction h generalizing k with
  | refl m => exact h'
  | step advance up rest ih =>
    cases h' with
    | refl => omega
    | step advance' up' rest' =>
      -- Both climbs begin with the same step.
      obtain rfl : _ = _ := Option.some.inj (advance.symm.trans advance')
      rw [Nat.add_sub_add_right]
      exact ih rest' (Nat.le_of_add_le_add_right hle)

end Climbs

/-! ## Ticks -/

/-- How a loop that steps towards a target ends once it has come to a machine: the counter has reached
the target, the next step fails, or the next step runs the counter over the end of its range. -/
inductive Ends (target : UInt64) (listener : Listener σ) (m : Machine μ) (s : σ) :
    Except Fault Unit × Machine μ × σ → Prop where
  | reached (reached : ¬m.cpu.cycles < target) : Ends target listener m s (.ok (), m, s)
  | failed {fault : Fault} {m' : Machine μ} {s' : σ}
      (step : m.step listener s = (.error fault, m', s')) :
      Ends target listener m s (.error fault, m', s')
  | overrun {cycles : UInt8} {m' : Machine μ} {s' : σ} (below : m.cpu.cycles < target)
      (step : m.step listener s = (.ok cycles, m', s')) (stuck : ¬m.cpu.cycles < m'.cpu.cycles) :
      Ends target listener m s (.ok (), m', s')

/-- The loop climbs to the machine at which it ends. -/
theorem exists_ends_runUntil (target : UInt64) (listener : Listener σ) (m : Machine μ) (s : σ) :
    ∃ n before s₀, Climbs n m before ∧ stepMany listener n (m, s) = (before, s₀) ∧
      Ends target listener before s₀ (m.runUntil target listener s) := by
  -- The cases are the ways in which a round of the loop can go.
  refine runUntil.induct target listener
    (fun m s => ∃ n before s₀, Climbs n m before ∧ stepMany listener n (m, s) = (before, s₀) ∧
      Ends target listener before s₀ (m.runUntil target listener s))
    ?fault ?more ?stuck ?reached m s
  case fault =>
    intro m s before _ hlt fault after s' hstep
    rw [runUntil_of_fault hlt hstep]
    exact ⟨0, m, s, .refl m, rfl, .failed hstep⟩
  case more =>
    intro m s before _ hlt cycles after s' hstep hmore ih
    obtain ⟨n, final, s₀, hn, hmany, hends⟩ := ih
    rw [runUntil_of_up hlt hstep hmore]
    refine ⟨n + 1, final, s₀, .step (advance_of_step hstep) hmore hn, ?_, hends⟩
    rw [stepMany, hstep]
    exact hmany
  case stuck =>
    intro m s before _ hlt cycles after s' hstep hstuck
    rw [runUntil_of_not_up hlt hstep hstuck]
    exact ⟨0, m, s, .refl m, rfl, .overrun hlt hstep hstuck⟩
  case reached =>
    intro m s before _ hge
    rw [runUntil_of_reached hge]
    exact ⟨0, m, s, .refl m, rfl, .reached hge⟩

/-- Steps that reach their target climb there. -/
theorem climbs_runUntil {target : UInt64} {listener : Listener σ} {s s' : σ}
    (hrun : m.runUntil target listener s = (.ok (), m', s')) (hreached : target ≤ m'.cpu.cycles) :
    ∃ n, Climbs n m m' := by
  obtain ⟨n, before, s₀, hn, -, hends⟩ := exists_ends_runUntil target listener m s
  rw [hrun] at hends
  cases hends with
  | reached reached => exact ⟨n, hn⟩
  | overrun below step stuck =>
    -- The counter is below the target and has not moved up.
    exact absurd (UInt64.lt_of_lt_of_le below hreached) stuck

/-- Steps that end without a fault but short of their target have run the counter over the end of its
range. -/
theorem overruns_runUntil {target : UInt64} {listener : Listener σ} {s s' : σ}
    (hrun : m.runUntil target listener s = (.ok (), m', s')) (hshort : m'.cpu.cycles < target) :
    ∃ n cycles, ((stepMany listener n (m, s)).1.step listener (stepMany listener n (m, s)).2).1 =
        .ok cycles ∧
      UInt64.size ≤ (stepMany listener n (m, s)).1.cpu.cycles.toNat + cycles.toNat := by
  obtain ⟨n, before, s₀, -, hmany, hends⟩ := exists_ends_runUntil target listener m s
  rw [hrun] at hends
  cases hends with
  | reached reached => exact absurd hshort reached
  | @overrun cycles m' s' below step stuck =>
    refine ⟨n, cycles, ?_⟩
    rw [hmany]
    have hok : (before.step listener s₀).1 = .ok cycles := by rw [step]
    obtain ⟨hmem, hcycles⟩ := cycles_of_ok hok
    rw [step] at hcycles
    refine ⟨hok, ?_⟩
    show UInt64.size ≤ before.cpu.cycles.toNat + cycles.toNat
    -- A step takes some cycles, so a counter that has not moved up has started again.
    have hpos := Instruction.pos_of_mem_stepCosts hmem
    have hsum : m'.cpu.cycles.toNat = (before.cpu.cycles.toNat + cycles.toNat) % UInt64.size := by
      rw [hcycles, UInt64.toNat_add, UInt8.toNat_toUInt64]
    apply Nat.le_of_not_lt
    intro hlt
    rw [Nat.mod_eq_of_lt hlt] at hsum
    apply stuck
    rw [UInt64.lt_iff_toNat_lt, hsum]
    exact Nat.lt_add_of_pos_right hpos

/-- Ticks of the given lengths, one after the other, that all complete: none ends with a fault, and
each brings the counter to its target.  A tick without a fault that falls short of its target has run
the counter over the end of its range (`overruns_runUntil`). -/
inductive Paced (listener : Listener σ) :
    List Duration → Machine μ × σ → Machine μ × σ → Prop where
  | nil (c : Machine μ × σ) : Paced listener [] c c
  | cons {elapsed : Duration} {later : List Duration} {m m' : Machine μ} {s s' : σ}
      {final : Machine μ × σ} (tick : m.tick elapsed listener s = (.ok (), m', s'))
      (reached : m.cpu.target elapsed ≤ m'.cpu.cycles)
      (rest : Paced listener later (m', s') final) :
      Paced listener (elapsed :: later) (m, s) final

/-- Ticks that complete add up to one climb. -/
theorem Paced.climbs {listener : Listener σ} {durations : List Duration} {c final : Machine μ × σ}
    (h : Paced listener durations c final) : ∃ n, Climbs n c.1 final.1 := by
  -- Over the ticks: each climbs to its target, and the climbs follow one another.
  induction h with
  | nil c => exact ⟨0, .refl c.1⟩
  | cons tick reached rest ih =>
    obtain ⟨n, hn⟩ := climbs_runUntil tick reached
    obtain ⟨k, hk⟩ := ih
    exact ⟨n + k, hn.trans hk⟩

/-- Whatever the ticks and whoever listens: machines that have got equally far are equal, and one that
has got further is reached from the other by plain steps. -/
theorem pacing_independent {listener : Listener σ} {listener' : Listener τ}
    {durations durations' : List Duration} {m m₁ m₂ : Machine μ} {s s₁ : σ} {t t₂ : τ}
    (h₁ : Paced listener durations (m, s) (m₁, s₁))
    (h₂ : Paced listener' durations' (m, t) (m₂, t₂)) :
    (m₁.cpu.cycles = m₂.cpu.cycles → m₁ = m₂) ∧
      (m₁.cpu.cycles < m₂.cpu.cycles → ∃ n, m₁.advanceMany n = some m₂) := by
  obtain ⟨n, hn⟩ := h₁.climbs
  obtain ⟨k, hk⟩ := h₂.climbs
  -- One of the two climbs is the shorter one, and the other goes on from its end.
  rcases Nat.le_total n k with hle | hle
  · -- The second machine has taken at least as many steps.
    have hrest := hn.of_le hk hle
    exact ⟨hrest.eq_of_cycles_eq, fun _ => ⟨k - n, hrest.advanceMany⟩⟩
  · have hrest := hk.of_le hn hle
    refine ⟨fun heq => (hrest.eq_of_cycles_eq heq.symm).symm, fun hlt => ?_⟩
    exact absurd hlt (UInt64.not_lt.mpr hrest.le)

/-! ## A machine that does nothing -/

/-- A machine in cleared memory, where every instruction does nothing for four cycles. -/
def idling (pc : UInt16) (cycles : UInt64) : Machine FlatMemory :=
  ⟨{ Cpu.initial with pc := pc, cycles := cycles }, .ofCells (.zero _)⟩

/-- A step of the idling machine does nothing but to go on by one byte and four cycles. -/
theorem step_idling (pc : UInt16) (cycles : UInt64) (listener : Listener σ) (s : σ) :
    ∃ s', (idling pc cycles).step listener s = (.ok 4, idling (pc + 1) (cycles + 4), s') := by
  have hread (addr : UInt16) : Memory.read (idling pc cycles).memory addr = 0 := Block.get_zero _
  have hactive : Memory.active (idling pc cycles).memory = 0 := by
    show Memory.read (idling pc cycles).memory _ &&& Memory.read (idling pc cycles).memory _ &&& _ = _
    rw [hread, hread]
    rfl
  have hduty : (idling pc cycles).duty = .execute := by
    rw [duty, hactive]
    rfl
  have hfetched : (idling pc cycles).fetched = some ⟨0, .control .nop⟩ := by
    rw [fetched, hread, hread, Descriptor.select, Descriptor.primary_eq]
    rfl
  obtain ⟨s', hs⟩ := step_of_fetched_eq_some hduty hfetched listener s
  rw [hs]
  exact ⟨_, rfl⟩

/-- One tick of two microseconds gets further than one of one microsecond, by a single step, although
somebody counts the instructions of the longer one. -/
theorem pacing_independent_idling : ∃ n, (idling 0x101 4).advanceMany n = some (idling 0x102 8) := by
  let counter : Listener Nat := fun heard _ => heard + 1
  obtain ⟨s₁, hs₁⟩ := step_idling 0x100 0 Listener.deaf ()
  obtain ⟨t₁, ht₁⟩ := step_idling 0x100 0 counter 0
  obtain ⟨t₂, ht₂⟩ := step_idling (0x100 + 1) (0 + 4) counter t₁
  have hshort : (idling 0x100 0).tick ⟨1000⟩ Listener.deaf () = (.ok (), idling 0x101 4, s₁) := by
    rw [tick, runUntil_of_up (by decide) hs₁ (by decide)]
    exact runUntil_of_reached (by decide)
  have hlong : (idling 0x100 0).tick ⟨2000⟩ counter 0 = (.ok (), idling 0x102 8, t₂) := by
    rw [tick, runUntil_of_up (by decide) ht₁ (by decide), runUntil_of_up (by decide) ht₂ (by decide)]
    exact runUntil_of_reached (by decide)
  exact (pacing_independent (.cons hshort (by decide) (.nil _))
    (.cons hlong (by decide) (.nil _))).2 (by decide)

end GameBoy.Machine
