import GameBoy.Proofs.Console.Program
import GameBoy.Proofs.Machine.Budget

/-!
# Sleep

A processor that has been halted sleeps until any source is active, and one that has been stopped
until the joypad is (`Machine.Sleeps`).  Until then a step lets four cycles pass and does nothing else
(`Machine.Sleeps.step_eq`), and a tick is as many such steps as fit (`Machine.Sleeps.tick_eq`).

Devices and the program's own registers may change which sources are active while a console sleeps.
`Console.dormant_run` says that nothing else changes as long as no step finds the processor awake, and
`Console.sleeps_until_woken` what the step does that does.
-/

namespace GameBoy

namespace Machine

variable {μ σ : Type} [Memory μ] {m : Machine μ} {listener : Listener σ} {s : σ}

/-- The processor sleeps and no source wakes it up. -/
def Sleeps (m : Machine μ) : Prop :=
  m.cpu.activity = .halted ∧ Memory.active m.memory = 0 ∨
    m.cpu.activity = .stopped ∧ Memory.active m.memory &&& Interrupt.joypad.mask = 0

/-- The machine some cycles later, with nothing else done. -/
def later (m : Machine μ) (cycles : Nat) : Machine μ :=
  { m with cpu := { m.cpu with cycles := m.cpu.cycles + UInt64.ofNat cycles } }

omit [Memory μ] in

/-- Nothing has happened before any time has passed. -/
theorem later_zero (m : Machine μ) : m.later 0 = m := by
  simp [later]

omit [Memory μ] in

/-- Times add up. -/
theorem later_later (m : Machine μ) (a b : Nat) : (m.later a).later b = m.later (a + b) := by
  simp only [later, UInt64.ofNat_add, UInt64.add_assoc]

omit [Memory μ] in

/-- The counter is as far as the time says, unless it wraps around. -/
theorem toNat_cycles_later {cycles : Nat} (h : m.cpu.cycles.toNat + cycles < UInt64.size) :
    (m.later cycles).cpu.cycles.toNat = m.cpu.cycles.toNat + cycles := by
  show (m.cpu.cycles + UInt64.ofNat cycles).toNat = _
  rw [UInt64.toNat_add, UInt64.toNat_ofNat_of_lt' (Nat.lt_of_le_of_lt (Nat.le_add_left ..) h)]
  exact Nat.mod_eq_of_lt h

/-- A processor that does not sleep is running, or an active source wakes it up. -/
theorem not_sleeps_iff :
    ¬m.Sleeps ↔ m.cpu.activity.wake (Memory.active m.memory) = .running := by
  rw [Sleeps]
  cases m.cpu.activity <;> simp [Activity.wake]

namespace Sleeps

/-- Time alone wakes nobody up. -/
theorem later (h : m.Sleeps) (cycles : Nat) : (m.later cycles).Sleeps := h

/-- The active sources leave the sleep as it is. -/
theorem wake_eq (h : m.Sleeps) : m.cpu.activity.wake (Memory.active m.memory) = m.cpu.activity := by
  obtain ⟨hactivity, hactive⟩ | ⟨hactivity, hactive⟩ := h <;>
    simp [hactivity, hactive, Activity.wake]

/-- There is nothing for the step to do. -/
theorem duty_eq (h : m.Sleeps) : m.duty = .sleep := by
  show Cpu.duty { m.cpu with activity := m.cpu.activity.wake (Memory.active m.memory) } _ = _
  rw [h.wake_eq]
  obtain ⟨hactivity, -⟩ | ⟨hactivity, -⟩ := h <;> simp [Cpu.duty, hactivity]

/-- A step of a sleeping machine lets some time pass, and nobody hears anything. -/
theorem step_eq (h : m.Sleeps) (listener : Listener σ) (s : σ) :
    m.step listener s = (.ok sleepCycles, m.later 4, s) := by
  have hawake : m.awake = m := by rw [awake, Cpu.wake, h.wake_eq]
  rw [step_of_sleep h.duty_eq, hawake]
  rfl

/-- Many steps of a sleeping machine let their time pass. -/
theorem stepMany_eq (h : m.Sleeps) (listener : Listener σ) (n : Nat) (s : σ) :
    stepMany listener n (m, s) = (m.later (4 * n), s) := by
  -- Over the steps: after the first one the machine still sleeps.
  induction n generalizing m with
  | zero => rw [stepMany, Nat.mul_zero, later_zero]
  | succ n ih =>
    rw [stepMany, h.step_eq]
    show stepMany listener n (m.later 4, s) = _
    rw [ih (h.later 4), later_later, Nat.mul_succ, Nat.add_comm]

/-- Going towards a target takes a step for every four cycles on the way. -/
theorem runUntil_eq {target : UInt64} {n : Nat} (h : m.Sleeps)
    (hn : n = (target.toNat - m.cpu.cycles.toNat + 3) / 4)
    (hfits : m.cpu.cycles.toNat + 4 * n < UInt64.size) (listener : Listener σ) (s : σ) :
    m.runUntil target listener s = (.ok (), m.later (4 * n), s) := by
  -- Over the steps that are left.  The counter does not wrap around, so each step comes closer to
  -- the target.
  induction n generalizing m with
  | zero =>
    have hreached : ¬m.cpu.cycles < target := by
      rw [UInt64.lt_iff_toNat_lt]
      omega
    rw [runUntil_of_reached hreached, Nat.mul_zero, later_zero]
  | succ n ih =>
    have hcycles : (m.later 4).cpu.cycles.toNat = m.cpu.cycles.toNat + 4 :=
      toNat_cycles_later (by omega)
    have hlt : m.cpu.cycles < target := UInt64.lt_iff_toNat_lt.mpr (by omega)
    have hup : m.cpu.cycles < (m.later 4).cpu.cycles := UInt64.lt_iff_toNat_lt.mpr (by omega)
    rw [runUntil_of_up hlt (h.step_eq listener s) hup, ih (h.later 4) (by omega) (by omega),
      later_later, Nat.mul_succ, Nat.add_comm]

/-- A tick of a sleeping machine is as many steps as its budget asks for, rounded up. -/
theorem tick_eq (h : m.Sleeps) {elapsed : Duration} {n : Nat} (hn : n = (elapsed.budget + 3) / 4)
    (hfits : m.cpu.cycles.toNat + 4 * n < UInt64.size) (listener : Listener σ) (s : σ) :
    m.tick elapsed listener s = (.ok (), m.later (4 * n), s) := by
  have htarget : (m.cpu.target elapsed).toNat = m.cpu.cycles.toNat + elapsed.budget :=
    toNat_target (by omega)
  exact h.runUntil_eq (by omega) hfits listener s

end Sleeps

/-- A processor that does not sleep and serves nothing executes. -/
theorem duty_of_not_sleeps (h : ¬m.Sleeps) (hime : m.cpu.ime = false) : m.duty = .execute :=
  Cpu.duty_wake_eq_execute_iff.mpr ⟨not_sleeps_iff.mp h, .inl hime⟩

/-- A step that executes does what it would do if the processor had been running all along. -/
theorem step_eq_step_roused (h : m.duty = .execute) (listener : Listener σ) (s : σ) :
    m.step listener s = m.roused.step listener s := by
  rw [step_of_execute h, step_of_execute (duty_roused h), awake_eq_roused h,
    awake_eq_roused (duty_roused h)]
  rfl

end Machine

/-- A write to an interrupt register changes nothing else. -/
theorem Bus.write_interruptRegister (bus : Bus VideoRam) {addr : UInt16}
    (h : addr = enableAddress ∨ addr = pendingAddress) (value : UInt8) :
    bus.write addr value = { bus with interrupts := (bus.write addr value).interrupts } := by
  rcases h with rfl | rfl
  · have hregion : Region.of bus.model enableAddress = .interruptEnable := Region.of_eq_iff.mpr rfl
    simp only [write, hregion]
  · have hregion : Region.of bus.model pendingAddress = .interruptPending :=
      Region.of_eq_iff.mpr rfl
    simp only [write, hregion]

namespace Console

open Machine

variable {σ : Type} {m m' m'' : Console} {listener : Listener σ}

/-- Nothing has changed but the cycle counter and the interrupt registers. -/
structure Dormant (m m' : Console) : Prop where
  cpu : m'.cpu = { m.cpu with cycles := m'.cpu.cycles }
  memory : m'.memory = { m.memory with interrupts := m'.memory.interrupts }

namespace Dormant

/-- Nothing has changed in no time. -/
theorem refl (m : Console) : Dormant m m := ⟨rfl, rfl⟩

/-- Time passes on the cycle counter alone. -/
theorem later (m : Console) (cycles : Nat) : Dormant m (m.later cycles) := ⟨rfl, rfl⟩

/-- What has not changed before and after has not changed. -/
theorem trans (h : Dormant m m') (h' : Dormant m' m'') : Dormant m m'' where
  cpu := by rw [h'.cpu, h.cpu]
  memory := by rw [h'.memory, h.memory]

end Dormant

/-- An action that leaves a console to its sleep: its devices and its interrupt registers may do what
they like, but it sleeps whenever it has to step. -/
def Action.LetsSleep (m : Console) : Action → Prop
  | step => m.Sleeps
  | tick elapsed => m.cpu.cycles < m.cpu.target elapsed → m.Sleeps
  | request _ => True
  | write addr _ => addr = enableAddress ∨ addr = pendingAddress
  | reset | read _ => False

/-- Every action of some leaves the console to its sleep, as it is when the action begins. -/
def LetSleep (listener : Listener σ) (c : Console × σ) : List Action → Prop
  | [] => True
  | action :: rest => action.LetsSleep c.1 ∧ LetSleep listener (act listener c action) rest

/-- A step of a console that sleeps is four cycles of time. -/
theorem act_step_of_sleeps (listener : Listener σ) {c : Console × σ} (h : c.1.Sleeps) :
    act listener c .step = (c.1.later 4, c.2) := by
  rw [act, h.step_eq]
  rfl

/-- An action that leaves a console to its sleep changes nothing else. -/
theorem dormant_act (listener : Listener σ) {c : Console × σ} {action : Action}
    (h : action.LetsSleep c.1) : Dormant c.1 (act listener c action).1 := by
  obtain ⟨m, s⟩ := c
  cases action with
  | step =>
    rw [act_step_of_sleeps listener h]
    exact .later m 4
  | tick elapsed =>
    rw [act]
    -- A tick whose target has been reached performs no step, so it need not find the console
    -- asleep.
    by_cases hlt : m.cpu.cycles < m.cpu.target elapsed
    · obtain ⟨n, hn⟩ := exists_stepMany_tick elapsed listener m s
      rw [hn, (h hlt).stepMany_eq]
      exact .later m _
    · rw [tick, runUntil_of_reached hlt]
      exact .refl m
  | request source => exact ⟨rfl, rfl⟩
  | write addr value =>
    exact ⟨rfl, m.memory.write_interruptRegister h value⟩
  | reset => cases h
  | read addr => cases h

/-- Actions that leave a console to its sleep change nothing else. -/
theorem dormant_run (listener : Listener σ) {c : Console × σ} {actions : List Action}
    (h : LetSleep listener c actions) : Dormant c.1 (run listener c actions).1 := by
  induction actions generalizing c with
  | nil => exact .refl c.1
  | cons action rest ih => exact (dormant_act listener h.1).trans (ih h.2)

/-- A source that wakes a processor up is served if the master switch is on. -/
theorem ready_of_not_sleeps (hstill : m.cpu.activity ≠ .running) (h : ¬m.Sleeps)
    (hime : m.cpu.ime = true) : Ready m := by
  have hactive : m.memory.interrupts.active ≠ 0 := by
    intro hzero
    -- Without an active source both kinds of sleep would go on.
    cases hactivity : m.cpu.activity with
    | running => exact hstill hactivity
    | halted => exact h (.inl ⟨hactivity, hzero⟩)
    | stopped =>
      refine h (.inr ⟨hactivity, ?_⟩)
      show m.memory.interrupts.active &&& _ = 0
      rw [hzero, UInt8.zero_and]
  exact ⟨hime, hactive, fun hstopped hzero => h (.inr ⟨hstopped, hzero⟩)⟩

/-- A machine that sleeps lets the time of a tick pass in steps of four cycles: it reaches no memory,
nobody hears of it, and nothing but the cycle counter changes.  What its devices do in the meantime,
and what is written to the interrupt registers, makes no difference as long as they do not wake it up.

The first step after that leaves the sleep.  With the master switch off it goes on with the
instruction at the program counter, which is still where it was, and withdraws no request; with
the switch on it serves the active source of the highest priority. -/
theorem sleeps_until_woken :
    (∀ {μ : Type} [Memory μ] (m : Machine μ) (elapsed : Duration),
      let steps := (elapsed.budget + 3) / 4
      m.Sleeps → m.cpu.cycles.toNat + 4 * steps < UInt64.size →
      (m.later (4 * steps)).cpu.cycles.toNat = m.cpu.cycles.toNat + 4 * steps ∧
      ∀ {σ : Type} (listener : Listener σ) (s : σ),
        m.tick elapsed listener s = (.ok (), m.later (4 * steps), s) ∧
        after (m.tick elapsed listener s) = stepMany listener steps (m, s) ∧
        ∀ k, (stepMany listener k (m, s)).1.accesses = [.poll]) ∧
    (∀ (m : Console) {σ : Type} (listener : Listener σ) (s : σ) (actions : List Action),
      LetSleep listener (m, s) actions →
      let final := run listener (m, s) actions
      Dormant m final.1 ∧
      (m.cpu.activity ≠ .running → ¬final.1.Sleeps →
        (m.cpu.ime = false →
          final.1.step listener final.2 = final.1.roused.step listener final.2 ∧
          ∃ rest, final.1.accesses = .poll :: .read m.cpu.pc :: rest ∧
            ∀ access ∈ rest, access.IsByte) ∧
        (m.cpu.ime = true → m.memory.interrupts.WellFormed →
          ∃ source, Serves listener final source))) := by
  refine ⟨fun m elapsed hsleeps hfits => ⟨toNat_cycles_later hfits, fun listener s => ?_⟩,
    fun m σ listener s actions hsleep => ?_⟩
  · have htick := hsleeps.tick_eq rfl hfits listener s
    refine ⟨htick, ?_, fun k => ?_⟩
    · rw [htick, hsleeps.stepMany_eq]
      rfl
    · rw [hsleeps.stepMany_eq]
      exact accesses_of_sleep (hsleeps.later _).duty_eq
  · intro final
    have hdormant : Dormant m final.1 := dormant_run listener hsleep
    refine ⟨hdormant, fun hactivity hwoken => ⟨fun hime => ?_, fun hime hwired => ?_⟩⟩
    · have hduty := duty_of_not_sleeps hwoken (by rw [hdormant.cpu]; exact hime)
      obtain ⟨rest, haccesses, hbytes⟩ := accesses_of_execute hduty
      have hpc : final.1.cpu.pc = m.cpu.pc := by rw [hdormant.cpu]
      exact ⟨step_eq_step_roused hduty listener final.2, rest, hpc ▸ haccesses, hbytes⟩
    -- The console has not changed since it fell asleep, so the master switch is as it was then.
    · have hready : Ready final.1 :=
        ready_of_not_sleeps (by rw [hdormant.cpu]; exact hactivity) hwoken
          (by rw [hdormant.cpu]; exact hime)
      exact serves_of_ready (preserved_run Interrupts.WellFormed.preserved listener hwired actions)
        hready listener final.2

/-- A stopped console that listens to all sources. -/
def stopped : Console where
  cpu := { Cpu.initial with activity := .stopped, ime := true }
  memory := { (playing []).memory with interrupts := ⟨⟨0x1F⟩, .empty⟩ }

/-- The screen asks for service and the console sleeps on; when a key is pressed it wakes up, and the
screen is served first. -/
theorem sleeps_until_woken_stopped :
    let final := run Listener.deaf (stopped, ()) [.request .vblank, .step, .request .joypad]
    stopped.tick ⟨1000⟩ Listener.deaf () = (.ok (), stopped.later 4, ()) ∧
      final.1.cpu.pc = 0x100 ∧ (act Listener.deaf final .step).1.cpu.pc = 0x40 := by
  obtain ⟨hticks, hruns⟩ := sleeps_until_woken
  obtain ⟨-, htick⟩ := hticks stopped ⟨1000⟩ (.inr ⟨rfl, rfl⟩) (by decide)
  refine ⟨(htick Listener.deaf ()).1, ?_⟩
  have hsleeps : (act Listener.deaf (stopped, ()) (.request .vblank)).1.Sleeps := .inr ⟨rfl, rfl⟩
  obtain ⟨hdormant, hwakes⟩ := hruns stopped Listener.deaf ()
    [.request .vblank, .step, .request .joypad] ⟨trivial, hsleeps, trivial, trivial⟩
  -- The step in between lets time pass and leaves the request of the screen pending.
  have hinterrupts : (run Listener.deaf (stopped, ())
      [.request .vblank, .step, .request .joypad]).1.memory.interrupts = ⟨⟨0x1F⟩, ⟨0x11⟩⟩ := by
    show (act Listener.deaf (act Listener.deaf (act Listener.deaf (stopped, ()) (.request .vblank))
      .step) (.request .joypad)).1.memory.interrupts = _
    rw [act_step_of_sleeps Listener.deaf hsleeps]
    rfl
  generalize run Listener.deaf (stopped, ()) [.request .vblank, .step, .request .joypad] = final
    at *
  have hwoken : ¬final.1.Sleeps := by
    rw [not_sleeps_iff, hdormant.cpu]
    show Activity.wake final.1.memory.interrupts.active .stopped = .running
    rw [hinterrupts]
    rfl
  obtain ⟨source, hserves⟩ := (hwakes (by decide) hwoken).2 rfl ⟨by decide, by decide⟩
  have hindex := hserves.index_le .vblank (by rw [hinterrupts]; decide)
  have hsource : source = .vblank := by revert hindex; cases source <;> decide
  refine ⟨by rw [hdormant.cpu]; rfl, ?_⟩
  rw [hserves.cpu, hsource]
  rfl

end Console

end GameBoy
