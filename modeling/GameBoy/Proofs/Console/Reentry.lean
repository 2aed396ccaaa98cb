import GameBoy.Proofs.Console.Program

/-!
# Re-entry

Serving a source turns the master switch off, so that a handler is left alone until it turns the
switch on again.  There is one exception: a change of the switch that is under way when a source is
served is not withdrawn, and it happens when the first instruction of the handler retires.

Which change is under way is decided by the instruction that was the last to retire
(`PendingSwitch.inFlight`, `Console.imeSwitch_run`).  Between two services an instruction that turns
the switch on retires, or the last instruction before the first one was such an instruction
(`Console.enabled_between_services`); the latter does happen
(`Console.not_enabled_between_services`).
-/

namespace GameBoy

/-- The instruction turns the master switch on, at once or when the next one retires. -/
def Instruction.Enables (i : Instruction) : Prop :=
  i = .misc .enableInterrupts ∨ i = .jump .retEnable

/-- The change of the master switch that is under way after an instruction has retired; none is if no
instruction has. -/
def PendingSwitch.inFlight : Option Instruction → PendingSwitch
  | some (.misc .enableInterrupts) => .pending true 0
  | some (.misc .disableInterrupts) => .pending false 0
  | _ => .idle

/-! ## The clockwork -/

namespace Clockwork

variable {c : Clockwork} {i : Instruction} {last : Option Instruction}

/-- The switch is off, and no change is under way that turns it on. -/
structure Masked (c : Clockwork) : Prop where
  ime : c.ime = false
  imeSwitch : ∀ remaining, c.imeSwitch ≠ .pending true remaining

/-- The cycles have no part in it. -/
theorem Masked.spend (h : c.Masked) (cycles : UInt8) : (c.spend cycles).Masked := ⟨h.1, h.2⟩

/-- Only an instruction that enables interrupts ends it. -/
theorem Masked.after (h : c.Masked) (hi : ¬i.Enables) : (c.after i).Masked := by
  unfold Clockwork.after
  split
  · exact absurd (.inl rfl) hi
  · exact ⟨h.ime, fun _ => by simp [PendingSwitch.arm]⟩
  · exact absurd (.inr rfl) hi
  · exact h

/-- A retirement does not end it, since no change to on is under way. -/
theorem Masked.retire (h : c.Masked) : c.retire.Masked := by
  obtain ⟨ime, imeSwitch, cycles⟩ := c
  obtain ⟨rfl, hswitch⟩ := h
  cases imeSwitch with
  | idle => exact ⟨rfl, fun _ => by simp [Clockwork.retire, PendingSwitch.retire]⟩
  | pending target remaining =>
    cases target with
    | true => exact absurd rfl (hswitch remaining)
    | false => constructor <;> grind [Clockwork.retire, PendingSwitch.retire]

/-- What an instruction has asked for is due when the next one retires, so nothing is left then. -/
theorem retire_inFlight (last : Option Instruction) :
    (PendingSwitch.inFlight last).retire.2 = .idle := by
  unfold PendingSwitch.inFlight
  split <;> rfl

/-- Only the instruction that retires decides which change is under way. -/
theorem imeSwitch_retire_after (h : c.imeSwitch = .inFlight last) (i : Instruction)
    (cycles : UInt8) : ((c.after i).spend cycles).retire.imeSwitch = .inFlight (some i) := by
  show (c.after i).imeSwitch.retire.2 = _
  -- An instruction that asks for a change sets the switch itself; for any other the old change is
  -- spent.
  unfold Clockwork.after
  split
  · rfl
  · rfl
  · rw [h, retire_inFlight]; rfl
  · rw [h, retire_inFlight]
    unfold PendingSwitch.inFlight
    split <;> simp_all

/-- A change of the switch that is under way happens when an instruction retires that does not ask
for another one. -/
theorem ime_retire_after (h : c.imeSwitch = .pending true 0)
    (henable : i ≠ .misc .enableInterrupts) (hdisable : i ≠ .misc .disableInterrupts)
    (cycles : UInt8) : ((c.after i).spend cycles).retire.ime = true := by
  have hswitch : (c.after i).imeSwitch = .pending true 0 := by
    unfold Clockwork.after
    split <;> first | exact h | contradiction
  show (c.after i).imeSwitch.retire.1.getD _ = true
  rw [hswitch]
  rfl

end Clockwork

/-! ## Steps -/

namespace Machine

variable {μ σ : Type} [Memory μ] {m : Machine μ} {source : Interrupt} {last : Option Instruction}

/-- A step leaves the change under way that the instruction that retires in it asks for. -/
theorem imeSwitch_step (h : m.cpu.imeSwitch = .inFlight last) (listener : Listener σ) (s : σ) :
    (m.step listener s).2.1.cpu.imeSwitch = .inFlight (m.retires.or last) := by
  cases hretires : m.retires with
  | none => exact (ime_of_retires_eq_none hretires listener s).1.trans h
  | some i =>
    obtain ⟨cycles, hclockwork⟩ := clockwork_of_retires hretires listener s
    show (m.step listener s).2.1.cpu.clockwork.imeSwitch = _
    rw [hclockwork]
    exact Clockwork.imeSwitch_retire_after h i cycles

/-- A step keeps interrupts masked unless an instruction that enables them retires. -/
theorem masked_step (h : m.cpu.clockwork.Masked) (henables : ∀ i ∈ m.retires, ¬i.Enables)
    (listener : Listener σ) (s : σ) : (m.step listener s).2.1.cpu.clockwork.Masked := by
  -- Without a retirement the switch can only be turned off, by a service.
  cases hretires : m.retires with
  | none =>
    obtain ⟨hswitch, hime⟩ := ime_of_retires_eq_none hretires listener s
    refine ⟨?_, fun remaining hpending => ?_⟩
    · exact hime.elim (fun hkept => hkept.trans h.ime) And.right
    · exact h.imeSwitch remaining (hswitch.symm.trans hpending)
  | some i =>
    obtain ⟨cycles, hclockwork⟩ := clockwork_of_retires hretires listener s
    rw [hclockwork]
    exact ((h.after (henables i hretires)).spend cycles).retire

/-- Nothing is served while interrupts are masked. -/
theorem not_serve_of_masked (h : m.cpu.clockwork.Masked) : m.duty ≠ .serve source := by
  intro hduty
  obtain ⟨hime, -⟩ := Cpu.duty_wake_eq_serve_iff.mp hduty
  exact Bool.false_ne_true (h.ime.symm.trans hime)

/-- Serving a source masks interrupts, unless they are about to be enabled. -/
theorem masked_of_serve (hduty : m.duty = .serve source) (h : m.cpu.imeSwitch = .inFlight last)
    (hlast : last ≠ some (.misc .enableInterrupts)) (listener : Listener σ) (s : σ) :
    (m.step listener s).2.1.cpu.clockwork.Masked := by
  obtain ⟨-, hmachine⟩ := step_of_serve hduty listener s
  rw [hmachine]
  refine ⟨rfl, fun remaining => ?_⟩
  show m.cpu.imeSwitch ≠ _
  rw [h]
  unfold PendingSwitch.inFlight
  split
  · exact absurd rfl hlast
  · simp
  · simp

/-- After an instruction that enables interrupts with a delay the next one to retire turns the switch
on, unless it asks for a change of its own. -/
theorem ime_step (h : m.cpu.imeSwitch = .inFlight (some (.misc .enableInterrupts)))
    {i : Instruction} (hi : m.retires = some i) (henable : i ≠ .misc .enableInterrupts)
    (hdisable : i ≠ .misc .disableInterrupts) (listener : Listener σ) (s : σ) :
    (m.step listener s).2.1.cpu.ime = true := by
  obtain ⟨cycles, hclockwork⟩ := clockwork_of_retires hi listener s
  show (m.step listener s).2.1.cpu.clockwork.ime = true
  rw [hclockwork]
  exact Clockwork.ime_retire_after h henable hdisable cycles

end Machine

/-! ## Runs -/

namespace Console

variable {σ : Type} {m : Console} {last : Option Instruction}

/-- The instruction that retires in a turn, if there is one. -/
def Turn.retires (m : Console) : Turn → Option Instruction
  | step => m.retires
  | request _ => none

/-- The instructions that retire in some turns, the first one first. -/
def retirements (listener : Listener σ) (c : Console × σ) : List Turn → List Instruction
  | [] => []
  | turn :: rest =>
    (turn.retires c.1).toList ++ retirements listener (act listener c turn.action) rest

/-- A turn leaves the change under way that the last instruction asks for. -/
theorem imeSwitch_act (listener : Listener σ) {c : Console × σ}
    (h : c.1.cpu.imeSwitch = .inFlight last) (turn : Turn) :
    (act listener c turn.action).1.cpu.imeSwitch = .inFlight ((turn.retires c.1).or last) := by
  cases turn with
  | step => exact Machine.imeSwitch_step h listener c.2
  | request source => exact h

/-- The last instruction that has retired decides which change of the switch is under way. -/
theorem imeSwitch_run (listener : Listener σ) {c : Console × σ}
    (h : c.1.cpu.imeSwitch = .inFlight last) (turns : List Turn) :
    (run listener c (turns.map Turn.action)).1.cpu.imeSwitch =
      .inFlight ((retirements listener c turns).getLast?.or last) := by
  -- Over the turns: one that retires nothing leaves the last instruction the last one.
  induction turns generalizing c last with
  | nil => exact h
  | cons turn rest ih =>
    rw [List.map_cons, run, List.foldl_cons, retirements, List.getLast?_append, Option.or_assoc]
    have hlast : (turn.retires c.1).toList.getLast? = turn.retires c.1 := by
      cases turn.retires c.1 <;> rfl
    rw [hlast]
    exact ih (imeSwitch_act listener h turn)

/-- Interrupts stay masked until an instruction that enables them retires. -/
theorem masked_run (listener : Listener σ) {c : Console × σ} (h : c.1.cpu.clockwork.Masked)
    (turns : List Turn) (hretire : ∀ i ∈ retirements listener c turns, ¬i.Enables) :
    (run listener c (turns.map Turn.action)).1.cpu.clockwork.Masked := by
  -- Over the turns: none of them retires an instruction that enables interrupts.
  induction turns generalizing c with
  | nil => exact h
  | cons turn rest ih =>
    rw [retirements, List.forall_mem_append] at hretire
    rw [List.map_cons, run, List.foldl_cons]
    refine ih ?_ hretire.2
    cases turn with
    | step =>
      exact Machine.masked_step h (fun i hi => hretire.1 i (Option.mem_toList.mpr hi)) listener c.2
    | request source => exact h

/-! ## A program that is interrupted twice -/

/-- A run that begins with such a step retires its instruction first. -/
theorem Executes.retirements {m' : Console} {i : Instruction} (h : m.Executes i m')
    (rest : List Turn) : retirements Listener.deaf (m, ()) (.step :: rest) =
      i :: Console.retirements Listener.deaf (m', ()) rest := by
  rw [Console.retirements, Turn.retires, h.retires]
  exact congrArg (fun c => i :: Console.retirements Listener.deaf c rest) h.act

namespace Overlap

/-- A program that listens to all sources, enables interrupts, and asks for that once more when they
are enabled. -/
def code : List UInt8 := [0x2B, 0x75, 0xFB, 0x00, 0xFB]

/-- The processor in the course of the program. -/
def cpu (pc sp : UInt16) (cycles : UInt64) (ime : Bool) (imeSwitch : PendingSwitch) : Cpu :=
  { Cpu.initial with h := 0xFF, l := 0xFF, pc, sp, cycles, ime, imeSwitch }

section Instructions

variable {bus : Bus VideoRam} (h : bus.Plays code)
include h

/-- HL becomes 0xFFFF, the address of the mask of requests. -/
private theorem executes_decrement :
    Executes ⟨.initial, bus⟩ (.calculation (.decrementWord .hl))
      ⟨cpu 0x101 0xFFFE 8 false .idle, bus⟩ :=
  executes_of_plays (.done (.ok 8, cpu 0x101 0xFFFE 8 false .idle)) h rfl rfl (by decide) rfl
    (by decide) rfl rfl

/-- Storing L there enables all sources. -/
private theorem executes_listen :
    Executes ⟨cpu 0x101 0xFFFE 8 false .idle, bus⟩ (.load (.copy .atHL (.register .l)))
      ⟨cpu 0x102 0xFFFE 16 false .idle, bus.write 0xFFFF 0xFF⟩ :=
  executes_of_plays (.write 0xFFFF 0xFF (.done (.ok 8, cpu 0x102 0xFFFE 16 false .idle))) h rfl rfl
    (by decide) rfl (by decide) rfl rfl

/-- The first request to enable interrupts; the change is not due yet. -/
private theorem executes_enable :
    Executes ⟨cpu 0x102 0xFFFE 16 false .idle, bus⟩ (.misc .enableInterrupts)
      ⟨cpu 0x103 0xFFFE 20 false (.pending true 0), bus⟩ :=
  executes_of_plays _ h rfl rfl (by decide) rfl (by decide) rfl rfl

/-- The change happens as this instruction retires. -/
private theorem executes_nop :
    Executes ⟨cpu 0x103 0xFFFE 20 false (.pending true 0), bus⟩ (.control .nop)
      ⟨cpu 0x104 0xFFFE 24 true .idle, bus⟩ :=
  executes_of_plays _ h rfl rfl (by decide) rfl (by decide) rfl rfl

/-- With the switch on already, one more change to on is under way. -/
private theorem executes_enable_again (hactive : bus.interrupts.active = 0) :
    Executes ⟨cpu 0x104 0xFFFE 24 true .idle, bus⟩ (.misc .enableInterrupts)
      ⟨cpu 0x105 0xFFFE 28 true (.pending true 0), bus⟩ := by
  refine executes_of_plays _ h rfl ?_ (by decide) rfl (by decide) rfl rfl
  show Cpu.duty (Cpu.wake _ bus.interrupts.active) bus.interrupts.active = .execute
  -- No source is active, so the step executes and does not serve.
  rw [hactive]
  rfl

/-- The handler begins with an instruction that does nothing. -/
private theorem executes_handler :
    Executes ⟨cpu 0x40 0xFFFC 48 false (.pending true 0), bus⟩ (.control .nop)
      ⟨cpu 0x41 0xFFFC 52 true .idle, bus⟩ :=
  executes_of_plays _ h rfl rfl (by decide) rfl (by decide) rfl rfl

/-- The stack is in the high RAM, away from the interrupt registers. -/
private theorem interrupts_write {addr : UInt16} (haddr : Region.of .dmg addr = .highRam)
    (value : UInt8) : (bus.write addr value).interrupts = bus.interrupts := by
  simp only [Bus.write, h.model, haddr]

/-- All five wired bits of the mask are set. -/
private theorem interrupts_listen :
    (bus.write 0xFFFF 0xFF).interrupts = { bus.interrupts with enable := ⟨0x1F⟩ } := by
  have hregion : Region.of .dmg 0xFFFF = .interruptEnable := rfl
  simp only [Bus.write, h.model, hregion]
  rfl

end Instructions

/-- Two sources ask for service when the program has run. -/
def before : List Turn :=
  [.step, .step, .step, .step, .step, .request .vblank, .request .timer]

/-- The bus after the program. -/
def bus : Bus VideoRam :=
  (((playing code).memory.write 0xFFFF 0xFF).request .vblank).request .timer

/-- The program is still what it was. -/
theorem plays_bus : bus.Plays code :=
  (((plays_playing code).write 0xFFFF 0xFF).request .vblank).request .timer

/-- All sources are enabled and two of them are pending. -/
theorem interrupts_bus : bus.interrupts = ⟨⟨0x1F⟩, ⟨5⟩⟩ := by
  show Interrupts.request (Interrupts.request (Bus.write _ _ _).interrupts .vblank) .timer = _
  rw [interrupts_listen (plays_playing code)]
  rfl

/-- What the program has done when the requests have come. -/
theorem run_before :
    run Listener.deaf (playing code, ()) (before.map Turn.action) =
        (⟨cpu 0x105 0xFFFE 28 true (.pending true 0), bus⟩, ()) ∧
      retirements Listener.deaf (playing code, ()) before =
        [.calculation (.decrementWord .hl), .load (.copy .atHL (.register .l)),
          .misc .enableInterrupts, .control .nop, .misc .enableInterrupts] := by
  have hplays := plays_playing code
  have hlisten := hplays.write 0xFFFF 0xFF
  have hactive : ((playing code).memory.write 0xFFFF 0xFF).interrupts.active = 0 := by
    rw [interrupts_listen hplays]
    rfl
  have h₁ : (playing code).Executes _ ⟨_, (playing code).memory⟩ := executes_decrement hplays
  have h₂ := executes_listen hplays
  have h₃ := executes_enable hlisten
  have h₄ := executes_nop hlisten
  have h₅ := executes_enable_again hlisten hactive
  constructor
  · rw [before, h₁.run, h₂.run, h₃.run, h₄.run, h₅.run]
    rfl
  · rw [before, h₁.retirements, h₂.retirements, h₃.retirements, h₄.retirements, h₅.retirements]
    rfl

/-- The bus after the service. -/
def servedBus : Bus VideoRam :=
  ((Memory.acknowledge bus .vblank).write 0xFFFC 0x05).write 0xFFFD 0x01

/-- The service has not touched the program. -/
theorem plays_servedBus : servedBus.Plays code :=
  ((plays_bus.acknowledge .vblank).write 0xFFFC 0x05).write 0xFFFD 0x01

/-- The request of the source that was served is gone, and the timer is still pending. -/
theorem interrupts_servedBus : servedBus.interrupts = ⟨⟨0x1F⟩, ⟨4⟩⟩ := by
  have hplays := plays_bus.acknowledge .vblank
  rw [servedBus, interrupts_write (hplays.write _ _) rfl, interrupts_write hplays rfl]
  show Interrupts.acknowledge bus.interrupts .vblank = _
  rw [interrupts_bus]
  rfl

/-- The more important source is served first. -/
theorem duty_before :
    Machine.duty (run Listener.deaf (playing code, ()) (before.map Turn.action)).1 =
      .serve .vblank := by
  rw [run_before.1]
  show Cpu.duty (Cpu.wake _ bus.interrupts.active) bus.interrupts.active = _
  rw [interrupts_bus]
  rfl

/-- The machine at the start of the handler. -/
theorem act_before :
    act Listener.deaf (run Listener.deaf (playing code, ()) (before.map Turn.action)) .step =
      (⟨cpu 0x40 0xFFFC 48 false (.pending true 0), servedBus⟩, ()) := by
  have hmachine := (Machine.step_of_serve duty_before Listener.deaf ()).2
  rw [run_before.1] at hmachine ⊢
  exact congrArg (·, ()) hmachine

end Overlap

/-! ## Two services -/

/-- When a source is served, interrupts are masked until an instruction retires that enables them:
between two services there is one, unless the last instruction before the first service was one that
enables interrupts with a delay.  In that case the first instruction of the handler turns the switch
on, unless it asks for a change of its own. -/
theorem enabled_between_services (hcpu : m.cpu = .initial) (listener : Listener σ) (s : σ)
    {before : List Turn} {first : Interrupt}
    (hfirst : (run listener (m, s) (before.map Turn.action)).1.duty = .serve first) :
    let last := (retirements listener (m, s) before).getLast?
    let handler := act listener (run listener (m, s) (before.map Turn.action)) .step
    (∀ between second, (run listener handler (between.map Turn.action)).1.duty = .serve second →
      (∃ i ∈ retirements listener handler between, i.Enables) ∨
        last = some (.misc .enableInterrupts)) ∧
    (last = some (.misc .enableInterrupts) → ∀ i, handler.1.retires = some i →
      i ≠ .misc .enableInterrupts → i ≠ .misc .disableInterrupts →
        (act listener handler .step).1.cpu.ime = true) := by
  intro last handler
  have hinitial : m.cpu.imeSwitch = .inFlight none := by rw [hcpu]; rfl
  have hswitch := imeSwitch_run listener (c := (m, s)) hinitial before
  rw [Option.or_none] at hswitch
  refine ⟨fun between second hsecond => ?_, fun hlast i hi henable hdisable => ?_⟩
  · by_cases hlast : last = some (.misc .enableInterrupts)
    · exact .inr hlast
    · left
      -- If no such instruction retired, the switch would have stayed off, and nothing is served
      -- then.
      apply Classical.byContradiction
      intro hretire
      have hhandler : handler.1.cpu.clockwork.Masked :=
        Machine.masked_of_serve hfirst hswitch hlast listener _
      have hmasked := masked_run listener hhandler between
        fun i hi henables => hretire ⟨i, hi, henables⟩
      exact Machine.not_serve_of_masked hmasked hsecond
  · -- A service retires nothing, so the change is still under way.
    have hserve : Machine.retires (run listener (m, s) (before.map Turn.action)).1 = none := by
      rw [Machine.retires, hfirst]
    have hhandler := imeSwitch_act listener hswitch .step
    rw [Turn.retires, hserve, Option.none_or] at hhandler
    exact Machine.ime_step (hhandler.trans (congrArg _ hlast)) hi henable hdisable listener _

/-- There the switch is on after the first instruction of the handler, which does nothing. -/
theorem enabled_between_services_overlap :
    (act Listener.deaf (act Listener.deaf
      (run Listener.deaf (playing Overlap.code, ()) (Overlap.before.map Turn.action)) .step) .step
        ).1.cpu.ime = true := by
  have hlast : (retirements Listener.deaf (playing Overlap.code, ()) Overlap.before).getLast? =
      some (.misc .enableInterrupts) := by
    rw [Overlap.run_before.2]
    rfl
  have hretires : Machine.retires (act Listener.deaf (run Listener.deaf
      (playing Overlap.code, ()) (Overlap.before.map Turn.action)) .step).1 =
        some (.control .nop) := by
    rw [Overlap.act_before]
    exact (Overlap.executes_handler Overlap.plays_servedBus).retires
  have hcpu : (playing Overlap.code).cpu = .initial := rfl
  have h := enabled_between_services hcpu Listener.deaf () Overlap.duty_before
  exact h.2 hlast _ hretires (by decide) (by decide)

/-- The exception happens: between these two services of a loaded program no instruction retires that
enables interrupts. -/
theorem not_enabled_between_services :
    let c := run Listener.deaf (playing Overlap.code, ()) (Overlap.before.map Turn.action)
    let handler := act Listener.deaf c .step
    load (Cartridge.programImage Overlap.code) = .ok (playing Overlap.code) ∧
      Machine.duty c.1 = .serve .vblank ∧
      Machine.duty (run Listener.deaf handler ([Turn.step].map Turn.action)).1 = .serve .timer ∧
      ¬∃ i ∈ retirements Listener.deaf handler [.step], i.Enables := by
  have hnop := Overlap.executes_handler Overlap.plays_servedBus
  refine ⟨load_playing _, Overlap.duty_before, ?_, ?_⟩
  -- One instruction of the handler has retired, and the timer is served next.
  · rw [Overlap.act_before, hnop.run]
    show Cpu.duty (Cpu.wake _ Overlap.servedBus.interrupts.active)
      Overlap.servedBus.interrupts.active = _
    rw [Overlap.interrupts_servedBus]
    rfl
  · rw [Overlap.act_before, hnop.retirements]
    rintro ⟨i, hi, henables⟩
    obtain rfl := List.mem_singleton.mp hi
    cases henables <;> contradiction

end Console

end GameBoy
