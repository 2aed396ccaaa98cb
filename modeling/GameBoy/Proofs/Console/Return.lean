import GameBoy.Proofs.Console.Drain
import GameBoy.Proofs.Console.Reentry

/-!
# Returning from a handler

RETI goes on at the word on top of the stack and turns the master switch on itself, without the delay
of EI.  It retires like every instruction, though, so a change of the switch that was under way when
it began happens right after it has turned the switch on.  Such a change comes from the instruction
that retired last: after an EI it makes no difference, and after a DI it turns the switch off again.

`Console.returns_and_enables` says this of every return in every run, and
`Console.not_returns_and_enables` is a program that returns with interrupts disabled.
-/

namespace GameBoy

/-- A switch that an instruction turns on is still on when the instruction has retired, unless the one
before it has asked to turn it off. -/
theorem PendingSwitch.getD_retire_inFlight (last : Option Instruction) :
    (inFlight last).retire.1.getD true = decide (last ≠ some (.misc .disableInterrupts)) := by
  unfold inFlight
  split
  · rfl
  · rfl
  · next hdisable =>
    have hne : last ≠ some (.misc .disableInterrupts) := hdisable
    exact (decide_eq_true hne).symm

namespace Console

variable {σ : Type} {m : Console}

/-- The console after a return from a handler, with the master switch as given. -/
def returned (m : Console) (ime : Bool) : Console where
  cpu := { m.cpu with
    activity := .running
    ime := ime
    imeSwitch := .idle
    sp := m.cpu.sp + 2
    pc := m.stackTop
    cycles := m.cpu.cycles + 16 }
  memory := m.memory

/-- What a step does that returns from a handler, if it is known which instruction retired last. -/
theorem act_step_of_return {c : Console × σ} {last : Option Instruction}
    (hswitch : c.1.cpu.imeSwitch = .inFlight last) (hduty : c.1.duty = .execute)
    (hcode : Memory.read c.1.memory c.1.cpu.pc = 0xD9) (listener : Listener σ) :
    (c.1.step listener c.2).1 = .ok 16 ∧
      (act listener c .step).1 = c.1.returned (last ≠ some (.misc .disableInterrupts)) := by
  obtain ⟨hresult, hmachine⟩ :=
    Machine.step_of_retEnable hduty (Machine.fetched_of_return hcode) listener c.2
  refine ⟨hresult, Eq.trans hmachine ?_⟩
  have hrunning : c.1.awake.cpu.activity = .running :=
    (Cpu.duty_wake_eq_execute_iff.mp hduty).1
  -- The return turns the switch on, and then the change that was under way happens.
  have hretire : c.1.awake.cpu.imeSwitch.retire =
      ((PendingSwitch.inFlight last).retire.1, .idle) := by
    show c.1.cpu.imeSwitch.retire = _
    rw [hswitch, ← Clockwork.retire_inFlight last]
  simp only [Cpu.retire, hretire, hrunning, PendingSwitch.getD_retire_inFlight]
  rfl

/-- In every run of a console from the start of its program, a step that returns from a handler goes on
at the word on top of the stack, and the master switch is on after it, unless the last instruction
that retired asked to turn it off. -/
theorem returns_and_enables (hcpu : m.cpu = .initial) (listener : Listener σ) (s : σ)
    {before : List Turn}
    (hduty : (run listener (m, s) (before.map Turn.action)).1.duty = .execute)
    (hcode : Bus.read (run listener (m, s) (before.map Turn.action)).1.memory
      (run listener (m, s) (before.map Turn.action)).1.cpu.pc = 0xD9) :
    let c := run listener (m, s) (before.map Turn.action)
    let last := (retirements listener (m, s) before).getLast?
    (c.1.step listener c.2).1 = .ok 16 ∧
      (act listener c .step).1 = c.1.returned (last ≠ some (.misc .disableInterrupts)) := by
  intro c last
  have hinitial : m.cpu.imeSwitch = .inFlight none := by rw [hcpu]; rfl
  have hswitch := imeSwitch_run listener (c := (m, s)) hinitial before
  -- At the start of a program no instruction has retired, so none has asked for a change.
  rw [Option.or_none] at hswitch
  exact act_step_of_return hswitch hduty hcode listener

/-! ## Returns right after a request to switch -/

/-- A program that asks to turn the master switch on or off, and returns. -/
def switchAndReturn (target : Bool) : List UInt8 := [if target then 0xFB else 0xF3, 0xD9]

/-- The console in front of the return. -/
def atReturn (target : Bool) : Console where
  cpu := { Cpu.initial with pc := 0x101, cycles := 4, imeSwitch := .pending target 0 }
  memory := (playing (switchAndReturn target)).memory

/-- The instruction in front of the return. -/
def switching (target : Bool) : Instruction :=
  .misc (if target then .enableInterrupts else .disableInterrupts)

/-- The request to switch is the first instruction of the program. -/
theorem executes_switching (target : Bool) :
    (playing (switchAndReturn target)).Executes (switching target) (atReturn target) := by
  cases target <;>
    exact executes_of_plays _ (plays_playing _) rfl rfl (by decide) rfl (by decide) rfl rfl

/-- After one step the console is in front of the return. -/
theorem run_switchAndReturn (target : Bool) :
    run Listener.deaf (playing (switchAndReturn target), ()) ([Turn.step].map Turn.action) =
      (atReturn target, ()) :=
  (executes_switching target).run []

/-- The next op code is that of the return. -/
theorem read_atReturn (target : Bool) :
    Bus.read (atReturn target).memory (atReturn target).cpu.pc = 0xD9 := by
  have haddr : (0x101 : UInt16) < 0x8000 := by decide
  show Bus.read (playing (switchAndReturn target)).memory 0x101 = 0xD9
  rw [(plays_playing (switchAndReturn target)).read haddr]
  cases target <;> decide

/-- After a request to turn the switch on, the return leaves it on. -/
theorem returns_and_enables_switching :
    let c := run Listener.deaf (playing (switchAndReturn true), ()) ([Turn.step].map Turn.action)
    Machine.duty c.1 = .execute ∧ Bus.read c.1.memory c.1.cpu.pc = 0xD9 ∧
      (act Listener.deaf c .step).1 = Console.returned c.1 true := by
  have hduty : Machine.duty (run Listener.deaf (playing (switchAndReturn true), ())
      ([Turn.step].map Turn.action)).1 = .execute := by
    rw [run_switchAndReturn]
    rfl
  have hcode : Bus.read (run Listener.deaf (playing (switchAndReturn true), ())
      ([Turn.step].map Turn.action)).1.memory (run Listener.deaf (playing (switchAndReturn true), ())
      ([Turn.step].map Turn.action)).1.cpu.pc = 0xD9 := by
    rw [run_switchAndReturn]
    exact read_atReturn true
  have hreturned := (returns_and_enables rfl Listener.deaf () hduty hcode).2
  rw [(executes_switching true).retirements] at hreturned
  exact ⟨hduty, hcode, hreturned⟩

/-- After a request to turn the switch off, it is off after the return. -/
theorem not_returns_and_enables :
    let c := run Listener.deaf (playing (switchAndReturn false), ()) ([Turn.step].map Turn.action)
    load (Cartridge.programImage (switchAndReturn false)) = .ok (playing (switchAndReturn false)) ∧
      Machine.duty c.1 = .execute ∧ Bus.read c.1.memory c.1.cpu.pc = 0xD9 ∧
      (act Listener.deaf c .step).1.cpu.ime = false := by
  rw [run_switchAndReturn]
  have hswitch : (atReturn false).cpu.imeSwitch = .inFlight (some (.misc .disableInterrupts)) := rfl
  have hduty : (atReturn false).duty = .execute := rfl
  refine ⟨load_playing _, hduty, read_atReturn false, ?_⟩
  have hreturned := (act_step_of_return (c := (atReturn false, ())) hswitch hduty
    (read_atReturn false) Listener.deaf).2
  rw [hreturned]
  rfl

end Console

end GameBoy
