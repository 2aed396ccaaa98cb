import GameBoy.Proofs.Console.Sleep
import GameBoy.Proofs.Machine.Reports
import GameBoy.Proofs.Machine.Target
import GameBoy.Proofs.Runner.Rounds

/-!
# Frames

The command line and the settings file decide how many frames are run and how long they are
(`Settings.frames_merge`, `Settings.fps_merge`, `Settings.budget_merge`).  Nothing that happens within
a frame is in the log of the runner (`Machine.tick_runnerLog`), so the log of a run follows from how
its frames end, and as long as nothing overflows every frame takes about its budget
(`Machine.cycles_frame`).  `Machine.runs_frame_by_frame` puts everything together.
-/

namespace GameBoy

/-! ## Settings -/

namespace Settings

/-- The value of a setting: that of the command line, else that of the settings file, else the
default. -/
def chosen (argument file : Option Nat) (default : Nat) : Nat :=
  match argument, file with
  | some n, _ => n
  | none, some n => n
  | none, none => default

variable (arguments : Arguments) (file : FileSettings)

/-- The number of frames is the chosen one. -/
theorem frames_merge :
    (merge arguments file).frames = chosen arguments.frames file.frames defaultFrames := by
  show (arguments.frames <|> file.frames).getD defaultFrames = _
  cases arguments.frames <;> cases file.frames <;> rfl

/-- The frame rate is the chosen one, moved into its limits. -/
theorem fps_merge :
    (merge arguments file).fps =
      max minimumFps (min maximumFps (chosen arguments.fps file.fps defaultFps)) := by
  show max minimumFps (min maximumFps ((arguments.fps <|> file.fps).getD defaultFps)) = _
  cases arguments.fps <;> cases file.fps <;> rfl

/-- The frame rate is within its limits. -/
theorem fps_merge_mem : 20 ≤ (merge arguments file).fps ∧ (merge arguments file).fps ≤ 60 := by
  rw [fps_merge]
  simp only [minimumFps, maximumFps]
  omega

/-- A frame rate within the limits makes a frame neither too short nor too long. -/
theorem budget_merge :
    69905 ≤ (merge arguments file).frame.budget ∧ (merge arguments file).frame.budget ≤ 209715 := by
  obtain ⟨hmin, hmax⟩ := fps_merge_mem arguments file
  generalize hsettings : merge arguments file = settings at hmin hmax ⊢
  -- At the highest rate a frame is shortest, and at the lowest it is longest.
  have hshort : 1000000000 / 60 ≤ 1000000000 / settings.fps :=
    Nat.div_le_div_left hmax (by omega)
  have hlong : 1000000000 / settings.fps ≤ 1000000000 / 20 := Nat.div_le_div_left hmin (by decide)
  show 69905 ≤ 1000000000 / settings.fps * 4194304 / 1000000000 ∧
    1000000000 / settings.fps * 4194304 / 1000000000 ≤ 209715
  omega

end Settings

/-! ## Reports of the runner -/

namespace Event

/-- Whether the event is a line of the trace. -/
def isTrace (event : Event) : Bool := event.target == traceTarget

/-- What the machine reports is not a report of the runner. -/
theorem IsOfMachine.isOfRunner_eq {event : Event} (h : event.IsOfMachine) :
    event.isOfRunner = false := by
  cases event <;> first | rfl | exact absurd h not_false

end Event

namespace Listener

/-- The log of what the runner itself reports. -/
def runnerLog : Listener (List Event) := fun events event =>
  if event.isOfRunner then events ++ [event] else events

/-- The log of the runner takes no notice of the machine. -/
theorem ignores_runnerLog : runnerLog.Ignores Event.IsOfMachine := by
  intro events event h
  rw [runnerLog, h.isOfRunner_eq]
  rfl

/-- The log of the runner is the part of the log that the runner reports. -/
theorem maps_runnerLog : log.Maps (List.filter Event.isOfRunner) runnerLog := by
  intro events event
  rw [log, runnerLog, List.filter_append, List.filter_cons, List.filter_nil]
  split
  · rfl
  · exact List.append_nil _

/-- Without the trace the runner reports the same. -/
theorem maps_runnerLog_withoutTrace :
    log.withoutTrace.Maps (List.filter Event.isOfRunner) runnerLog := by
  intro events event
  cases event
  case executing => rfl
  all_goals exact maps_runnerLog events _

/-- To leave out the trace is to drop its lines from the log. -/
theorem maps_log_withoutTrace :
    log.Maps (List.filter fun event => !event.isTrace) log.withoutTrace := by
  intro events event
  rw [log, List.filter_append]
  cases event
  -- The line is dropped on one side and was not heard on the other.
  case executing => exact List.append_nil _
  all_goals rfl

end Listener

namespace Machine

variable {α μ σ : Type} [Memory μ] {m : Machine μ} {frame : Duration}

/-- Without the trace a run does the same, and its log lacks nothing but the lines of the trace. -/
theorem runFrames_withoutTrace (settings : Settings) (m : Machine μ) :
    m.runFrames { settings with trace := false } Listener.log [] =
      mapHeard (List.filter fun event => !event.isTrace)
        (m.runFrames { settings with trace := true } Listener.log []) := by
  refine runFrames_map (f := List.filter fun event : Event => !event.isTrace) (s := []) ?_ ?_ ?_ ?_ m
  · rfl
  · rfl
  · exact Listener.maps_log_withoutTrace
  · intro events event h
    rw [Listener.maps_log_withoutTrace events event]
    cases event <;> first | rfl | cases h

/-! ## The log of the runner -/

/-- An outcome without what has been heard. -/
def unheard (outcome : Except Fault α × Machine μ × σ) : Except Fault α × Machine μ :=
  (outcome.1, (after outcome).1)

omit [Memory μ] in

/-- The result is kept. -/
theorem unheard_fst (outcome : Except Fault α × Machine μ × σ) :
    (unheard outcome).1 = outcome.1 := rfl

omit [Memory μ] in

/-- The machine is kept. -/
theorem unheard_snd (outcome : Except Fault α × Machine μ × σ) :
    (unheard outcome).2 = (after outcome).1 := rfl

/-- The tick of a frame that nobody listens to. -/
def frameTick (frame : Duration) (m : Machine μ) : Except Fault Unit × Machine μ :=
  unheard (m.tick frame Listener.deaf ())

/-- How the tick of a frame ends. -/
theorem frameTick_fst (frame : Duration) (m : Machine μ) :
    (frameTick frame m).1 = (m.tick frame Listener.deaf ()).1 := by
  rw [frameTick, unheard_fst]

/-- The machine after the tick of a frame. -/
theorem frameTick_snd (frame : Duration) (m : Machine μ) :
    (frameTick frame m).2 = (after (m.tick frame Listener.deaf ())).1 := by
  rw [frameTick, unheard_snd]

/-- Nothing that happens in a tick is in the log of the runner. -/
theorem tick_runnerLog (hμ : Memory.Reports Event.IsOfAccess μ) (frame : Duration) (m : Machine μ)
    (events : List Event) :
    m.tick frame Listener.runnerLog events =
      ((frameTick frame m).1, (frameTick frame m).2, events) := by
  have hmap := tick_map (Listener.maps_deaf Listener.runnerLog) frame m events
  have hsame := ignores_tick hμ Listener.ignores_runnerLog frame m events
  rw [frameTick, hmap]
  -- As a variable the outcome is not computed when its parts are compared.
  generalize m.tick frame Listener.runnerLog events = outcome at hsame ⊢
  obtain ⟨result, m', events'⟩ := outcome
  obtain rfl : events' = events := hsame
  rfl

section Run

variable {settings : Settings}

/-- What is said of the ticks of a run with the log of the runner holds of the run as it is, whether
the trace is on or off. -/
theorem runFramesFrom_of_runnerLog {started reports : List Event} {frames : Nat}
    {result : Except Fault Unit} {m' : Machine μ}
    (hstarted : started.filter Event.isOfRunner = started)
    (hrun : runFramesFrom 0 frame Listener.log Listener.runnerLog frames m started =
      (result, m', started ++ reports)) :
    ∃ events, runFramesFrom 0 frame Listener.log (ticksListener settings Listener.log) frames m
        started = (result, m', events) ∧
      events.filter Event.isOfRunner = started ++ reports := by
  have hticks : (ticksListener settings Listener.log).Maps (List.filter Event.isOfRunner)
      Listener.runnerLog := by
    rw [ticksListener]
    split
    · exact Listener.maps_runnerLog
    · exact Listener.maps_runnerLog_withoutTrace
  -- What the runner reports is in both logs.
  have hframes (events : List Event) (event : Event) (h : event.isOfRunner = true) :
      (Listener.log events event).filter Event.isOfRunner =
        Listener.log (events.filter Event.isOfRunner) event := by
    rw [Listener.maps_runnerLog events event, Listener.runnerLog, if_pos h]
    rfl
  have hmap : runFramesFrom 0 frame Listener.log Listener.runnerLog frames m
        (started.filter Event.isOfRunner) =
      mapHeard (List.filter Event.isOfRunner)
        (runFramesFrom 0 frame Listener.log (ticksListener settings Listener.log) frames m started) :=
    runFramesFrom_map hticks hframes 0 frames m started
  rw [hstarted, hrun] at hmap
  -- The run itself is not looked into; it is compared with the one for the runner.
  generalize runFramesFrom 0 frame Listener.log (ticksListener settings Listener.log) frames m
    started = outcome at hmap ⊢
  obtain ⟨result', m'', events⟩ := outcome
  simp only [mapHeard, Prod.mk.injEq] at hmap
  obtain ⟨rfl, rfl, hevents⟩ := hmap
  exact ⟨events, rfl, hevents.symm⟩

variable (hμ : Memory.Reports Event.IsOfAccess μ)
include hμ

/-- A run whose ticks all succeed. -/
theorem runFrames_of_ok
    (hok : ∀ k < settings.frames, Loop.result (frameTick settings.frame) m k = .ok ()) :
    let last := Loop.state (frameTick settings.frame) settings.frames m
    ∃ events, m.runFrames settings Listener.log [] =
        (.ok ⟨settings.frames, last.cpu.cycles⟩, last, events) ∧
      events.filter Event.isOfRunner =
        .runStarted settings.frames settings.fps settings.frame ::
          frameReports (frameTick settings.frame) 0 m settings.frames ++
        [.runFinished settings.frames last.cpu.cycles.toNat] := by
  intro last
  obtain ⟨events, hrun, hevents⟩ := runFramesFrom_of_runnerLog rfl
    (runFramesFrom_of_ok (tick_runnerLog hμ settings.frame) hok 0
      [.runStarted settings.frames settings.fps settings.frame])
  -- The last line is added behind what has been heard of the frames.
  refine ⟨events ++ [.runFinished settings.frames last.cpu.cycles.toNat], ?_, ?_⟩
  · rw [runFrames_eq]
    show onSuccess (runFramesFrom _ _ _ _ _ m [_]) _ = _
    rw [hrun, onSuccess]
    rfl
  · rw [List.filter_append, hevents]
    rfl

/-- A run in which a tick fails. -/
theorem runFrames_of_error {k : Nat} {fault : Fault} (hk : k < settings.frames)
    (hok : ∀ j < k, Loop.result (frameTick settings.frame) m j = .ok ())
    (herror : Loop.result (frameTick settings.frame) m k = .error fault) :
    ∃ events, m.runFrames settings Listener.log [] =
        (.error fault, Loop.state (frameTick settings.frame) (k + 1) m, events) ∧
      events.filter Event.isOfRunner =
        .runStarted settings.frames settings.fps settings.frame ::
          frameReports (frameTick settings.frame) 0 m k := by
  obtain ⟨events, hrun, hevents⟩ := runFramesFrom_of_runnerLog rfl
    (runFramesFrom_of_error (tick_runnerLog hμ settings.frame) hk hok herror 0
      [.runStarted settings.frames settings.fps settings.frame])
  refine ⟨events, ?_, hevents⟩
  rw [runFrames_eq]
  show onSuccess (runFramesFrom _ _ _ _ _ m [_]) _ = _
  rw [hrun, onSuccess]

end Run

/-! ## Cycles -/

section Cycles

/-- A frame in which nothing overflows moves the counter by its budget and at most 23 cycles more. -/
theorem cycles_frame {k : Nat} (hfits : (Loop.state (frameTick frame) k m).Fits frame)
    (hok : Loop.result (frameTick frame) m k = .ok ()) :
    (Loop.state (frameTick frame) k m).cpu.cycles.toNat + frame.budget ≤
        (Loop.state (frameTick frame) (k + 1) m).cpu.cycles.toNat ∧
      (Loop.state (frameTick frame) (k + 1) m).cpu.cycles.toNat ≤
        (Loop.state (frameTick frame) k m).cpu.cycles.toNat + (frame.budget + 23) := by
  rw [Loop.result, frameTick_fst] at hok
  rw [Loop.state_succ, frameTick_snd, ← Nat.add_assoc]
  exact hfits.cycles hok

variable {frames : Nat} (hok : ∀ k < frames, Loop.result (frameTick frame) m k = .ok ())
include hok

/-- Frames in which nothing overflows take their budgets and at most 23 cycles more for each. -/
theorem cycles_frames
    (hfits : ∀ k < frames, (Loop.state (frameTick frame) k m).Fits frame) :
    m.cpu.cycles.toNat + frames * frame.budget ≤
        (Loop.state (frameTick frame) frames m).cpu.cycles.toNat ∧
      (Loop.state (frameTick frame) frames m).cpu.cycles.toNat ≤
        m.cpu.cycles.toNat + frames * (frame.budget + 23) := by
  apply Loop.measure_bounds (frameTick frame) fun m : Machine μ => m.cpu.cycles.toNat
  intro k hk
  exact cycles_frame (hfits k hk) (hok k hk)

/-- The counter stands higher after every frame. -/
theorem cycles_lt_cycles
    (hfits : ∀ k < frames, (Loop.state (frameTick frame) k m).Fits frame)
    (hpos : 0 < frame.budget) {i j : Nat} (hij : i < j) (hj : j ≤ frames) :
    (Loop.state (frameTick frame) i m).cpu.cycles < (Loop.state (frameTick frame) j m).cpu.cycles := by
  rw [UInt64.lt_iff_toNat_lt]
  apply Loop.measure_lt_measure (frameTick frame) (fun m : Machine μ => m.cpu.cycles.toNat) _ hij hj
  intro k hk
  have hle := (cycles_frame (hfits k hk) (hok k hk)).1
  omega

/-- With room for the cycles of all frames nothing overflows. -/
theorem fits_of_room_for_frames
    (hroom : m.cpu.cycles.toNat + frames * (frame.budget + 23) < UInt64.size) :
    ∀ k < frames, (Loop.state (frameTick frame) k m).Fits frame := by
  intro k hk
  -- The bound for a frame needs all frames before it to fit.
  induction k using Nat.strongRecOn with
  | ind k ih =>
    have hbefore : ∀ j < k, Loop.result (frameTick frame) m j = .ok () := by
      intro j hj
      exact hok j (by omega)
    have hle := (cycles_frames hbefore fun j hj => ih j hj (by omega)).2
    -- The frames so far have left room for this one and those to come.
    have hrest : (k + 1) * (frame.budget + 23) ≤ frames * (frame.budget + 23) :=
      Nat.mul_le_mul_right _ hk
    rw [Nat.succ_mul] at hrest
    apply fits_of_room
    omega

end Cycles

/-! ## Frames without faults -/

/-- What every step preserves every frame preserves, and if it keeps the steps from failing no frame
fails. -/
theorem frameTick_of_invariant {P : Machine μ → Prop}
    (hstep : ∀ m, P m → ∃ cycles m', m.step Listener.deaf () = (.ok cycles, m', ()) ∧ P m')
    (h : P m) (frame : Duration) : (frameTick frame m).1 = .ok () ∧ P (frameTick frame m).2 := by
  have hafter (c : Machine μ × Unit) (hc : P c.1) : P (after (c.1.step Listener.deaf c.2)).1 := by
    obtain ⟨cycles, m', hs, h'⟩ := hstep c.1 hc
    rw [hs]
    exact h'
  obtain ⟨n, before, s₀, -, hbefore, hends⟩ :=
    exists_ends_runUntil (m.cpu.target frame) Listener.deaf m ()
  have hP : P before := by
    have hP := stepMany_invariant (P := fun c => P c.1) hafter n (c := (m, ())) h
    rwa [hbefore] at hP
  -- The invariant holds where the loop ends, so the step from there does not fail.
  obtain ⟨cycles, next, hs, hnext⟩ := hstep before hP
  rw [frameTick_fst, frameTick_snd, tick]
  generalize m.runUntil (m.cpu.target frame) Listener.deaf () = outcome at hends ⊢
  cases hends with
  | reached => exact ⟨rfl, hP⟩
  | failed hfails =>
    rw [hs] at hfails
    cases hfails
  | overrun _ hsucceeds =>
    rw [hs] at hsucceeds
    cases hsucceeds
    exact ⟨rfl, hnext⟩

/-- A halted machine that nothing wakes up. -/
structure Asleep (m : Machine μ) : Prop where
  halted : m.cpu.activity = .halted
  quiet : Memory.active m.memory = 0

/-- Sleep goes on. -/
theorem Asleep.step (h : m.Asleep) :
    ∃ m' : Machine μ, m.step Listener.deaf () = (.ok sleepCycles, m', ()) ∧ m'.Asleep := by
  have hsleeps : m.Sleeps := .inl ⟨h.halted, h.quiet⟩
  exact ⟨m.later 4, hsleeps.step_eq Listener.deaf (), h.halted, h.quiet⟩

/-- The first step of a program that halts at once puts the processor to sleep. -/
theorem step_playing_halt :
    ∃ cycles m', (Console.playing [0x76]).step Listener.deaf () = (.ok cycles, m', ()) ∧
      m'.Asleep := by
  let halted : Console :=
    ⟨{ Cpu.initial with pc := 0x101, cycles := 4, activity := .halted },
      (Console.playing [0x76]).memory⟩
  have hexecutes : Console.Executes (Console.playing [0x76]) (.control .halt) halted :=
    Console.executes_of_plays _ (Console.plays_playing [0x76]) rfl rfl (by decide) rfl (by decide)
      rfl rfl
  obtain ⟨cycles, hs⟩ := hexecutes.step
  exact ⟨cycles, halted, hs, rfl, Console.active_playing [0x76]⟩

/-- A console whose program halts at once succeeds in every frame. -/
theorem frames_halting (frame : Duration) (k : Nat) :
    Loop.result (frameTick frame) (Console.playing [0x76]) k = .ok () := by
  let P (m : Console) : Prop := m = Console.playing [0x76] ∨ m.Asleep
  have hstep (m : Console) (h : P m) :
      ∃ cycles m', m.step Listener.deaf () = (.ok cycles, m', ()) ∧ P m' := by
    rcases h with rfl | h
    · obtain ⟨cycles, m', hs, h'⟩ := step_playing_halt
      exact ⟨cycles, m', hs, .inr h'⟩
    · obtain ⟨m', hs, h'⟩ := h.step
      exact ⟨sleepCycles, m', hs, .inr h'⟩
  exact (Loop.invariant (frameTick frame) (fun m h => frameTick_of_invariant hstep h frame)
    (.inl rfl) k).1

/-- A console whose program begins with an undefined op code fails in the first frame. -/
theorem frame_undefined {frame : Duration} (hpos : frame.clockCycles ≠ 0) :
    Loop.result (frameTick frame) (Console.playing [0xD3]) 0 = .error ⟨0xD3, 0x0100⟩ := by
  have hcode : Cartridge.codeByte [0xD3] (0x0100 : UInt16).toNat = 0xD3 := by decide
  have hread : Memory.read (Console.playing [0xD3]).memory 0x0100 = 0xD3 :=
    ((Console.plays_playing [0xD3]).read (by decide)).trans hcode
  have hduty : (Console.playing [0xD3]).duty = .execute := by
    rw [duty, Console.active_playing]
    rfl
  have hfetched : (Console.playing [0xD3]).fetched = none := by
    rw [fetched_eq_none_iff]
    show Memory.read (Console.playing [0xD3]).memory 0x0100 ∈ _
    rw [hread]
    decide
  -- There is something to do in the frame, so the loop takes its first step.
  have hlt : (Console.playing [0xD3]).cpu.cycles < (Console.playing [0xD3]).cpu.target frame := by
    apply lt_target hpos
    have hcycles := frame.clockCycles.toNat_lt
    show 0 + frame.clockCycles.toNat < UInt64.size
    simp only [UInt64.size]
    omega
  rw [Loop.result, Loop.state, frameTick_fst, tick_rouses hduty hfetched hlt]
  show Except.error (Fault.mk (Memory.read (Console.playing [0xD3]).memory 0x0100) 0x0100) = _
  rw [hread]

/-! ## Runs -/

/-- The command line and the settings file decide how many frames are run and how long they are, and
the length is always within bounds.  A run succeeds exactly if the tick of every frame does, and then
its summary, the machine that it leaves and what the runner reports follow from the ticks; unless
something overflows, every frame takes its budget and at most 23 cycles more.  At the first tick that
fails the run ends with its fault and without a report of its frame.  A trace adds its own lines to the
log and changes nothing else, and whoever listens hears what the log says. -/
theorem runs_frame_by_frame {V : Type} [VideoDevice V] (arguments : Arguments) (file : FileSettings)
    (m : Machine (Bus V)) :
    let settings := Settings.merge arguments file
    let frame := settings.frame
    let frames := settings.frames
    let after k := Loop.state (frameTick frame) k m
    let result k := Loop.result (frameTick frame) m k
    let started := Event.runStarted frames settings.fps frame
    let reports k := frameReports (frameTick frame) 0 m k
    let run := m.runFrames settings Listener.log []
    let own := run.2.2.filter Event.isOfRunner
    (settings.fps = max 20 (min 60 (Settings.chosen arguments.fps file.fps 30)) ∧
      frames = Settings.chosen arguments.frames file.frames 60 ∧
      20 ≤ settings.fps ∧ settings.fps ≤ 60 ∧
      frame.budget = 1000000000 / settings.fps * 4194304 / 1000000000 ∧
      69905 ≤ frame.budget ∧ frame.budget ≤ 209715) ∧
    ((∃ summary, run.1 = .ok summary) ↔ ∀ k < frames, result k = .ok ()) ∧
    ((∀ k < frames, result k = .ok ()) →
      run.1 = .ok ⟨frames, (after frames).cpu.cycles⟩ ∧ run.2.1 = after frames ∧
      own = started :: reports frames ++ [.runFinished frames (after frames).cpu.cycles.toNat] ∧
      own.map Event.level = .info :: List.replicate frames .debug ++ [.info] ∧
      ((∀ k < frames, (after k).Fits frame) →
        m.cpu.cycles.toNat + frames * frame.budget ≤ (after frames).cpu.cycles.toNat ∧
        (after frames).cpu.cycles.toNat ≤ m.cpu.cycles.toNat + frames * (frame.budget + 23) ∧
        ∀ i j, i < j → j ≤ frames → (after i).cpu.dump.cycles < (after j).cpu.dump.cycles)) ∧
    (∀ k < frames, ∀ fault, (∀ j < k, result j = .ok ()) → result k = .error fault →
      run.1 = .error fault ∧ run.2.1 = after (k + 1) ∧ own = started :: reports k) ∧
    m.runFrames { settings with trace := false } Listener.log [] =
      mapHeard (List.filter fun event : Event => !event.isTrace)
        (m.runFrames { settings with trace := true } Listener.log []) ∧
    ∀ {σ : Type} (listener : Listener σ) (s : σ),
      m.runFrames settings listener s = mapHeard (List.foldl listener s) run := by
  intro settings frame frames after result started reports run own
  have hsettings := Settings.fps_merge_mem arguments file
  have hbudget := Settings.budget_merge arguments file
  -- The two ways in which a run can end, each as what it leaves and what is reported.
  have hok (h : ∀ k < frames, result k = .ok ()) : ∃ events,
      run = (.ok ⟨frames, (after frames).cpu.cycles⟩, after frames, events) ∧
        events.filter Event.isOfRunner = started :: reports frames ++
          [.runFinished frames (after frames).cpu.cycles.toNat] :=
    runFrames_of_ok Bus.reports h
  have herror {k : Nat} (hk : k < frames) {fault : Fault} (hbefore : ∀ j < k, result j = .ok ())
      (hfault : result k = .error fault) : ∃ events,
      run = (.error fault, after (k + 1), events) ∧
        events.filter Event.isOfRunner = started :: reports k :=
    runFrames_of_error Bus.reports hk hbefore hfault
  have hcalm := runFrames_withoutTrace settings m
  have hheard {σ : Type} (listener : Listener σ) (s : σ) :
      m.runFrames settings listener s = mapHeard (List.foldl listener s) run :=
    runFrames_eq_foldl settings listener m s
  -- Everything that the run does is known now, so its parts need not be computed to be compared.
  clear_value run
  refine ⟨⟨Settings.fps_merge .., Settings.frames_merge .., hsettings.1, hsettings.2, rfl, hbudget⟩,
    ⟨?_, ?_⟩, ?_, ?_, hcalm, hheard⟩
  · rintro ⟨summary, hsummary⟩
    -- A run that ends with a summary has no round that fails, else it would end there.
    rcases Loop.forall_ok_or_exists_error (frameTick frame) m frames with
      hall | ⟨k, hk, fault, hbefore, hfault⟩
    · exact hall
    · obtain ⟨events, rfl, -⟩ := herror hk hbefore hfault
      cases hsummary
  · intro hall
    obtain ⟨events, rfl, -⟩ := hok hall
    exact ⟨_, rfl⟩
  · intro hall
    obtain ⟨events, rfl, hown⟩ := hok hall
    refine ⟨rfl, rfl, hown, ?_, ?_⟩
    -- One line at the start, one for each frame, one at the end.
    · show (events.filter Event.isOfRunner).map Event.level = _
      rw [hown, List.map_append, List.map_cons, level_frameReports]
      rfl
    · intro hfits
      obtain ⟨hmin, hmax⟩ := cycles_frames hall hfits
      refine ⟨hmin, hmax, fun i j hij hj => ?_⟩
      -- The counter in a report is that of the machine after the frame.
      exact cycles_lt_cycles hall hfits (Nat.lt_of_lt_of_le (by decide) hbudget.1) hij hj
  · intro k hk fault hbefore hfault
    obtain ⟨events, rfl, hown⟩ := herror hk hbefore hfault
    exact ⟨rfl, rfl, hown⟩

/-- A command line that asks for two frames, and for more of them in a second than there may be. -/
def hasty : Arguments := ⟨"halt.gb", some 75, some 2, true, none⟩

/-- Of two programs that are to run for two frames, one halts and sleeps through both, and the other
fails in the first. -/
theorem runs_frame_by_frame_halting :
    (∃ cycles : UInt64,
      ((Console.playing [0x76]).runFrames (.merge hasty {}) Listener.log []).1 = .ok ⟨2, cycles⟩ ∧
        139810 ≤ cycles.toNat ∧ cycles.toNat ≤ 139856) ∧
      ((Console.playing [0xD3]).runFrames (.merge hasty {}) Listener.log []).1 =
        .error ⟨0xD3, 0x0100⟩ ∧
      ((Console.playing [0xD3]).runFrames (.merge hasty {}) Listener.log []).2.2.filter
          Event.isOfRunner = [.runStarted 2 60 ⟨16666666⟩] := by
  obtain ⟨-, -, hhalts, -⟩ := runs_frame_by_frame hasty {} (Console.playing [0x76])
  obtain ⟨-, -, -, hfails, -⟩ := runs_frame_by_frame hasty {} (Console.playing [0xD3])
  have hframes : (Settings.merge hasty {}).frames = 2 := rfl
  have hfps : (Settings.merge hasty {}).fps = 60 := rfl
  have hframe : (Settings.merge hasty {}).frame = ⟨16666666⟩ := rfl
  have hbudget : (⟨16666666⟩ : Duration).budget = 69905 := by decide
  have hcycles : (Console.playing [0x76]).cpu.cycles.toNat = 0 := rfl
  -- The rate is cut to 60 frames in a second.
  simp only [hframes, hfps, hframe, hbudget, hcycles] at hhalts hfails
  constructor
  · have hok (k : Nat) (_ : k < 2) := frames_halting ⟨16666666⟩ k
    obtain ⟨hresult, -, -, -, hcycles⟩ := hhalts hok
    obtain ⟨hmin, hmax, -⟩ := hcycles (fits_of_room_for_frames hok (by decide))
    exact ⟨_, hresult, hmin, hmax⟩
  · obtain ⟨hresult, -, hown⟩ :=
      hfails 0 (by decide) _ (fun j hj => by omega) (frame_undefined (by decide))
    exact ⟨hresult, hown⟩

end Machine

end GameBoy
