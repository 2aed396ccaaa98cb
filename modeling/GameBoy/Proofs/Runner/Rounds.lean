import GameBoy.Proofs.Machine.Listener
import GameBoy.Runner.Run

/-!
# Rounds of a run

A run is one round after the other, each of which is the tick of a frame.  `Loop.state` says what
becomes of the machine, `Loop.result` how each round ends, and `Machine.frameReports` what is reported
of some rounds.  The run is described by these alone: if every round succeeds it performs and reports
them all (`Machine.runFramesFrom_of_ok`), and else it ends with the first that fails and reports those
before it (`Machine.runFramesFrom_of_error`).

A change of listeners carries over from the ticks to the run (`Machine.runFrames_map`).
-/

namespace GameBoy

/-- Whether the runner itself reports the event. -/
def Event.isOfRunner (event : Event) : Bool := event.target == "wisp"

/-! ## Rounds of a loop

What is said of the rounds does not depend on what a round is, and while it is a variable no tick is
computed when two of them are compared. -/

namespace Loop

variable {S ε : Type} (body : S → Except ε Unit × S)

/-- The state after some rounds, whether they succeed or not. -/
def state : Nat → S → S
  | 0, s => s
  | k + 1, s => state k (body s).2

/-- How a round ends. -/
def result (s : S) (k : Nat) : Except ε Unit := (body (state body k s)).1

/-- One more round can also be taken at the end. -/
theorem state_succ (k : Nat) (s : S) : state body (k + 1) s = (body (state body k s)).2 := by
  induction k generalizing s with
  | zero => rfl
  | succ k ih =>
    rw [state, ih]
    rfl

/-- Either every round succeeds, or there is a first one that fails. -/
theorem forall_ok_or_exists_error (s : S) (n : Nat) :
    (∀ k < n, result body s k = .ok ()) ∨
      ∃ k < n, ∃ e, (∀ j < k, result body s j = .ok ()) ∧ result body s k = .error e := by
  induction n with
  | zero => exact .inl fun k hk => absurd hk (Nat.not_lt_zero k)
  | succ n ih =>
    rcases ih with hok | ⟨k, hk, hfails⟩
    -- The first rounds succeed, so the last one decides.
    · cases hresult : result body s n with
      | ok =>
        refine .inl fun k hk => ?_
        rcases Nat.lt_succ_iff_lt_or_eq.mp hk with hlt | rfl
        · exact hok k hlt
        · exact hresult
      | error e => exact .inr ⟨n, Nat.lt_succ_self n, e, hok, hresult⟩
    · exact .inr ⟨k, Nat.lt_succ_of_lt hk, hfails⟩

/-- What makes a round succeed and is preserved by it makes every round succeed. -/
theorem invariant {P : S → Prop} (hround : ∀ s, P s → (body s).1 = .ok () ∧ P (body s).2) {s : S}
    (h : P s) (k : Nat) : result body s k = .ok () ∧ P (state body k s) := by
  have hstate : P (state body k s) := by
    induction k generalizing s with
    | zero => exact h
    | succ k ih => exact ih (hround s h).2
  exact ⟨(hround _ hstate).1, hstate⟩

section Measure

variable {s : S} {n : Nat} (measure : S → Nat)

/-- What every round adds at least and at most adds up. -/
theorem measure_bounds {low high : Nat}
    (hround : ∀ k < n, measure (state body k s) + low ≤ measure (state body (k + 1) s) ∧
      measure (state body (k + 1) s) ≤ measure (state body k s) + high) :
    measure s + n * low ≤ measure (state body n s) ∧
      measure (state body n s) ≤ measure s + n * high := by
  induction n with
  | zero => simp only [state, Nat.zero_mul, Nat.add_zero, Nat.le_refl, and_self]
  | succ n ih =>
    have hrest := ih fun k hk => hround k (by omega)
    have hlast := hround n (by omega)
    rw [Nat.succ_mul, Nat.succ_mul]
    omega

/-- What grows in every round is greater after more of them. -/
theorem measure_lt_measure
    (hround : ∀ k < n, measure (state body k s) < measure (state body (k + 1) s)) {i j : Nat}
    (hij : i < j) (hj : j ≤ n) : measure (state body i s) < measure (state body j s) := by
  induction j with
  | zero => omega
  | succ j ih =>
    have hlast := hround j (by omega)
    rcases Nat.lt_succ_iff_lt_or_eq.mp hij with hlt | rfl
    · exact Nat.lt_trans (ih hlt (by omega)) hlast
    · exact hlast

end Measure

end Loop

namespace Machine

variable {α β μ σ τ : Type}

/-- What is reported of some rounds that are the ticks of frames. -/
def frameReports (body : Machine μ → Except Fault Unit × Machine μ) (first : Nat) (m : Machine μ)
    (frames : Nat) : List Event :=
  (List.range frames).map fun k => .frameFinished (first + k) (Loop.state body (k + 1) m).cpu.dump

/-- The first frame is reported first, and the others are numbered after it. -/
theorem frameReports_succ (body : Machine μ → Except Fault Unit × Machine μ) (first : Nat)
    (m : Machine μ) (frames : Nat) :
    frameReports body first m (frames + 1) =
      .frameFinished first (body m).2.cpu.dump ::
        frameReports body (first + 1) (body m).2 frames := by
  rw [frameReports, List.range_succ_eq_map, List.map_cons, List.map_map]
  apply congrArg (List.cons _)
  -- The later frames start from the next machine and from the next number.
  apply List.map_congr_left
  intro k _
  show Event.frameFinished (first + (k + 1)) _ = .frameFinished (first + 1 + k) _
  rw [Nat.add_right_comm, Nat.add_assoc]
  rfl

/-- The runner reports each frame in one line. -/
theorem level_frameReports (body : Machine μ → Except Fault Unit × Machine μ) (first : Nat)
    (m : Machine μ) (frames : Nat) :
    (frameReports body first m frames).map Event.level = List.replicate frames .debug := by
  induction frames generalizing first m with
  | zero => rfl
  | succ frames ih =>
    rw [frameReports_succ, List.map_cons, ih]
    rfl

/-- A change of listeners passes through a sequence of two operations. -/
theorem mapHeard_onSuccess {f : σ → τ} {outcome : Except Fault α × Machine μ × σ}
    {next : α → Machine μ → σ → Except Fault β × Machine μ × σ}
    {next' : α → Machine μ → τ → Except Fault β × Machine μ × τ}
    (h : ∀ a m s, next' a m (f s) = mapHeard f (next a m s)) :
    onSuccess (mapHeard f outcome) next' = mapHeard f (onSuccess outcome next) := by
  obtain ⟨result, m, s⟩ := outcome
  cases result with
  | error fault => rfl
  | ok a => exact h a m s

variable [Memory μ] {m : Machine μ} {frame : Duration}

/-! ## Frame by frame -/

section Rounds

variable {body : Machine μ → Except Fault Unit × Machine μ} {ticks : Listener (List Event)}
  (htick : ∀ (m : Machine μ) events, m.tick frame ticks events = ((body m).1, (body m).2, events))

include htick

/-- If every tick succeeds all frames are run and reported. -/
theorem runFramesFrom_of_ok {frames : Nat} (hok : ∀ k < frames, Loop.result body m k = .ok ())
    (first : Nat) (events : List Event) :
    runFramesFrom first frame Listener.log ticks frames m events =
      (.ok (), Loop.state body frames m, events ++ frameReports body first m frames) := by
  -- The number of the first frame and what has been heard differ from round to round.
  induction frames generalizing m first events with
  | zero =>
    rw [runFramesFrom, frameReports, List.range_zero, List.map_nil, List.append_nil]
    rfl
  | succ frames ih =>
    have hfirst : (body m).1 = .ok () := hok 0 (Nat.zero_lt_succ frames)
    have hrest : ∀ k < frames, Loop.result body (body m).2 k = .ok () := by
      intro k hk
      exact hok (k + 1) (by omega)
    rw [runFramesFrom, htick, hfirst, onSuccess]
    rw [ih hrest, frameReports_succ, Listener.log, List.append_assoc]
    rfl

/-- At the first tick that fails the run ends, without a report of its frame. -/
theorem runFramesFrom_of_error {frames k : Nat} {fault : Fault} (hk : k < frames)
    (hok : ∀ j < k, Loop.result body m j = .ok ()) (herror : Loop.result body m k = .error fault)
    (first : Nat) (events : List Event) :
    runFramesFrom first frame Listener.log ticks frames m events =
      (.error fault, Loop.state body (k + 1) m, events ++ frameReports body first m k) := by
  obtain ⟨frames, rfl⟩ : ∃ n, frames = n + 1 := Nat.exists_eq_succ_of_ne_zero (by omega)
  -- Over the rounds that succeed; the one that fails is the base case.
  induction k generalizing frames m first events with
  | zero =>
    have hfirst : (body m).1 = .error fault := herror
    rw [runFramesFrom, htick, hfirst, onSuccess]
    rw [frameReports, List.range_zero, List.map_nil, List.append_nil]
    rfl
  | succ k ih =>
    have hfirst : (body m).1 = .ok () := hok 0 (Nat.zero_lt_succ k)
    have hrest : ∀ j < k, Loop.result body (body m).2 j = .ok () := by
      intro j hj
      exact hok (j + 1) (by omega)
    obtain ⟨frames, rfl⟩ : ∃ n, frames = n + 1 := Nat.exists_eq_succ_of_ne_zero (by omega)
    rw [runFramesFrom, htick, hfirst, onSuccess]
    rw [ih hrest herror _ _ frames (by omega), frameReports_succ, Listener.log, List.append_assoc]
    rfl

end Rounds

/-! ## Who listens -/

section Maps

variable {f : σ → τ} {listener ticks : Listener σ} {listener' ticks' : Listener τ}

/-- The rounds of a run do the same under a map of the listeners. -/
theorem runFramesFrom_map (hticks : ticks.Maps f ticks')
    (hframes : ∀ s event, event.isOfRunner = true → f (listener s event) = listener' (f s) event)
    (first frames : Nat) (m : Machine μ) (s : σ) :
    runFramesFrom first frame listener' ticks' frames m (f s) =
      mapHeard f (runFramesFrom first frame listener ticks frames m s) := by
  induction frames generalizing first m s with
  | zero => rfl
  | succ frames ih =>
    rw [runFramesFrom, runFramesFrom, tick_map hticks]
    apply mapHeard_onSuccess
    intro _ m s
    dsimp only
    rw [← hframes s _ rfl, ih]

/-- The listener of the ticks, which hears of single instructions only if the settings ask for a
trace. -/
def ticksListener (settings : Settings) (listener : Listener σ) : Listener σ :=
  if settings.trace then listener else listener.withoutTrace

/-- A run announces itself, goes through its rounds and reports its end. -/
theorem runFrames_eq (settings : Settings) (listener : Listener σ) (m : Machine μ) (s : σ) :
    m.runFrames settings listener s =
      onSuccess (m.runFramesFrom 0 settings.frame listener (ticksListener settings listener)
          settings.frames (listener s (.runStarted settings.frames settings.fps settings.frame)))
        fun _ m s => (.ok ⟨settings.frames, m.cpu.cycles⟩, m,
          listener s (.runFinished settings.frames m.cpu.cycles.toNat)) := rfl

/-- A run with other listeners, and perhaps with another setting of the trace. -/
theorem runFrames_map {settings settings' : Settings} (hfps : settings'.fps = settings.fps)
    (hcount : settings'.frames = settings.frames)
    (hticks : (ticksListener settings listener).Maps f (ticksListener settings' listener'))
    (hframes : ∀ s event, event.isOfRunner = true → f (listener s event) = listener' (f s) event)
    (m : Machine μ) (s : σ) :
    m.runFrames settings' listener' (f s) = mapHeard f (m.runFrames settings listener s) := by
  have hframe : settings'.frame = settings.frame := by rw [Settings.frame, Settings.frame, hfps]
  rw [runFrames_eq, runFrames_eq, hframe, hcount, hfps, ← hframes s _ rfl]
  rw [runFramesFrom_map hticks hframes]
  apply mapHeard_onSuccess
  intro _ m s
  rw [← hframes s _ rfl]
  rfl

end Maps

/-- Whoever listens hears what the log says. -/
theorem runFrames_eq_foldl (settings : Settings) (listener : Listener σ) (m : Machine μ) (s : σ) :
    m.runFrames settings listener s =
      mapHeard (List.foldl listener s) (m.runFrames settings Listener.log []) := by
  refine runFrames_map (f := List.foldl listener s) (s := []) rfl rfl ?_ ?_ m
  -- The setting of the trace is the same on both sides.
  · rw [ticksListener, ticksListener]
    split
    · exact Listener.maps_log listener s
    · exact (Listener.maps_log listener s).withoutTrace
  · intro events event _
    exact Listener.maps_log listener s events event

end Machine

end GameBoy
