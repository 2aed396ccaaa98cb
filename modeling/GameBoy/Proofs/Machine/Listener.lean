import GameBoy.Proofs.Machine.Steps

/-!
# Listeners under a map

A function between the states of two listeners maps the one to the other if it can be applied before an
event is heard or after it (`Listener.Maps`).  Then it can be applied before or after a whole run, and
the run does the same (`Machine.tick_map`).  Two cases are used again and again: whoever listens maps
to nobody, and the log of all events maps to every listener (`Listener.maps_log`).
-/

namespace GameBoy

variable {α μ σ τ : Type}

namespace Listener

/-- What a listener makes of an event can be seen after a function as well as before it. -/
def Maps (f : σ → τ) (listener : Listener σ) (listener' : Listener τ) : Prop :=
  ∀ s event, f (listener s event) = listener' (f s) event

/-- The listener that writes everything down. -/
def log : Listener (List Event) := fun events event => events ++ [event]

variable {f : σ → τ} {listener : Listener σ} {listener' : Listener τ}

/-- A map carries over from one event to several. -/
theorem Maps.hear (h : Maps f listener listener') (s : σ) (events : List Event) :
    f (listener.hear s events) = listener'.hear (f s) events := by
  induction events generalizing s with
  | nil => rfl
  | cons event rest ih =>
    show f (listener.hear (listener s event) rest) = listener'.hear (listener' (f s) event) rest
    rw [ih, h]

/-- A map carries over to the listeners without the trace. -/
theorem Maps.withoutTrace (h : Maps f listener listener') :
    Maps f listener.withoutTrace listener'.withoutTrace := by
  intro s event
  cases event
  case executing => rfl
  all_goals exact h s _

/-- Whoever listens, from the log it can be told what has been heard. -/
theorem maps_log (listener : Listener σ) (s : σ) : Maps (List.foldl listener s) log listener := by
  intro events event
  -- What is heard last is at the end of the log.
  rw [log, List.foldl_append]
  rfl

/-- Nothing can be told apart once it has been forgotten. -/
theorem maps_deaf (listener : Listener σ) : Maps (fun _ => ()) listener deaf := fun _ _ => rfl

end Listener

/-- An outcome with what was heard under a function. -/
def Machine.mapHeard (f : σ → τ) (outcome : α × Machine μ × σ) : α × Machine μ × τ :=
  (outcome.1, outcome.2.1, f outcome.2.2)

variable [Memory μ] {f : σ → τ} {listener : Listener σ} {listener' : Listener τ}

/-- A transaction runs alike under a map. -/
theorem Transaction.run_map (h : listener.Maps f listener') (t : Transaction α) (m : μ) (s : σ) :
    t.run listener' m (f s) =
      ((t.run listener m s).1, (t.run listener m s).2.1, f (t.run listener m s).2.2) := by
  -- Over the transaction: the map goes past each report, those of the memory included.
  induction t generalizing m s with
  | done a => rfl
  | read addr next ih =>
    rw [run, run, ← h.hear]
    exact ih _ m _
  | write addr value next ih =>
    rw [run, run, ← h.hear]
    exact ih _ _
  | poll next ih => exact ih _ m s
  | acknowledge source next ih => exact ih _ s
  | report event next ih =>
    rw [run, run, ← h]
    exact ih m _

namespace Machine

/-- A step does the same under a map. -/
theorem step_map (h : listener.Maps f listener') (m : Machine μ) (s : σ) :
    m.step listener' (f s) = mapHeard f (m.step listener s) := by
  rw [step, perform, Transaction.run_map h, step, perform]
  rfl

/-- Going towards a target does the same under a map. -/
theorem runUntil_map (h : listener.Maps f listener') (target : UInt64) (m : Machine μ) (s : σ) :
    m.runUntil target listener' (f s) = mapHeard f (m.runUntil target listener s) := by
  -- The cases are the ways in which a round of the loop can go.
  refine runUntil.induct target listener
    (fun m s => m.runUntil target listener' (f s) = mapHeard f (m.runUntil target listener s))
    ?fault ?more ?stuck ?reached m s
  case fault =>
    intro m s before _ hlt fault m' s' hstep
    have hstep' : m.step listener' (f s) = (.error fault, m', f s') := by rw [step_map h, hstep]; rfl
    rw [runUntil_of_fault hlt hstep, runUntil_of_fault hlt hstep']
    rfl
  case more =>
    intro m s before _ hlt cycles m' s' hstep hup ih
    have hstep' : m.step listener' (f s) = (.ok cycles, m', f s') := by rw [step_map h, hstep]; rfl
    rw [runUntil_of_up hlt hstep hup, runUntil_of_up hlt hstep' hup]
    exact ih
  case stuck =>
    intro m s before _ hlt cycles m' s' hstep hup
    have hstep' : m.step listener' (f s) = (.ok cycles, m', f s') := by rw [step_map h, hstep]; rfl
    rw [runUntil_of_not_up hlt hstep hup, runUntil_of_not_up hlt hstep' hup]
    rfl
  case reached =>
    intro m s before _ hge
    rw [runUntil_of_reached hge, runUntil_of_reached hge]
    rfl

/-- A tick does the same under a map. -/
theorem tick_map (h : listener.Maps f listener') (elapsed : Duration) (m : Machine μ) (s : σ) :
    m.tick elapsed listener' (f s) = mapHeard f (m.tick elapsed listener s) :=
  runUntil_map h (m.cpu.target elapsed) m s

end Machine

end GameBoy
