import GameBoy.Bus
import GameBoy.Runner.Settings

/-!
# Running frames

A run loads an image and ticks the console one frame at a time.  It ends after the number of frames
that the settings give, or at the first fault.
-/

namespace GameBoy

/-- What a run that has come to its end tells. -/
structure RunSummary where
  frames : Nat
  cycles : UInt64
  deriving DecidableEq

/-- Why a run ends early or does not start. -/
inductive RunError where
  | unreadable (e : ReadError)
  | load (e : LoadError)
  | fault (f : Fault)
  deriving DecidableEq, Repr

/-- The text that a user is told. -/
def RunError.message : RunError → String
  | unreadable e => e.message
  | load e => e.message
  | fault f => f.message

namespace Machine

variable {α β μ σ : Type} [Memory μ]

/-- Goes on after an operation unless it has failed. -/
@[inline] def onSuccess (outcome : Except Fault α × Machine μ × σ)
    (next : α → Machine μ → σ → Except Fault β × Machine μ × σ) :
    Except Fault β × Machine μ × σ :=
  match outcome with
  | (.error fault, m, s) => (.error fault, m, s)
  | (.ok a, m, s) => next a m s

/-- Runs some frames.  The first one has the given number. -/
@[specialize] def runFramesFrom (first : Nat) (frame : Duration) (listener ticks : Listener σ) :
    Nat → Machine μ → σ → Except Fault Unit × Machine μ × σ
  | 0, m, s => (.ok (), m, s)
  | frames + 1, m, s =>
    onSuccess (m.tick frame ticks s) fun _ m s =>
      -- A frame that fails is not reported as finished.
      let s := listener s (.frameFinished first m.cpu.dump)
      runFramesFrom (first + 1) frame listener ticks frames m s

/-- Runs the frames that the settings ask for.  The listener hears of single instructions only if the
settings ask for a trace. -/
@[specialize] def runFrames (settings : Settings) (listener : Listener σ) (m : Machine μ) (s : σ) :
    Except Fault RunSummary × Machine μ × σ :=
  -- Frames are reported with or without a trace.
  let ticks := if settings.trace then listener else listener.withoutTrace
  let s := listener s (.runStarted settings.frames settings.fps settings.frame)
  onSuccess (m.runFramesFrom 0 settings.frame listener ticks settings.frames s) fun _ m s =>
    let s := listener s (.runFinished settings.frames m.cpu.cycles.toNat)
    (.ok ⟨settings.frames, m.cpu.cycles⟩, m, s)

end Machine

/-- Loads an image and runs its frames. -/
def Settings.runImage {σ : Type} (settings : Settings) (listener : Listener σ) (image : ByteArray)
    (s : σ) : Except RunError RunSummary × σ :=
  let s := listener.hear s (Cartridge.loadEvents image)
  match Console.load image with
  | .error e => (.error (.load e), s)
  | .ok console =>
    match console.runFrames settings listener s with
    | (.error fault, _, s) => (.error (.fault fault), s)
    | (.ok summary, _, s) => (.ok summary, s)

/-- Reads the image that the settings name and runs its program. -/
def Settings.run {m : Type → Type} [Monad m] {σ : Type} (read : FileReader m) (settings : Settings)
    (listener : Listener σ) (s : σ) : m (Except RunError RunSummary × σ) := do
  match ← read settings.image with
  | .error reason => return (.error (.unreadable ⟨settings.image, reason⟩), s)
  | .ok image => return settings.runImage listener image s

end GameBoy
