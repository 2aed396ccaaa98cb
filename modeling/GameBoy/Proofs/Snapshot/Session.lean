import GameBoy.Proofs.Console.Invariant
import GameBoy.Proofs.Snapshot.Console

/-!
# Sessions with snapshots

In a session actions are performed on a console, and now and then the console is saved and the session
goes on with what is read back (`Session.Command`).  What can be seen of a session is its record: the
answer to every action, and the console and the listener after it.

No action changes the lengths that a snapshot writes down (`Console.storable_act`).  So every snapshot
of the session is read back, and the record is that of the actions alone (`Session.roundTrip`).
-/

namespace GameBoy

namespace Console

variable {σ : Type}

/-- What an action answers. -/
inductive Answer where
  | stepped (result : Except Fault UInt8)
  | ticked (result : Except Fault Unit)
  | read (value : UInt8)
  /-- The action has no result. -/
  | done

/-- The result of an action for the one who performs it. -/
def Action.answer (listener : Listener σ) (c : Console × σ) : Action → Answer
  | step => .stepped (c.1.step listener c.2).1
  | tick elapsed => .ticked (c.1.tick elapsed listener c.2).1
  | read addr => .read (c.1.access (Transaction.readByte addr) listener c.2).1
  | reset | request _ | write _ _ => .done

/-- The lengths of the ROM and the cartridge RAM never change. -/
theorem storable_act (listener : Listener σ) {c : Console × σ} (h : c.1.Storable)
    (action : Action) : (act listener c action).1.Storable := by
  -- The hardware is the same before and after, and with it the lengths.
  have hact := preserved_act (Bus.SameHardware.preserved c.1.memory) listener (.refl _) action
  exact ⟨by rw [hact.rom]; exact h.rom, by rw [hact.size_ram]; exact h.ram⟩

end Console

namespace Session

open Snapshot Console

variable {σ : Type}

/-- What is done in a session. -/
inductive Command where
  | perform (action : Action)
  /-- The console is saved, and replaced by what is read from the saved bytes with others after
  them. -/
  | restore (trailing : ByteArray)

/-- The action of a command, if it is one. -/
def Command.action? : Command → Option Action
  | perform action => some action
  | restore _ => none

/-- What can be seen of an action: its answer, and the console and the listener after it. -/
abbrev Entry (σ : Type) : Type := Answer × Console × σ

/-- The record of some actions. -/
def record (listener : Listener σ) (c : Console × σ) : List Action → List (Entry σ)
  | [] => []
  | action :: rest =>
    (action.answer listener c, act listener c action) ::
      record listener (act listener c action) rest

/-- The record of some commands; a snapshot that cannot be read ends the session. -/
def play (listener : Listener σ) (c : Console × σ) :
    List Command → Except DecodeError (List (Entry σ))
  | [] => .ok []
  | .perform action :: rest => do
    let later ← play listener (act listener c action) rest
    return (action.answer listener c, act listener c action) :: later
  | .restore trailing :: rest => do
    let m ← Codec.decodeFrom Codec.console (Codec.console.encode c.1 ++ trailing)
    play listener (m, c.2) rest

/-- Snapshots do not show in the record. -/
theorem play_eq_record (listener : Listener σ) {c : Console × σ} (h : c.1.Storable)
    (commands : List Command) :
    play listener c commands = .ok (record listener c (commands.filterMap Command.action?)) := by
  induction commands generalizing c with
  | nil => rfl
  | cons command rest ih =>
    cases command with
    -- The action is recorded, and the console that it leaves can be stored again.
    | perform action =>
      rw [play, ih (storable_act listener h action)]
      rfl
    -- What is read back is the console itself.
    | restore trailing =>
      rw [play, (Codec.restores_console h).decodeFrom_append]
      exact ih h

/-- A snapshot is read back whatever follows it, and a session in which the console is saved and read
back at any time goes on as if it had not been. -/
theorem roundTrip {m : Console} (h : m.Storable) :
    (∀ trailing : ByteArray,
      Codec.decodeFrom Codec.console (Codec.console.encode m ++ trailing) = .ok m) ∧
    ∀ (listener : Listener σ) (s : σ) (commands : List Command),
      play listener (m, s) commands =
        .ok (record listener (m, s) (commands.filterMap Command.action?)) :=
  ⟨(Codec.restores_console h).decodeFrom_append, fun listener _ => play_eq_record listener h⟩

/-- A session of a tick, a request and a step, with a snapshot before each of the last two. -/
theorem roundTrip_tick :
    play Listener.deaf (playing [], ())
        [.perform (.tick ⟨1000⟩), .restore ByteArray.empty, .perform (.request .timer),
          .restore [1, 2, 3].toByteArray, .perform .step] =
      .ok (record Listener.deaf (playing [], ()) [.tick ⟨1000⟩, .request .timer, .step]) :=
  (roundTrip (storable_playing [])).2 Listener.deaf () _

end Session

end GameBoy
