import GameBoy.Proofs.Bus.Index
import GameBoy.Proofs.Instruction.Table
import GameBoy.Proofs.Machine.Steps

/-!
# The invariant of a running console

`Console.Action` lists what can be done to a console from outside: it steps and ticks, is reset, and
its bus is accessed and asked for interrupts.  Whatever program runs and in whatever order this is
done, the console keeps `Bus.Invariant`, and every index that is computed on the way is in range
(`Console.run_invariant`).

No instruction is looked at for this.  A step reaches the memory only through accesses, and every
access keeps the invariant.
-/

namespace GameBoy

/-! ## The invariant -/

/-- What holds of the bus of a console that has run for a while from a given start. -/
structure Bus.Invariant (start bus : Bus VideoRam) : Prop where
  wellFormed : bus.WellFormed
  inStep : bus.InStep
  sameHardware : start.SameHardware bus

namespace Bus.Invariant

variable {start bus : Bus VideoRam}

/-- A write keeps the invariant, wherever it goes. -/
theorem write (h : start.Invariant bus) (addr : UInt16) (v : UInt8) :
    start.Invariant (bus.write addr v) where
  wellFormed := h.wellFormed.write addr v
  inStep := h.inStep.write addr v
  sameHardware := h.sameHardware.trans (.write bus addr v)

/-- A request keeps the invariant. -/
theorem request (h : start.Invariant bus) (source : Interrupt) :
    start.Invariant (bus.request source) where
  wellFormed := h.wellFormed.request source
  inStep := h.inStep
  sameHardware := h.sameHardware.trans (.request bus source)

/-- Taking up a request keeps the invariant. -/
theorem acknowledge (h : start.Invariant bus) (source : Interrupt) :
    start.Invariant (Memory.acknowledge bus source) where
  wellFormed := h.wellFormed.acknowledge source
  inStep := h.inStep
  sameHardware := h.sameHardware.trans (.acknowledge bus source)

end Bus.Invariant

/-- A property of buses that whatever happens to a bus preserves. -/
structure Bus.Preserved (P : Bus VideoRam → Prop) : Prop where
  write {bus : Bus VideoRam} : P bus → ∀ addr value, P (bus.write addr value)
  acknowledge {bus : Bus VideoRam} : P bus → ∀ source, P (Memory.acknowledge bus source)
  request {bus : Bus VideoRam} : P bus → ∀ source, P (bus.request source)

/-- No access exchanges the cartridge or the model. -/
theorem Bus.SameHardware.preserved (start : Bus VideoRam) : Bus.Preserved start.SameHardware where
  write h addr value := h.trans (.write _ addr value)
  acknowledge h source := h.trans (.acknowledge _ source)
  request h source := h.trans (.request _ source)

/-- A bank register takes no number but that of a bank. -/
theorem Bus.BanksExist.preserved : Bus.Preserved Bus.BanksExist where
  write h := h.write
  acknowledge h _ := ⟨h.workRam_le, h.video_le⟩
  request h _ := ⟨h.workRam_le, h.video_le⟩

/-- No access makes a bus ill-formed. -/
theorem Bus.WellFormed.preserved : Bus.Preserved Bus.WellFormed where
  write h := h.write
  acknowledge h := h.acknowledge
  request h := h.request

/-- Whatever happens to a bus preserves the invariant. -/
theorem Bus.Invariant.preserved (start : Bus VideoRam) : Bus.Preserved start.Invariant where
  write h := h.write
  acknowledge h := h.acknowledge
  request h := h.request

/-- Every access masks what it writes to the interrupt registers. -/
theorem Interrupts.WellFormed.preserved :
    Bus.Preserved fun bus : Bus VideoRam => bus.interrupts.WellFormed where
  write h := h.write
  acknowledge h := h.acknowledge
  request h := h.request

/-! ## Actions -/

namespace Console

variable {σ : Type} {image : ByteArray} {m : Console}

/-- What can be done to a console from outside. -/
inductive Action where
  | step
  | tick (elapsed : Duration)
  | reset
  | request (source : Interrupt)
  | read (addr : UInt16)
  | write (addr : UInt16) (value : UInt8)

/-- The console and the listener after an action, whether it succeeds or not. -/
def act (listener : Listener σ) (c : Console × σ) : Action → Console × σ
  | .step => Machine.after (c.1.step listener c.2)
  | .tick elapsed => Machine.after (c.1.tick elapsed listener c.2)
  | .reset => (c.1.reset, c.2)
  | .request source => ({ c.1 with memory := c.1.memory.request source }, c.2)
  | .read addr => Machine.after (c.1.access (Transaction.readByte addr) listener c.2)
  | .write addr value => Machine.after (c.1.access (Transaction.writeByte addr value) listener c.2)

/-- The console and the listener after some actions, the first one first. -/
def run (listener : Listener σ) (c : Console × σ) (actions : List Action) : Console × σ :=
  actions.foldl (act listener) c

/-- Every index that an action computes is in range.  A tick is some number of steps. -/
def Action.InRange (listener : Listener σ) (c : Console × σ) : Action → Prop
  | step => Access.AllInRange c.1.memory c.1.accesses
  | tick elapsed =>
    ∃ n, act listener c (.tick elapsed) = Machine.stepMany listener n c ∧
      ∀ k < n, Access.AllInRange (Machine.stepMany listener k c).1.memory
        (Machine.stepMany listener k c).1.accesses
  | reset | request _ => True
  | read addr => (Access.read addr).InRange c.1.memory
  | write addr value => (Access.write addr value).InRange c.1.memory

/-- The consoles to start from: the one that plays an image, or one that is put together from its
cartridge and empty video memory, of either model. -/
inductive Started (image : ByteArray) : Console → Prop where
  | load {m : Console} (h : Console.load image = .ok m) : Started image m
  | assemble {cartridge : Cartridge} (h : Cartridge.load image = .ok cartridge) (model : Model) :
      Started image (.boot (.assemble cartridge .empty model))

/-- The console that plays an image is put together from its cartridge. -/
theorem assemble_of_load (h : Console.load image = .ok m) :
    ∃ cartridge, Cartridge.load image = .ok cartridge ∧
      m = .boot (.assemble cartridge .empty cartridge.model) := by
  unfold Console.load at h
  cases hload : Cartridge.load image with
  | error e => rw [hload] at h; cases h
  | ok cartridge => rw [hload] at h; cases h; exact ⟨cartridge, rfl, rfl⟩

/-- The invariant holds at the start. -/
theorem Started.invariant (h : Started image m) : m.memory.Invariant m.memory := by
  have hassemble {cartridge : Cartridge} (h : Cartridge.load image = .ok cartridge)
      (model : Model) : (Bus.assemble cartridge .empty model).Invariant
        (Bus.assemble cartridge VideoRam.empty model) :=
    ⟨.assemble (Cartridge.wellFormed_of_load h) (by decide) model, rfl, .refl _⟩
  cases h with
  | load h =>
    obtain ⟨cartridge, hload, rfl⟩ := assemble_of_load h
    exact hassemble hload cartridge.model
  | assemble h model => exact hassemble h model

section Preserved

variable {P : Bus VideoRam → Prop} (hP : Bus.Preserved P)
include hP

/-- What every access preserves holds after a step. -/
theorem preserved_step (listener : Listener σ) (c : Console × σ) (h : P c.1.memory) :
    P (Machine.after (c.1.step listener c.2)).1.memory := by
  -- The program is not looked at: every access of a step preserves the property.
  show P (c.1.step listener c.2).2.1.memory
  rw [Machine.memory_step]
  exact Access.performAll_induction (P := P) (fun _ addr value h => hP.write h addr value)
    (fun _ source h => hP.acknowledge h source) h c.1.accesses

/-- What every access preserves holds after an action. -/
theorem preserved_act (listener : Listener σ) {c : Console × σ} (h : P c.1.memory)
    (action : Action) : P (act listener c action).1.memory := by
  cases action with
  | step => exact preserved_step hP listener c h
  | tick elapsed =>
    -- A tick is some number of steps, each of which preserves the property.
    exact Machine.tick_invariant (P := fun c => P c.1.memory) (preserved_step hP listener) h elapsed
  | reset => exact h
  | request source => exact hP.request h source
  | read addr => exact h
  | write addr value => exact hP.write h addr value

/-- What every access preserves holds after a run. -/
theorem preserved_run (listener : Listener σ) {c : Console × σ} (h : P c.1.memory)
    (actions : List Action) : P (run listener c actions).1.memory := by
  -- Over the actions, the first one first.
  induction actions generalizing c with
  | nil => exact h
  | cons action rest ih => exact ih (preserved_act hP listener h action)

end Preserved

variable {start : Bus VideoRam}

/-- The step lemma of the invariant: every action keeps it. -/
theorem invariant_act (listener : Listener σ) {c : Console × σ} (h : start.Invariant c.1.memory)
    (action : Action) : start.Invariant (act listener c action).1.memory :=
  preserved_act (Bus.Invariant.preserved start) listener h action

/-- Every index that an action computes is in range if the selected banks exist. -/
theorem inRange_of_banksExist (listener : Listener σ) {c : Console × σ} (h : c.1.memory.BanksExist)
    (action : Action) : action.InRange listener c := by
  cases action with
  | step => exact h.allInRange c.1.accesses
  | tick elapsed =>
    obtain ⟨n, hn⟩ := Machine.exists_stepMany_tick elapsed listener c.1 c.2
    refine ⟨n, hn, fun k _ => ?_⟩
    -- The banks still exist before each step of the tick.
    have hk : (Machine.stepMany listener k c).1.memory.BanksExist :=
      Machine.stepMany_invariant (P := fun c : Console × σ => c.1.memory.BanksExist)
        (preserved_step Bus.BanksExist.preserved listener) k h
    exact hk.allInRange _
  | reset => trivial
  | request source => trivial
  | read addr => exact h.indices_inRange addr
  | write addr value => exact h.writeIndices_inRange addr value

/-- The invariant puts every index that the next action computes in range. -/
theorem inRange_act (listener : Listener σ) {c : Console × σ} (h : start.Invariant c.1.memory)
    (action : Action) : action.InRange listener c :=
  inRange_of_banksExist listener h.wellFormed.banksExist action

/-- Whatever is done to a console, it keeps the invariant, the next action computes no index that is
out of range, and no instruction that it can meet computes with a number that is. -/
theorem run_invariant (h : Started image m) (listener : Listener σ) (s : σ)
    (actions : List Action) :
    m.memory.Invariant (run listener (m, s) actions).1.memory ∧
      (∀ action : Action, action.InRange listener (run listener (m, s) actions)) ∧
      ∀ code d, Descriptor.primary code = some d ∨ Descriptor.extended code = d →
        d.instruction.Fits := by
  -- Over the actions: each keeps the invariant, and with it the next ones stay in range.
  have hrun (c : Console × σ) (hc : m.memory.Invariant c.1.memory) :
      m.memory.Invariant (run listener c actions).1.memory := by
    induction actions generalizing c with
    | nil => exact hc
    | cons action rest ih => exact ih (act listener c action) (invariant_act listener hc action)
  have hend := hrun (m, s) h.invariant
  exact ⟨hend, inRange_act listener hend, fun _ _ => Instruction.fits_of_descriptor⟩

/-- A console of the colour model never sees the first bank of working RAM at 0xD000, although its
program asks for it. -/
theorem run_invariant_sample :
    1 ≤ (run Listener.deaf (.boot (.assemble .sample .empty .cgb), ())
      [.write 0xFF70 0, .request .timer, .tick ⟨1000⟩, .step, .reset, .read 0xD000]
        ).1.memory.workRamBank :=
  (run_invariant (.assemble Cartridge.load_sample .cgb) Listener.deaf ()
    [.write 0xFF70 0, .request .timer, .tick ⟨1000⟩, .step, .reset, .read 0xD000]
      ).1.wellFormed.workRamBank_pos

end Console

end GameBoy
