import GameBoy.Proofs.Bus.Hidden
import GameBoy.Proofs.Snapshot.Session

/-!
# Isolation

What a console without bank registers holds in the banks that it cannot select, and what any console
holds as sprites, has no influence on anything that it does (`Console.hidden_memory_isolated`).  It may
step, tick, be reset, and have its bus accessed and interrupts requested, in any order: another console
that differs in nothing else gives the same answers, has the same processor and the same memory but for
these parts, and a listener hears the same.  The banks themselves never change.

The instructions are not looked at.  All that a console does to its bus are accesses, which two such
buses answer alike.
-/

namespace GameBoy.Console

variable {σ : Type}

section Alike

variable {R : Bus VideoRam → Bus VideoRam → Prop} (hsim : Memory.Simulation (fun _ => True) R)
  (hrequest : ∀ {bus bus' : Bus VideoRam}, R bus bus' → ∀ source,
    R (bus.request source) (bus'.request source))

include hsim hrequest

variable (listener : Listener σ)

/-- An action on consoles with related buses has the same answer and leaves them related. -/
theorem alike_act {c c' : Console × σ} (h : c.1.Related R c'.1) (hheard : c'.2 = c.2)
    (action : Action) :
    Alike (Machine.Related R) (action.answer listener c, act listener c action)
      (action.answer listener c', act listener c' action) := by
  obtain ⟨m, s⟩ := c
  obtain ⟨m', s'⟩ := c'
  obtain rfl : s' = s := hheard
  -- A step and a tick by the simulation of runs, an access from outside by that of one transaction.
  cases action with
  | step =>
    have hstep : Alike (Machine.Related R) (m.step listener s') (m'.step listener s') :=
      hsim.step h (fun _ _ => trivial) s'
    exact hstep.map Answer.stepped
  | tick elapsed =>
    have htick : Alike (Machine.Related R) (m.tick elapsed listener s')
        (m'.tick elapsed listener s') := hsim.tick (fun _ => trivial) elapsed h s'
    exact htick.map Answer.ticked
  | reset => exact ⟨rfl, ⟨rfl, h.memory⟩, rfl⟩
  | request source => exact ⟨rfl, ⟨h.cpu, hrequest h.memory source⟩, rfl⟩
  | read addr =>
    have hread : Alike (Machine.Related R) (m.access (Transaction.readByte addr) listener s')
        (m'.access (Transaction.readByte addr) listener s') :=
      hsim.access _ h (fun _ _ => trivial) s'
    exact hread.map Answer.read
  | write addr value =>
    have hwrite : Alike (Machine.Related R) (m.access (Transaction.writeByte addr value) listener s')
        (m'.access (Transaction.writeByte addr value) listener s') :=
      hsim.access _ h (fun _ _ => trivial) s'
    exact hwrite.map fun _ => Answer.done

/-- So do any actions, and after them every action still has the same answer. -/
theorem alike_run (c c' : Console × σ) (h : c.1.Related R c'.1) (hheard : c'.2 = c.2)
    (actions : List Action) :
    (run listener c actions).1.Related R (run listener c' actions).1 ∧
      (run listener c' actions).2 = (run listener c actions).2 ∧
      ∀ action : Action, action.answer listener (run listener c' actions) =
        action.answer listener (run listener c actions) := by
  -- Over the actions: related consoles stay related, and the answers have been the same so far.
  induction actions generalizing c c' with
  | nil => exact ⟨h, hheard, fun action => (alike_act hsim hrequest listener h hheard action).result⟩
  | cons action rest ih =>
    have hact := alike_act hsim hrequest listener h hheard action
    exact ih _ _ hact.related hact.heard

end Alike

/-- Hidden cells of a bus without bank registers stay as they are. -/
theorem preserved_hidden (start : Bus VideoRam) : Bus.Preserved fun bus =>
    bus.Confined ∧ ∀ c : Cell, c.Exists → c.IsHidden → bus.cell c = start.cell c where
  write h addr value :=
    ⟨h.1.write addr value, fun c hc hhidden => by
      rw [h.1.cell_write addr value hc hhidden, h.2 c hc hhidden]⟩
  acknowledge h source :=
    ⟨h.1.acknowledge source, fun c hc hhidden => by
      -- Only the interrupt controller changes, which holds no cell.
      rw [← h.2 c hc hhidden]
      cases c <;> rfl⟩
  request h source :=
    ⟨h.1.request source, fun c hc hhidden => by
      rw [← h.2 c hc hhidden]
      cases c <;> rfl⟩

/-- Whatever is done to a console without bank registers, its hidden cells never change, and together
with the sprites they have no influence on anything else; every console of that model is such a one,
whatever its video memory holds at the start.  In a console of either model the sprites can
be replaced but not observed. -/
theorem hidden_memory_isolated (listener : Listener σ) (s : σ) (actions : List Action) :
    (∀ {image : ByteArray} {m : Console}, Started image m → m.memory.model = .dmg →
      m.memory.Confined) ∧
    (∀ {image : ByteArray} {cartridge : Cartridge}, Cartridge.load image = .ok cartridge →
      ∀ video : VideoRam, video.bank = 0 → (Bus.assemble cartridge video .dmg).Confined) ∧
    (∀ m : Console, m.memory.Confined →
      let final := (run listener (m, s) actions).1
      final.memory.Confined ∧
        ∀ c : Cell, c.Exists → c.IsHidden → final.memory.cell c = m.memory.cell c) ∧
    (∀ m m' : Console, m.Related Bus.Unseen m' →
      let one := run listener (m, s) actions
      let other := run listener (m', s) actions
      one.1.Related Bus.Unseen other.1 ∧ other.2 = one.2 ∧
        ∀ action : Action, action.answer listener other = action.answer listener one) ∧
    ∀ (m : Console) (sprites : Block spriteMemorySize),
      let one := run listener (m, s) actions
      let other := run listener (⟨m.cpu, m.memory.withSprites sprites⟩, s) actions
      (∃ sprites', other.1 = ⟨one.1.cpu, one.1.memory.withSprites sprites'⟩) ∧ other.2 = one.2 ∧
        ∀ action : Action, action.answer listener other = action.answer listener one := by
  refine ⟨fun hstart hmodel => ?_, fun hload video hbank => ?_, fun m hconfined => ?_,
    fun m m' hrelated => ?_, fun m sprites => ?_⟩
  · exact ⟨hstart.invariant.wellFormed, hstart.invariant.inStep, hmodel⟩
  · exact .assemble (Cartridge.wellFormed_of_load hload) hbank
  · have hstart : m.memory.Confined ∧
        ∀ c : Cell, c.Exists → c.IsHidden → m.memory.cell c = m.memory.cell c :=
      ⟨hconfined, fun _ _ _ => rfl⟩
    exact preserved_run (preserved_hidden m.memory) listener hstart actions
  -- The hidden banks and the sprites are two instances of the same simulation.
  · exact alike_run Bus.simulation_unseen (fun h => h.request) listener (m, s) (m', s) hrelated rfl
      actions
  · obtain ⟨hrelated, hheard, hanswers⟩ := alike_run Bus.simulation_spritesApart
      (fun h => h.request) listener (m, s) (⟨m.cpu, m.memory.withSprites sprites⟩, s)
      ⟨rfl, sprites, rfl⟩ rfl actions
    obtain ⟨sprites', hmemory⟩ := hrelated.memory
    refine ⟨⟨sprites', ?_⟩, hheard, hanswers⟩
    exact Machine.Related.eq (f := fun bus : Bus VideoRam => bus.withSprites sprites')
      ⟨hrelated.cpu, hmemory⟩

/-- A console that has a byte of its own in a hidden bank and in all sprites does the same as one that
has not, and keeps the byte. -/
theorem hidden_memory_isolated_sample :
    let bus := Bus.assemble .sample VideoRam.empty .dmg
    let bus' := bus.withHidden (bus.workRam.set (2 * workRamBankSize) 0xAA)
      (.ofFn _ fun _ => 0xAA)
    let actions : List Action := [.write 0xFF46 0xC0, .tick ⟨1000⟩, .request .timer, .step]
    let one := run Listener.deaf (.boot bus, ()) actions
    let other := run Listener.deaf (.boot bus', ()) actions
    other.1.cpu = one.1.cpu ∧ other.1.memory.cell (.work 2 0) = bus'.cell (.work 2 0) ∧
      ∀ action : Action, action.answer Listener.deaf other = action.answer Listener.deaf one := by
  intro bus bus' actions one other
  -- As variables the runs are not performed when what is said of them is compared.
  have hone : one = run Listener.deaf (.boot bus, ()) actions := rfl
  have hother : other = run Listener.deaf (.boot bus', ()) actions := rfl
  clear_value one other actions
  subst hone hother
  obtain ⟨hstarted, -, hkept, hsame, -⟩ := hidden_memory_isolated Listener.deaf () actions
  have hconfined : bus.Confined := hstarted (.assemble Cartridge.load_sample .dmg) rfl
  have hunseen : bus.Unseen bus' := hconfined.unseen_withHidden _ fun i hi => by
    rw [Block.get_set, if_neg fun h => Nat.ne_of_lt hi h.1]
  -- Both consoles start with the processor of a reset.
  have hcpu : (Machine.boot bus').cpu = (Machine.boot bus).cpu := by
    show Cpu.initial = Cpu.initial
    rfl
  obtain ⟨hrelated, -, hanswers⟩ := hsame (.boot bus) (.boot bus') ⟨hcpu, hunseen⟩
  obtain ⟨-, hcells⟩ := hkept (.boot bus') hunseen.confined'
  exact ⟨hrelated.cpu, hcells (.work 2 0) ⟨by decide, by decide⟩ (UInt8.le_refl 2), hanswers⟩

end GameBoy.Console
