import GameBoy.Proofs.Bus.Interference
import GameBoy.Proofs.Machine.Outcome
import GameBoy.Proofs.Machine.Simulation

/-!
# The two models

The colour model differs from the other one only in its two bank registers.  So a bus can be given the
other model (`Bus.withModel`) before or after an access, whatever the access is, as long as it does not
go to one of them (`Access.IsModelFree`).  An access goes there in one more way than by its address: a
sprite copy reads a whole page, and the last page contains the registers.

`Bus.simulation_withModel` says so for one access, and `Machine.same_on_both_models` for runs of any
length.
-/

namespace GameBoy

/-- The addresses of the bank registers of the colour model. -/
def IsBankRegister (addr : UInt16) : Prop := addr = 0xFF4F ∨ addr = 0xFF70

/-- The model makes no difference to a region that is not that of a bank register. -/
theorem Region.of_eq_of_not_isBankRegister {addr : UInt16} (h : ¬IsBankRegister addr)
    (model model' : Model) : Region.of model' addr = Region.of model addr := by
  simp only [IsBankRegister, not_or] at h
  -- The model is only asked for at these two addresses.
  simp [Region.of, h.1, h.2]

/-- The access does not go to a bank register, nor does it have one copied to the sprites. -/
def Access.IsModelFree : Access → Prop
  | read addr => ¬IsBankRegister addr
  | write addr value => ¬IsBankRegister addr ∧ ¬(addr = 0xFF46 ∧ value = 0xFF)
  | poll | acknowledge _ => True

namespace Bus

variable {V : Type} {bus : Bus V} {addr : UInt16} {value page : UInt8}

/-- The same bus in a console of the given model. -/
def withModel (bus : Bus V) (model : Model) : Bus V := { bus with model := model }

/-- Reads of anything but a bank register are reported alike. -/
theorem readEvents_withModel (h : ¬IsBankRegister addr) (model : Model) :
    (bus.withModel model).readEvents addr = bus.readEvents addr := by
  have hregion : Region.of model addr = Region.of bus.model addr :=
    Region.of_eq_of_not_isBankRegister h bus.model model
  simp only [readEvents, withModel, hregion]

/-- No page but the last contains a bank register. -/
theorem not_isBankRegister_of_page (h : page ≠ 0xFF) {i : Nat} (hi : i < spriteMemorySize) :
    ¬IsBankRegister (pageAddress page + UInt16.ofNat i) := by
  -- The registers lie in the page 0xFF, and the addresses of an earlier page all lie before it.
  have hpage : page.toNat < 0xFF := by
    have hle := page.toNat_lt
    have hne : page.toNat ≠ 0xFF := fun heq => h (UInt8.toNat_inj.mp heq)
    omega
  have hsmall : i < 160 := hi
  have haddr : (pageAddress page + UInt16.ofNat i).toNat = 256 * page.toNat + i := by
    have hlt : 256 * page.toNat + i < 0x10000 := by omega
    rw [pageAddress_add, UInt16.toNat_ofNat_of_lt' hlt]
  simp only [IsBankRegister, ← UInt16.toNat_inj, haddr, UInt16.reduceToNat]
  omega

/-- The reads of a copy are reported alike unless it copies the last page. -/
theorem readEvents_sources_withModel (h : page ≠ 0xFF) (model : Model) :
    (spriteSources page).flatMap (bus.withModel model).readEvents =
      (spriteSources page).flatMap bus.readEvents := by
  rw [List.flatMap_def, List.flatMap_def]
  -- One source at a time.
  apply congrArg
  apply List.map_congr_left
  intro source hsource
  obtain ⟨i, hi, rfl⟩ := List.mem_map.mp hsource
  exact readEvents_withModel (not_isBankRegister_of_page h (List.mem_range.mp hi)) model

/-- Writes that go to no bank register are reported alike. -/
theorem writeEvents_withModel (h : (Access.write addr value).IsModelFree) (model : Model) :
    (bus.withModel model).writeEvents addr value = bus.writeEvents addr value := by
  have hregion : Region.of model addr = Region.of bus.model addr :=
    Region.of_eq_of_not_isBankRegister h.1 bus.model model
  cases hr : Region.of bus.model addr <;> rw [hr] at hregion
  case spriteCopy =>
    -- A copy reports what it reads, so here its page counts as well.
    have hpage : value ≠ 0xFF := fun heq => h.2 ⟨Region.of_eq_iff.mp hr, heq⟩
    simp only [writeEvents, withModel, hregion, hr]
    exact congrArg _ (readEvents_sources_withModel hpage model)
  all_goals
    simp only [writeEvents, withModel, hregion, hr]

variable [VideoDevice V]

/-- Reads of anything but a bank register answer alike. -/
theorem read_withModel (h : ¬IsBankRegister addr) (model : Model) :
    (bus.withModel model).read addr = bus.read addr := by
  have hregion : Region.of model addr = Region.of bus.model addr :=
    Region.of_eq_of_not_isBankRegister h bus.model model
  simp only [read, withModel, hregion]

/-- A copy of any page but the last finds the same bytes. -/
theorem copySprites_withModel (h : page ≠ 0xFF) (model : Model) :
    (bus.withModel model).copySprites page = (bus.copySprites page).withModel model := by
  have hsources : Block.ofFn spriteMemorySize
        (fun i => (bus.withModel model).read (pageAddress page + UInt16.ofNat i)) =
      Block.ofFn spriteMemorySize fun i => bus.read (pageAddress page + UInt16.ofNat i) := by
    apply Block.ofFn_congr
    intro i hi
    exact read_withModel (not_isBankRegister_of_page h hi) model
  simp only [copySprites, hsources]
  rfl

/-- Writes that go to no bank register have the same effect. -/
theorem write_withModel (h : (Access.write addr value).IsModelFree) (model : Model) :
    (bus.withModel model).write addr value = (bus.write addr value).withModel model := by
  have hregion : Region.of model addr = Region.of bus.model addr :=
    Region.of_eq_of_not_isBankRegister h.1 bus.model model
  cases hr : Region.of bus.model addr <;> rw [hr] at hregion
  case spriteCopy =>
    -- The copy reads the bus, which answers alike in this page.
    have hpage : value ≠ 0xFF := fun heq => h.2 ⟨Region.of_eq_iff.mp hr, heq⟩
    simp only [write, withModel, hregion, hr]
    exact copySprites_withModel hpage model
  all_goals
    simp only [write, withModel, hregion, hr]

/-! ## Machines -/

/-- A bus and the same bus of another model answer alike. -/
theorem simulation_withModel (model : Model) : Memory.Simulation Access.IsModelFree
    fun (bus bus' : Bus V) => bus' = bus.withModel model where
  read := by
    rintro bus _ addr rfl haddr
    exact read_withModel haddr model
  readEvents := by
    rintro bus _ addr rfl haddr
    exact readEvents_withModel haddr model
  write := by
    rintro bus _ addr value rfl haddr
    exact write_withModel haddr model
  writeEvents := by
    rintro bus _ addr value rfl haddr
    exact writeEvents_withModel haddr model
  active := by
    rintro bus _ rfl
    rfl
  acknowledge := by
    rintro bus _ rfl source
    rfl

end Bus

namespace Machine

variable {V σ : Type} [VideoDevice V]

/-- The same machine of the given model. -/
def withModel (m : Machine (Bus V)) (model : Model) : Machine (Bus V) :=
  ⟨m.cpu, m.memory.withModel model⟩

/-- As long as the steps of a machine do not access a bank register, nor copy the page of the bank
registers to the sprites, its model makes no difference: every step of the same machine of another
model has the same result, a listener hears the same, and the machines are the same but for the
model. -/
theorem same_on_both_models (m : Machine (Bus V)) (model model' : Model) (listener : Listener σ)
    (s : σ) (n : Nat)
    (hfree : ∀ k < n, ∀ access ∈ (stepMany listener k (m.withModel model, s)).1.accesses,
      access.IsModelFree) :
    let one k := stepMany listener k (m.withModel model, s)
    let other k := stepMany listener k (m.withModel model', s)
    (∀ k < n, ((other k).1.step listener (other k).2).1 = ((one k).1.step listener (one k).2).1) ∧
    ∀ k ≤ n, (other k).1 = (one k).1.withModel model' ∧ (other k).2 = (one k).2 := by
  intro one other
  have hsim := Bus.simulation_withModel (V := V) model'
  -- The hypothesis covers all steps before the last, so the simulation holds at each of them.
  have hmany (k : Nat) (hk : k ≤ n) :
      (one k).1.Related (fun bus bus' => bus' = bus.withModel model') (other k).1 ∧
        (other k).2 = (one k).2 :=
    hsim.stepMany k ⟨rfl, rfl⟩ rfl fun j hj => hfree j (Nat.lt_of_lt_of_le hj hk)
  constructor
  · intro k hk
    obtain ⟨hrelated, hheard⟩ := hmany k (Nat.le_of_lt hk)
    rw [hheard]
    exact (hsim.step hrelated (hfree k hk) _).result
  · intro k hk
    obtain ⟨hrelated, hheard⟩ := hmany k hk
    exact ⟨hrelated.eq, hheard⟩

/-- The instruction that stores A where HL points to. -/
private theorem accessesOf_store (operand : UInt16) (m : Machine (Bus V)) :
    accessesOf (Execution.carryOut (.load (.copy .atHL (.register .a))) operand) m =
      [.write m.cpu.hl m.cpu.a] := rfl

/-- A program in the working RAM that has the sprites copied from its own page. -/
def spriteCopying : Console where
  cpu := { Cpu.initial with pc := 0xC000, a := 0xC0, h := 0xFF, l := 0x46 }
  memory := (Bus.assemble .sample .empty .cgb).write 0xC000 0x77

/-- A console that copies its sprites does so in either model. -/
theorem same_on_both_models_copy :
    (stepMany Listener.deaf 1 (spriteCopying.withModel .cgb, ())).1 =
      (stepMany Listener.deaf 1 (spriteCopying.withModel .dmg, ())).1.withModel .cgb := by
  -- The byte that was just written is the op code of the store.
  have hcode : (spriteCopying.withModel .dmg).memory.read 0xC000 = 0x77 := by
    have hram : (Region.of Model.cgb 0xC000).isRam = true := by decide
    show (spriteCopying.memory.withModel .dmg).read 0xC000 = 0x77
    rw [Bus.read_withModel (by simp [IsBankRegister])]
    exact (Bus.read_write_of_isRam (Bus.Reachable.sample .cgb).wellFormed hram hram 0x77).trans
      (if_pos rfl)
  have hduty : (spriteCopying.withModel .dmg).duty = .execute := rfl
  have hfetched : (spriteCopying.withModel .dmg).fetched =
      some ⟨0x77, .load (.copy .atHL (.register .a))⟩ := by
    show Descriptor.select ((spriteCopying.withModel .dmg).memory.read 0xC000) _ = _
    rw [hcode]
    exact Descriptor.select_of_decode (by decide) (by decide) _
  have hfree : ∀ access ∈ (spriteCopying.withModel .dmg).accesses, access.IsModelFree := by
    apply forall_accesses_of_fetched_eq_some Access.IsModelFree hduty hfetched
    case poll => trivial
    case code =>
      have hpc : (spriteCopying.withModel .dmg).cpu.pc = 0xC000 := rfl
      simp [hpc, Access.IsModelFree, IsBankRegister]
    case effect =>
      -- The store goes to 0xFF46, which copies the page 0xC0: no bank register is in there.
      have hhl : (spriteCopying.withModel .dmg).awake.cpu.hl = 0xFF46 := by
        show Word.ofBytes 0xFF 0x46 = 0xFF46
        decide
      have ha : (spriteCopying.withModel .dmg).awake.cpu.a = 0xC0 := rfl
      rw [accessesOf_store, hhl, ha]
      simp [Access.IsModelFree, IsBankRegister]
  have hafter := same_on_both_models spriteCopying .dmg .cgb Listener.deaf () 1 fun k hk => by
    obtain rfl : k = 0 := Nat.lt_one_iff.mp hk
    exact hfree
  -- Stated for some number of steps, so that none is performed when the statements are compared.
  have hsame (k : Nat) (hk : k ≤ 1) :
      (stepMany Listener.deaf k (spriteCopying.withModel .cgb, ())).1 =
        (stepMany Listener.deaf k (spriteCopying.withModel .dmg, ())).1.withModel .cgb :=
    (hafter.2 k hk).1
  exact hsame 1 (Nat.le_refl 1)

end Machine

end GameBoy
