import GameBoy.Proofs.Bus.Cell
import GameBoy.Proofs.Machine.Simulation

/-!
# Hidden memory

Without bank registers the second bank of video memory and all but two banks of working RAM are out of
reach (`Cell.IsHidden`), and the sprite memory is out of reach in either model: it can be replaced, but
no address shows it.

A bus without bank registers stays one (`Bus.Confined`) and never changes a hidden cell
(`Confined.cell_write`).  Two such buses that agree on everything else answer every access alike and go
on agreeing (`Bus.simulation_unseen`); so do any two buses that differ in the sprites only
(`Bus.simulation_spritesApart`).
-/

namespace GameBoy

/-- The cells that no address names while the first bank of video memory and the second bank of working
RAM are selected. -/
def Cell.IsHidden : Cell → Prop
  | video bank _ => bank ≠ 0
  | work bank _ => 2 ≤ bank
  | high _ => False

/-- No address names a hidden cell while these banks are selected. -/
theorem Cell.not_isHidden_of_ofAddress? {addr : UInt16} {c : Cell}
    (h : ofAddress? 1 0 addr = some c) : ¬c.IsHidden := by
  -- One window at a time: video memory, the two halves of working RAM, the high RAM.
  unfold ofAddress? at h
  split at h
  · cases h; simp [IsHidden]
  split at h
  · cases h; simp [IsHidden]
  split at h
  · cases h; simp [IsHidden]
  split at h
  · cases h; simp [IsHidden]
  · cases h

namespace Bus

variable {bus bus' : Bus VideoRam} {addr : UInt16} {value : UInt8} {c : Cell}

/-! ## Confined buses -/

/-- A bus without bank registers. -/
structure Confined (bus : Bus VideoRam) : Prop where
  wellFormed : bus.WellFormed
  inStep : bus.InStep
  model : bus.model = .dmg

namespace Confined

/-- A bus without bank registers starts with the banks that are always selected. -/
theorem assemble {cartridge : Cartridge} (h : cartridge.controller.WellFormed) {video : VideoRam}
    (hbank : video.bank = 0) : (Bus.assemble cartridge video .dmg).Confined where
  wellFormed := .assemble h (by rw [hbank]; decide) .dmg
  inStep := hbank
  model := rfl

/-- No write adds a bank register or changes the bank of a device that is in step. -/
theorem write (h : bus.Confined) (addr : UInt16) (value : UInt8) :
    (bus.write addr value).Confined where
  wellFormed := h.wellFormed.write addr value
  inStep := h.inStep.write addr value
  model := by rw [model_write, h.model]

/-- Requests do not touch the banks. -/
theorem request (h : bus.Confined) (source : Interrupt) : (bus.request source).Confined where
  wellFormed := h.wellFormed.request source
  inStep := h.inStep
  model := h.model

/-- Taking up a request does not touch the banks. -/
theorem acknowledge (h : bus.Confined) (source : Interrupt) :
    Confined (Memory.acknowledge bus source) where
  wellFormed := h.wellFormed.acknowledge source
  inStep := h.inStep
  model := h.model

/-- The same two banks are selected at all times. -/
theorem banks (h : bus.Confined) : bus.workRamBank = 1 ∧ bus.video.bank = 0 := by
  obtain ⟨hwork, hvideo⟩ := h.wellFormed.of_dmg h.model
  exact ⟨hwork, Eq.trans h.inStep hvideo⟩

/-- What an address names is not hidden. -/
theorem not_isHidden (h : bus.Confined) (hc : bus.cellAt? addr = some c) : ¬c.IsHidden := by
  rw [cellAt?, h.banks.1, h.banks.2] at hc
  exact Cell.not_isHidden_of_ofAddress? hc

/-- No write changes a hidden cell. -/
theorem cell_write (h : bus.Confined) (addr : UInt16) (value : UInt8) (hc : c.Exists)
    (hhidden : c.IsHidden) : (bus.write addr value).cell c = bus.cell c := by
  rw [Bus.cell_write h.wellFormed addr value hc, if_neg]
  -- A changed cell is the one that the address names, and that is not hidden.
  intro hcell
  exact h.not_isHidden hcell hhidden

end Confined

/-! ## What cannot be seen -/

/-- Two buses without bank registers that differ in nothing but hidden cells and the sprites. -/
structure Unseen (bus bus' : Bus VideoRam) : Prop where
  confined : bus.Confined
  confined' : bus'.Confined
  cartridge : bus'.cartridge = bus.cartridge
  scanline : bus'.video.scanline = bus.video.scanline
  interrupts : bus'.interrupts = bus.interrupts
  cell : ∀ c : Cell, c.Exists → ¬c.IsHidden → bus'.cell c = bus.cell c

namespace Unseen

/-- Both buses take an address for the same region. -/
theorem region_eq (h : bus.Unseen bus') (addr : UInt16) :
    Region.of bus'.model addr = Region.of bus.model addr := by
  rw [h.confined.model, h.confined'.model]

/-- An address names the same cell on both. -/
theorem cellAt?_eq (h : bus.Unseen bus') (addr : UInt16) : bus'.cellAt? addr = bus.cellAt? addr := by
  rw [cellAt?, cellAt?, h.confined.banks.1, h.confined.banks.2, h.confined'.banks.1,
    h.confined'.banks.2]

/-- Reads are reported alike. -/
theorem readEvents (h : bus.Unseen bus') : bus'.readEvents = bus.readEvents := by
  funext addr
  simp only [Bus.readEvents, h.region_eq]

/-- Writes are reported alike. -/
theorem writeEvents (h : bus.Unseen bus') (addr : UInt16) (value : UInt8) :
    bus'.writeEvents addr value = bus.writeEvents addr value := by
  simp only [Bus.writeEvents, h.region_eq, h.readEvents, h.cartridge]

/-- Reads answer alike. -/
theorem read (h : bus.Unseen bus') (addr : UInt16) : bus'.read addr = bus.read addr := by
  cases hcell : bus.cellAt? addr with
  | some c =>
    have hcell' : bus'.cellAt? addr = some c := by rw [h.cellAt?_eq, hcell]
    -- In the RAM a read shows a cell, and it is not a hidden one.
    rw [read_of_cellAt? hcell, read_of_cellAt? hcell']
    exact h.cell c (h.confined.wellFormed.exists_of_cellAt? hcell) (h.confined.not_isHidden hcell)
  | none =>
    -- Outside the RAM a read sees the parts that the buses share.
    have hregion := h.region_eq addr
    have hram : (Region.of bus.model addr).isRam = false := by
      rw [← isSome_cellAt?, hcell]
      rfl
    cases hr : Region.of bus.model addr <;> rw [hr] at hregion hram
    case video | workRam | bankedWorkRam | highRam => cases hram
    case videoBank | workRamBank =>
      -- Neither bus has a bank register.
      have hmodel := (Region.of_eq_iff.mp hr).2
      rw [h.confined.model] at hmodel
      cases hmodel
    case scanline =>
      simp only [Bus.read, hr, hregion]
      exact h.scanline
    all_goals simp only [Bus.read, hr, hregion, h.cartridge, h.interrupts]

/-- What cannot be told apart cannot be told apart after a write either. -/
theorem write (h : bus.Unseen bus') (addr : UInt16) (value : UInt8) :
    (bus.write addr value).Unseen (bus'.write addr value) := by
  have hregion := h.region_eq addr
  constructor
  case confined => exact h.confined.write addr value
  case confined' => exact h.confined'.write addr value
  case cell =>
    intro c hc hseen
    -- The same cell takes the same byte on both, and the others keep theirs.
    rw [Bus.cell_write h.confined.wellFormed addr value hc,
      Bus.cell_write h.confined'.wellFormed addr value hc, h.cellAt?_eq, h.cell c hc hseen]
  -- The other parts change in one region each, and there in the same way.
  case cartridge =>
    cases hr : Region.of bus.model addr <;> rw [hr] at hregion <;>
      simp only [Bus.write, copySprites, hr, hregion, h.cartridge]
  case interrupts =>
    cases hr : Region.of bus.model addr <;> rw [hr] at hregion <;>
      simp only [Bus.write, copySprites, hr, hregion, h.interrupts]
  case scanline =>
    cases hr : Region.of bus.model addr <;> rw [hr] at hregion <;>
      simp only [Bus.write, copySprites, hr, hregion] <;> exact h.scanline

/-- A request does not tell the buses apart. -/
theorem request (h : bus.Unseen bus') (source : Interrupt) :
    (bus.request source).Unseen (bus'.request source) where
  confined := h.confined.request source
  confined' := h.confined'.request source
  cartridge := h.cartridge
  scanline := h.scanline
  interrupts := by rw [Bus.request, Bus.request, h.interrupts]
  cell c hc hseen := by cases c <;> exact h.cell _ hc hseen

/-- Taking up a request does not tell the buses apart. -/
theorem acknowledge (h : bus.Unseen bus') (source : Interrupt) :
    Unseen (Memory.acknowledge bus source) (Memory.acknowledge bus' source) where
  confined := h.confined.acknowledge source
  confined' := h.confined'.acknowledge source
  cartridge := h.cartridge
  scanline := h.scanline
  interrupts := by
    show bus'.interrupts.acknowledge source = bus.interrupts.acknowledge source
    rw [h.interrupts]
  cell c hc hseen := by cases c <;> exact h.cell _ hc hseen

end Unseen

/-- Buses that differ in what cannot be seen answer every access alike. -/
theorem simulation_unseen : Memory.Simulation (fun _ => True) Unseen where
  read h _ := h.read _
  readEvents h _ := congrFun h.readEvents _
  write h _ := h.write _ _
  writeEvents h _ := h.writeEvents _ _
  active h := congrArg Interrupts.active h.interrupts
  acknowledge h source := h.acknowledge source

/-- The bus with other working RAM and other sprites. -/
def withHidden (bus : Bus VideoRam) (workRam : Block (workRamBanks * workRamBankSize))
    (sprites : Block spriteMemorySize) : Bus VideoRam :=
  { bus with workRam := workRam, video := { bus.video with sprites := sprites } }

/-- Working RAM that differs in its hidden banks only cannot be told apart. -/
theorem Confined.unseen_withHidden (h : bus.Confined)
    {workRam : Block (workRamBanks * workRamBankSize)} (sprites : Block spriteMemorySize)
    (hsame : ∀ i < 2 * workRamBankSize, workRam.get i = bus.workRam.get i) :
    bus.Unseen (bus.withHidden workRam sprites) where
  confined := h
  confined' := ⟨{ h.wellFormed with }, h.inStep, h.model⟩
  cartridge := rfl
  scanline := rfl
  interrupts := rfl
  cell c hc hseen := by
    cases c with
    | video | high => rfl
    | work bank offset =>
      -- A visible bank is one of the first two, so its bytes come before the third bank.
      have hbank : bank.toNat < 2 := Nat.lt_of_not_le hseen
      have hoffset : offset < 0x1000 := hc.2
      apply hsame
      simp only [workRamBankSize]
      omega

/-! ## Sprites -/

/-- The bus with other sprites. -/
def withSprites (bus : Bus VideoRam) (sprites : Block spriteMemorySize) : Bus VideoRam :=
  { bus with video := { bus.video with sprites := sprites } }

variable (bus) (sprites : Block spriteMemorySize)

/-- No address shows the sprites. -/
theorem read_withSprites (addr : UInt16) : (bus.withSprites sprites).read addr = bus.read addr := rfl

/-- A copy replaces the sprites, whatever they were; every other write leaves them alone. -/
theorem write_withSprites (addr : UInt16) (value : UInt8) :
    ∃ sprites', (bus.withSprites sprites).write addr value =
      (bus.write addr value).withSprites sprites' := by
  have hregion : Region.of (bus.withSprites sprites).model addr = Region.of bus.model addr := rfl
  cases hr : Region.of bus.model addr <;> rw [hr] at hregion
  case spriteCopy =>
    refine ⟨(bus.copySprites value).video.sprites, ?_⟩
    simp only [write, hr, hregion]
    rfl
  case video | videoBank =>
    -- The device writes and selects banks without regard to its sprites.
    refine ⟨sprites, ?_⟩
    simp only [write, hr, hregion]
    rfl
  all_goals
    refine ⟨sprites, ?_⟩
    simp only [write, hr, withSprites]

/-- Two buses that differ in nothing but the sprites. -/
def SpritesApart (bus bus' : Bus VideoRam) : Prop := ∃ sprites, bus' = bus.withSprites sprites

/-- A request leaves the sprites alone. -/
theorem SpritesApart.request {bus bus' : Bus VideoRam} (h : bus.SpritesApart bus')
    (source : Interrupt) : (bus.request source).SpritesApart (bus'.request source) := by
  obtain ⟨sprites, rfl⟩ := h
  exact ⟨sprites, rfl⟩

/-- A bus answers every access as it would with other sprites. -/
theorem simulation_spritesApart : Memory.Simulation (fun _ => True) SpritesApart where
  read := by
    rintro bus _ addr ⟨sprites, rfl⟩ -
    exact read_withSprites bus sprites addr
  readEvents := by
    rintro bus _ addr ⟨sprites, rfl⟩ -
    rfl
  write := by
    rintro bus _ addr value ⟨sprites, rfl⟩ -
    exact write_withSprites bus sprites addr value
  writeEvents := by
    rintro bus _ addr value ⟨sprites, rfl⟩ -
    rfl
  active := by
    rintro bus _ ⟨sprites, rfl⟩
    rfl
  acknowledge := by
    rintro bus _ ⟨sprites, rfl⟩ source
    exact ⟨sprites, rfl⟩

end Bus

end GameBoy
