import GameBoy.Proofs.Bus.Cell
import GameBoy.Proofs.Cartridge.Ram

/-!
# Writes do not interfere

A write is seen at its own address, through the window that it moves if it goes to a bank register,
and nowhere else.  `Bus.stored?` says what a location reads after a byte is written to it, and
`Bus.Remaps` which windows a write moves; `Bus.read_after_write` says that nothing else happens to
any read.
-/

namespace GameBoy.Bus

variable {bus : Bus VideoRam}

/-- What an address reads after a byte is written to it; `none` for an address that keeps nothing of
what is written.  RAM keeps the whole byte and registers the bits that are wired. -/
def stored? (bus : Bus VideoRam) (addr : UInt16) (v : UInt8) : Option UInt8 :=
  if 0x8000 ≤ addr ∧ addr < 0xA000 ∨ 0xC000 ≤ addr ∧ addr < 0xE000 ∨ 0xFF80 ≤ addr ∧ addr < 0xFFFF ∨
      bus.cartridge.controller.HasRam addr then
    some v
  else if addr = 0xFFFF then some (v &&& 0x1F)
  else if addr = 0xFF0F then some (0xE0 ||| (v &&& 0x1F))
  else if bus.model = .cgb ∧ addr = 0xFF4F then some (0xFE ||| (v &&& 1))
  else if bus.model = .cgb ∧ addr = 0xFF70 then some (0xF8 ||| max (v &&& 7) 1)
  else none

/-- Whether a write to the first address may change which memory is seen at the second one. -/
def Remaps (bus : Bus VideoRam) (a b : UInt16) : Prop :=
  bus.model = .cgb ∧ a = 0xFF4F ∧ 0x8000 ≤ b ∧ b < 0xA000 ∨
    bus.model = .cgb ∧ a = 0xFF70 ∧ 0xD000 ≤ b ∧ b < 0xE000 ∨
    bus.cartridge.controller.Moves a b

/-- What is kept of a byte, by the region of its address. -/
private theorem stored?_eq (bus : Bus VideoRam) (addr : UInt16) (v : UInt8) :
    bus.stored? addr v =
      match Region.of bus.model addr with
      | .cartridge => if bus.cartridge.controller.HasRam addr then some v else none
      | .video | .workRam | .bankedWorkRam | .highRam => some v
      | .interruptEnable => some (v &&& 0x1F)
      | .interruptPending => some (0xE0 ||| (v &&& 0x1F))
      | .videoBank => some (0xFE ||| (v &&& 1))
      | .workRamBank => some (0xF8 ||| max (v &&& 7) 1)
      | .scanline | .spriteCopy | .unmapped => none := by
  -- Cartridge RAM lies in the region of the cartridge, so the first case does not hide the others.
  have hram (h : bus.cartridge.controller.HasRam addr) : 0xA000 ≤ addr ∧ addr < 0xC000 :=
    h.window
  cases h : Region.of bus.model addr <;>
    simp only [Region.of_eq_iff, Region.Contains] at h <;>
    simp only [stored?] <;> grind

/-- A location that no write to itself affects keeps nothing of what is written. -/
private theorem stored?_of_not_affects {addr : UInt16}
    (h : (Region.of bus.model addr).affects (Region.of bus.model addr) = false) (v : UInt8) :
    bus.stored? addr v = none := by
  rw [stored?_eq]
  cases hregion : Region.of bus.model addr <;> rw [hregion] at h <;> first | rfl | cases h

/-- RAM keeps the whole byte. -/
private theorem stored?_of_isRam {addr : UInt16} (h : (Region.of bus.model addr).isRam = true)
    (v : UInt8) : bus.stored? addr v = some v := by
  rw [stored?_eq]
  cases hregion : Region.of bus.model addr <;> rw [hregion] at h <;> first | rfl | cases h

/-- A write to the RAM of the console is seen at its own address and nowhere else. -/
theorem read_write_of_isRam (h : bus.WellFormed) {a b : UInt16}
    (ha : (Region.of bus.model a).isRam = true) (hb : (Region.of bus.model b).isRam = true)
    (v : UInt8) : (bus.write a v).read b = if b = a then v else bus.read b := by
  rw [← isSome_cellAt?, Option.isSome_iff_exists] at ha hb
  obtain ⟨c, ha⟩ := ha
  obtain ⟨c', hb⟩ := hb
  -- The write moves no window, so the second address still names its cell afterwards.
  have hafter : (bus.write a v).cellAt? b = some c' := by rw [cellAt?_write ha, hb]
  have hsame : some c = some c' ↔ b = a := by
    constructor
    · rintro ⟨⟩
      exact Cell.ofAddress?_inj h.workRamBank_pos hb ha
    · rintro rfl
      rw [← ha, hb]
  rw [read_of_cellAt? hafter, cell_write h a v (h.exists_of_cellAt? hb), read_of_cellAt? hb, ha]
  simp only [hsame]

/-- A write to the cartridge is seen through the window that it moves, if it moves any, and at its
own address, if there is RAM. -/
private theorem read_write_cartridge {a b : UInt16} (ha : Region.of bus.model a = .cartridge)
    (hb : Region.of bus.model b = .cartridge) (hmoves : ¬bus.cartridge.controller.Moves a b)
    (v : UInt8) :
    (bus.write a v).read b =
      if b = a ∧ bus.cartridge.controller.HasRam a then v else bus.read b := by
  rw [read, read, model_write, hb]
  simp only [write, ha]
  exact Controller.read_after_write_of_not_moves _ _ hmoves v

/-- The regions of one address whose byte can be written. -/
private def IsRegister (r : Region) : Prop :=
  r = .interruptPending ∨ r = .interruptEnable ∨ r = .videoBank ∨ r = .workRamBank

/-- A write to a register is seen at its own address, and no other address is in its region. -/
private theorem read_write_register {a b : UInt16} (ha : IsRegister (Region.of bus.model a))
    (hb : Region.of bus.model b = Region.of bus.model a) (v : UInt8) :
    (bus.write a v).read b = if b = a then (bus.stored? a v).getD (bus.read b) else bus.read b := by
  rw [stored?_eq, read, model_write, hb]
  -- In each of these regions there is one address only, so the read goes to the register itself.
  rcases ha with ha | ha | ha | ha <;> rw [ha] at hb <;> simp only [write, ha] <;>
    rw [Region.of_eq_iff] at ha hb
  · rw [if_pos (hb.trans ha.symm)]; rfl
  · rw [if_pos (hb.trans ha.symm)]; rfl
  · rw [if_pos (hb.1.trans ha.1.symm)]; rfl
  · rw [if_pos (hb.1.trans ha.1.symm)]; rfl

/-- The pairs of regions in which a write can be seen, except through a window that it moves. -/
private theorem affects_cases {r r' : Region} (h : r.affects r' = true) :
    r = .cartridge ∧ r' = .cartridge ∨ r.isRam = true ∧ r'.isRam = true ∨ IsRegister r ∧ r' = r ∨
      r = .videoBank ∧ r' = .video ∨ r = .workRamBank ∧ r' = .bankedWorkRam := by
  unfold IsRegister
  -- There are finitely many pairs of regions.
  revert h
  cases r <;> cases r' <;> decide

/-- After a write, a read outside the windows that the write moves returns what it returned before,
except at the address of the write, which returns what is kept of the written byte. -/
theorem read_after_write (h : bus.Reachable) {a b : UInt16} (hb : ¬bus.Remaps a b) (v : UInt8) :
    (bus.write a v).read b =
      if b = a then (bus.stored? a v).getD (bus.read b) else bus.read b := by
  cases haffects : (Region.of bus.model a).affects (Region.of bus.model b) with
  | false =>
    -- Nothing is seen of the write, so it cannot have been kept where it went.
    rw [read_write_of_not_affects bus v haffects]
    by_cases hab : b = a
    · subst hab
      rw [if_pos rfl, stored?_of_not_affects haffects]
      rfl
    · rw [if_neg hab]
  | true =>
    rcases affects_cases haffects with ⟨hra, hrb⟩ | ⟨hra, hrb⟩ | ⟨hra, hrb⟩ | ⟨hra, hrb⟩ | ⟨hra, hrb⟩
    · have hmoves : ¬bus.cartridge.controller.Moves a b := fun hmoves => hb (.inr (.inr hmoves))
      rw [read_write_cartridge hra hrb hmoves, stored?_eq, hra]
      by_cases hram : bus.cartridge.controller.HasRam a <;> simp [hram]
    -- Under the RAM of the console the cells tell the addresses apart.
    · rw [read_write_of_isRam h.wellFormed hra hrb, stored?_of_isRam hra]
      rfl
    · exact read_write_register hra hrb v
    -- The last two pairs are those of a bank register and its window.
    · obtain ⟨rfl, hmodel⟩ := Region.of_eq_iff.mp hra
      exact absurd (.inl ⟨hmodel, rfl, Region.of_eq_iff.mp hrb⟩) hb
    · obtain ⟨rfl, hmodel⟩ := Region.of_eq_iff.mp hra
      exact absurd (.inr (.inl ⟨hmodel, rfl, Region.of_eq_iff.mp hrb⟩)) hb

/-- A byte that is written at 0xC000 is seen there and not at 0xD000. -/
theorem read_after_write_workRam :
    let bus := Bus.assemble .sample VideoRam.empty .cgb
    (bus.write 0xC000 7).read 0xC000 = 7 ∧ (bus.write 0xC000 7).read 0xD000 = bus.read 0xD000 := by
  intro bus
  have hbus : bus.Reachable := .sample .cgb
  have hsame : ¬bus.Remaps 0xC000 0xC000 := by simp [Remaps, Controller.Moves, Mbc1.Moves]
  have hbanked : ¬bus.Remaps 0xC000 0xD000 := by simp [Remaps, Controller.Moves, Mbc1.Moves]
  constructor
  · rw [read_after_write hbus hsame, if_pos rfl]
    simp [stored?]
  · rw [read_after_write hbus hbanked, if_neg (by decide)]

end GameBoy.Bus
