import GameBoy.Proofs.Bus.Hidden
import GameBoy.Proofs.Bus.LastWrite

/-!
# The sprite copy

A write to 0xFF46 copies the first 160 bytes of a page to the sprite memory.  The bytes are read
through the bus, so they are whatever the processor would read there, and nothing but the sprite
memory changes (`Bus.sprite_copy`).

The bus does not show the sprite memory, so a copy cannot tell what was there before.  Nothing
else writes to it: it holds what the last copy found (`Bus.sprites_writeAll`).
-/

namespace GameBoy.Bus

/-- A byte that is written to this address has its page copied to the sprites. -/
def spriteCopyAddress : UInt16 := 0xFF46

variable (bus : Bus VideoRam) (page : UInt8)

/-- What a copy finds in a page. -/
def pageSprites : Block spriteMemorySize :=
  .ofFn spriteMemorySize fun i => bus.read (UInt16.ofNat (256 * page.toNat + i))

/-- Each byte is the one that the bus reads at its address. -/
theorem get_pageSprites {i : Nat} (h : i < spriteMemorySize) :
    (bus.pageSprites page).get i = bus.read (UInt16.ofNat (256 * page.toNat + i)) :=
  Block.get_ofFn _ h

/-- The pages do not show the sprites. -/
theorem pageSprites_withSprites (sprites : Block spriteMemorySize) :
    (bus.withSprites sprites).pageSprites page = bus.pageSprites page := rfl

/-- A copy has no effect but to replace the sprites. -/
theorem write_spriteCopyAddress :
    bus.write spriteCopyAddress page = bus.withSprites (bus.pageSprites page) := by
  have hregion : Region.of bus.model spriteCopyAddress = .spriteCopy := Region.of_eq_iff.mpr rfl
  -- The copy computes its addresses in words, and they do not wrap around within a page.
  simp only [write, hregion, copySprites, pageAddress_add]
  rfl

/-- Sprites that are replaced at once leave nothing behind. -/
theorem withSprites_withSprites (sprites sprites' : Block spriteMemorySize) :
    (bus.withSprites sprites).withSprites sprites' = bus.withSprites sprites' := rfl

/-- Only copies change the sprites. -/
theorem sprites_write_of_ne {addr : UInt16} (h : addr ≠ spriteCopyAddress) (value : UInt8) :
    (bus.write addr value).video.sprites = bus.video.sprites := by
  cases hregion : Region.of bus.model addr <;> simp only [write, hregion]
  case spriteCopy => exact absurd (Region.of_eq_iff.mp hregion) h
  case video | videoBank => rfl

/-- The sprites are what the last copy found. -/
theorem sprites_writeAll {writes : List (UInt16 × UInt8)}
    (h : ∀ write ∈ writes, write.1 ≠ spriteCopyAddress) :
    ((bus.write spriteCopyAddress page).writeAll writes).video.sprites = bus.pageSprites page := by
  -- Over the writes: none of them goes to the address of the copy, so each keeps the sprites.
  have hkept (bus : Bus VideoRam) : (bus.writeAll writes).video.sprites = bus.video.sprites := by
    induction writes generalizing bus with
    | nil => rfl
    | cons first rest ih =>
      obtain ⟨hfirst, hrest⟩ := List.forall_mem_cons.mp h
      exact (ih hrest _).trans (bus.sprites_write_of_ne hfirst first.2)
  rw [hkept, write_spriteCopyAddress]
  rfl

/-- On any bus a copy replaces the sprites by the first 160 bytes of a page, as the bus reads them, and
changes nothing else.  So every address reads as before, it makes no difference what the sprites were,
and a second copy of the page changes nothing. -/
theorem sprite_copy :
    let after := bus.write spriteCopyAddress page
    (∃ sprites, after = { bus with video := { bus.video with sprites := sprites } }) ∧
    (∀ i < 160, after.video.sprites.get i = bus.read (UInt16.ofNat (256 * page.toNat + i))) ∧
    (∀ addr, after.read addr = bus.read addr) ∧
    (∀ sprites, (bus.withSprites sprites).write spriteCopyAddress page = after) ∧
    after.write spriteCopyAddress page = after := by
  dsimp only
  -- The pages do not show the sprites, so what a copy finds does not depend on earlier sprites.
  rw [write_spriteCopyAddress]
  refine ⟨⟨_, rfl⟩, fun i hi => get_pageSprites bus page hi, read_withSprites bus _,
    fun sprites => ?_, ?_⟩
  · rw [write_spriteCopyAddress, pageSprites_withSprites, withSprites_withSprites]
  · rw [write_spriteCopyAddress, pageSprites_withSprites, withSprites_withSprites]

end GameBoy.Bus
