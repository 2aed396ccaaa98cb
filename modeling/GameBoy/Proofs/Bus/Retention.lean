import GameBoy.Proofs.Bus.Interference

/-!
# Memory that keeps what is written

A program can keep data in a part of the memory if every byte that it writes there can be read back
and changes no other byte of the part.  `Memory.Retains` says this of a part of the address space, for
all memories that meet a condition which such writes keep.  It is true of all of flat memory
(`FlatMemory.retains`) and of the RAM of the console (`Bus.retains`).
-/

namespace GameBoy

/-- Memories that are valid stay so when a byte is written to some part of the address space, and of
this part only that byte changes. -/
structure Memory.Retains {μ : Type} [Memory μ] (valid : μ → Prop) (part : UInt16 → Prop) : Prop where
  write : ∀ {m a}, valid m → part a → ∀ value, valid (Memory.write m a value)
  read : ∀ {m a b}, valid m → part a → part b → ∀ value,
    Memory.read (Memory.write m a value) b = if b = a then value else Memory.read m b

/-- A word that is written to the part can be read back. -/
theorem Memory.Retains.write_word {μ : Type} [Memory μ] {valid : μ → Prop} {part : UInt16 → Prop}
    (h : Memory.Retains valid part) {m : μ} {addr : UInt16} (hvalid : valid m) (hlow : part addr)
    (hhigh : part (addr + 1)) (value : UInt16) :
    let m' := Memory.write (Memory.write m addr (Word.low value)) (addr + 1) (Word.high value)
    valid m' ∧ Memory.read m' addr = Word.low value ∧
      Memory.read m' (addr + 1) = Word.high value := by
  have hne : addr ≠ addr + 1 := by grind
  have hfirst := h.write hvalid hlow (Word.low value)
  refine ⟨h.write hfirst hhigh _, ?_, ?_⟩
  -- The second byte is stored elsewhere and does not overwrite the first one.
  · rw [h.read hfirst hhigh hlow, if_neg hne, h.read hvalid hlow hlow, if_pos rfl]
  · rw [h.read hfirst hhigh hhigh, if_pos rfl]

/-- Flat memory keeps every byte wherever it is written. -/
theorem FlatMemory.retains :
    Memory.Retains (fun _ : FlatMemory => True) (fun _ => True) where
  write _ _ _ := trivial
  read _ _ _ value := FlatMemory.read_write _ _ _ value

/-- The RAM of the console keeps every byte, whatever else the bus is made of. -/
theorem Bus.retains : Memory.Retains Bus.WellFormed IsRamAddress where
  write h _ value := h.write _ value
  read h ha hb value :=
    Bus.read_write_of_isRam h (Region.isRam_of_iff.mpr ha) (Region.isRam_of_iff.mpr hb) value

end GameBoy
