import GameBoy.Event
import GameBoy.Storage

/-!
# Memory

The processor sees memory through a small interface: bytes are read and written at 16-bit addresses,
and the interrupt controller is asked which sources are active and told which one is served.  A
memory without a controller of its own keeps the two interrupt registers as plain bytes.
-/

namespace GameBoy

/-- The address of the register of enabled interrupts. -/
def enableAddress : UInt16 := 0xFFFF

/-- The address of the register of requested interrupts. -/
def pendingAddress : UInt16 := 0xFF0F

/-- What the processor needs from a memory.  The events say what there is to report about an access
to the memory in the state before it. -/
class Memory (μ : Type) where
  read : μ → UInt16 → UInt8
  write : μ → UInt16 → UInt8 → μ
  readEvents : μ → UInt16 → List Event := fun _ _ => []
  writeEvents : μ → UInt16 → UInt8 → List Event := fun _ _ _ => []
  active : μ → UInt8 := fun m => read m enableAddress &&& read m pendingAddress &&& 0x1F
  acknowledge : μ → Interrupt → μ := fun m source =>
    write m pendingAddress (read m pendingAddress &&& ~~~source.mask)

/-- Flat memory: 64 KiB of plain bytes, with a journal of all writes. -/
structure FlatMemory where
  cells : Block 0x10000
  /-- The bytes written so far, in order. -/
  journal : Array (UInt16 × UInt8)

namespace FlatMemory

/-- Flat memory with the given bytes, nothing written yet. -/
def ofCells (cells : Block 0x10000) : FlatMemory := ⟨cells, #[]⟩

instance : Memory FlatMemory where
  read m addr := m.cells.get addr.toNat
  write m addr value := ⟨m.cells.set addr.toNat value, m.journal.push (addr, value)⟩

/-- A byte that is written is read back, and no other changes. -/
theorem read_write (m : FlatMemory) (a b : UInt16) (value : UInt8) :
    Memory.read (Memory.write m a value) b = if b = a then value else Memory.read m b := by
  have ha : a.toNat < 0x10000 := a.toNat_lt
  simp [Memory.read, Memory.write, Block.get_set, ha, UInt16.toNat_inj]

end FlatMemory

end GameBoy
