import GameBoy.Storage

/-!
# Video devices

The bus talks to the video hardware through a small interface: video memory in two banks, the line
that is being drawn, and the sprite memory, which is only ever replaced as a whole.

`VideoRam` is the device that holds the memory and draws nothing.  `VideoRecorder` has no memory and
writes down what it is told.
-/

namespace GameBoy

/-- The size of a bank of video memory, in bytes. -/
def videoBankSize : Nat := 0x2000

/-- The size of the sprite memory, in bytes. -/
def spriteMemorySize : Nat := 160

/-- What the bus needs from a video device.  Addresses lie in 0x8000 to 0x9FFF. -/
class VideoDevice (V : Type) where
  read : V → UInt16 → UInt8
  write : V → UInt16 → UInt8 → V
  /-- The line that is being drawn. -/
  scanline : V → UInt8
  replaceSprites : V → Block spriteMemorySize → V
  selectBank : V → UInt8 → V

/-- Video memory without a screen. -/
structure VideoRam where
  /-- The two banks, one after the other. -/
  cells : Block (2 * videoBankSize)
  sprites : Block spriteMemorySize
  bank : UInt8
  scanline : UInt8
  deriving DecidableEq

namespace VideoRam

/-- Empty video memory with the first bank selected. -/
def empty : VideoRam := ⟨.zero _, .zero _, 0, 0⟩

/-- Where the byte at an address lives: the lower 13 bits of the address count within the bank. -/
def offset (bank : UInt8) (addr : UInt16) : Nat :=
  bank.toNat * videoBankSize + addr.toNat % videoBankSize

/-- Reads a byte of the selected bank. -/
def read (v : VideoRam) (addr : UInt16) : UInt8 := v.cells.get (offset v.bank addr)

/-- Writes a byte to the selected bank. -/
def write (v : VideoRam) (addr : UInt16) (value : UInt8) : VideoRam :=
  { v with cells := v.cells.set (offset v.bank addr) value }

/-- Selects a bank by the lowest bit of its number. -/
def selectBank (v : VideoRam) (bank : UInt8) : VideoRam := { v with bank := bank &&& 1 }

instance : VideoDevice VideoRam where
  read := read
  write := write
  scanline v := v.scanline
  replaceSprites v sprites := { v with sprites := sprites }
  selectBank := selectBank

/-- The offset lies inside the memory if the bank exists. -/
theorem offset_lt {bank : UInt8} (h : bank ≤ 1) (addr : UInt16) :
    offset bank addr < 2 * videoBankSize := by
  have : bank.toNat ≤ 1 := h
  simp only [offset, videoBankSize]
  omega

end VideoRam

/-- What a video device can be told. -/
inductive VideoNote where
  | write (addr : UInt16) (value : UInt8)
  | sprites (data : Block spriteMemorySize)
  | bank (number : UInt8)

/-- A video device that writes down what it is told.  Its memory reads as the low byte of the
address. -/
structure VideoRecorder where
  scanline : UInt8
  notes : Array VideoNote

namespace VideoRecorder

/-- A recorder that has been told nothing yet. -/
def empty : VideoRecorder := ⟨0, #[]⟩

/-- Writes down one more thing. -/
def note (v : VideoRecorder) (n : VideoNote) : VideoRecorder := { v with notes := v.notes.push n }

instance : VideoDevice VideoRecorder where
  read _ addr := addr.toUInt8
  write v addr value := v.note (.write addr value)
  scanline v := v.scanline
  replaceSprites v sprites := v.note (.sprites sprites)
  selectBank v bank := v.note (.bank bank)

end VideoRecorder

end GameBoy
