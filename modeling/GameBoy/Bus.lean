import GameBoy.Cartridge.Basic
import GameBoy.Machine
import GameBoy.Video
import GameBoy.Word

/-!
# The bus

The bus routes every access of the processor to the cartridge, the video device, the working RAM, the
high RAM or a device register.  `Region.of` is the map of the address space: every address lies in
exactly one region, and reading, writing and reporting all follow it.

Working RAM has eight banks.  The first is always seen at 0xC000, a selected one at 0xD000.  A write
to the sprite copy register reads a whole page through the bus and hands it to the video device.
-/

namespace GameBoy

/-- The parts of the address space; each answers accesses in a way of its own. -/
inductive Region where
  | cartridge
  | video
  | workRam
  | bankedWorkRam
  | highRam
  | interruptPending
  | interruptEnable
  | scanline
  | spriteCopy
  | videoBank
  | workRamBank
  | unmapped
  deriving DecidableEq, Repr

/-- The region of an address.  Only the colour model has bank registers. -/
def Region.of (model : Model) (addr : UInt16) : Region :=
  if addr < 0x8000 then .cartridge
  else if addr < 0xA000 then .video
  else if addr < 0xC000 then .cartridge
  else if addr < 0xD000 then .workRam
  else if addr < 0xE000 then .bankedWorkRam
  else if addr < 0xFF00 then .unmapped
  -- The last page holds the registers and the high RAM.
  else if addr = enableAddress then .interruptEnable
  else if 0xFF80 ≤ addr then .highRam
  else if addr = pendingAddress then .interruptPending
  else if addr = 0xFF44 then .scanline
  else if addr = 0xFF46 then .spriteCopy
  else if addr = 0xFF4F && model == .cgb then .videoBank
  else if addr = 0xFF70 && model == .cgb then .workRamBank
  else .unmapped

/-- The size of a bank of working RAM, in bytes. -/
def workRamBankSize : Nat := 0x1000

/-- The number of banks of working RAM, the one at 0xC000 included. -/
def workRamBanks : Nat := 8

/-- The size of the high RAM, 0xFF80 to 0xFFFE. -/
def highRamSize : Nat := 0x7F

/-- Everything that the processor's address space is made of. -/
structure Bus (V : Type) where
  cartridge : Cartridge
  video : V
  model : Model
  /-- The banks of working RAM, one after the other. -/
  workRam : Block (workRamBanks * workRamBankSize)
  /-- The bank seen at 0xD000. -/
  workRamBank : UInt8
  /-- The bank of video memory that was selected last. -/
  videoBank : UInt8
  highRam : Block highRamSize
  interrupts : Interrupts
  deriving DecidableEq

namespace Bus

variable {V : Type}

/-- The bus around a cartridge and a video device, with empty RAM. -/
def assemble (cartridge : Cartridge) (video : V) (model : Model) : Bus V where
  cartridge := cartridge
  video := video
  model := model
  workRam := .zero _
  workRamBank := 1
  videoBank := 0
  highRam := .zero _
  interrupts := .none

/-- The bus around a cartridge, of the model that the cartridge is made for. -/
def ofCartridge (cartridge : Cartridge) : Bus VideoRam :=
  assemble cartridge .empty cartridge.model

/-- A device requests an interrupt. -/
def request (bus : Bus V) (source : Interrupt) : Bus V :=
  { bus with interrupts := bus.interrupts.request source }

/-- Where the byte at an address of the working RAM lives: the lower 12 bits of the address count
within the bank. -/
def workRamOffset (bank : UInt8) (addr : UInt16) : Nat :=
  bank.toNat * workRamBankSize + addr.toNat % workRamBankSize

/-- The offset lies inside the RAM if the bank exists. -/
theorem workRamOffset_lt {bank : UInt8} (h : bank ≤ 7) (addr : UInt16) :
    workRamOffset bank addr < workRamBanks * workRamBankSize := by
  have : bank.toNat ≤ 7 := h
  simp only [workRamOffset, workRamBanks, workRamBankSize]
  omega

/-- Where the byte at an address of the high RAM lives. -/
def highRamOffset (addr : UInt16) : Nat := addr.toNat - 0xFF80

/-- The bank of working RAM that a write to the bank register selects.  The first bank has a place of
its own, so it cannot be selected; the second is selected instead. -/
def selectedWorkRamBank (value : UInt8) : UInt8 := max (value &&& 7) 1

/-- The bank of video memory that a write to its bank register selects. -/
def selectedVideoBank (value : UInt8) : UInt8 := value &&& 1

/-- The first address of a page of 256 bytes. -/
def pageAddress (page : UInt8) : UInt16 := Word.ofBytes page 0

variable [VideoDevice V]

/-- Reads a byte.  Bits of device registers that are not wired read as set. -/
def read (bus : Bus V) (addr : UInt16) : UInt8 :=
  match Region.of bus.model addr with
  | .cartridge => bus.cartridge.read addr
  | .video => VideoDevice.read bus.video addr
  | .workRam => bus.workRam.get (workRamOffset 0 addr)
  | .bankedWorkRam => bus.workRam.get (workRamOffset bus.workRamBank addr)
  | .highRam => bus.highRam.get (highRamOffset addr)
  | .interruptPending => 0xE0 ||| bus.interrupts.pending.bits
  | .interruptEnable => bus.interrupts.enable.bits
  | .scanline => VideoDevice.scanline bus.video
  | .videoBank => 0xFE ||| bus.videoBank
  | .workRamBank => 0xF8 ||| bus.workRamBank
  | .spriteCopy | .unmapped => 0

/-- What a read reports: only that nothing answers. -/
def readEvents (bus : Bus V) (addr : UInt16) : List Event :=
  match Region.of bus.model addr with
  | .spriteCopy | .unmapped => [.unmappedRead addr]
  | _ => []

/-- The addresses from which a page is copied to the sprite memory. -/
def spriteSources (page : UInt8) : List UInt16 :=
  (List.range spriteMemorySize).map fun i => pageAddress page + UInt16.ofNat i

/-- Replaces the sprite memory by the first bytes of a page. -/
def copySprites (bus : Bus V) (page : UInt8) : Bus V :=
  let sprites := .ofFn spriteMemorySize fun i => bus.read (pageAddress page + UInt16.ofNat i)
  { bus with video := VideoDevice.replaceSprites bus.video sprites }

/-- Writes a byte.  Addresses that are read only or not mapped take no byte. -/
def write (bus : Bus V) (addr : UInt16) (value : UInt8) : Bus V :=
  match Region.of bus.model addr with
  | .cartridge => { bus with cartridge := bus.cartridge.write addr value }
  | .video => { bus with video := VideoDevice.write bus.video addr value }
  -- The first bank is seen at 0xC000 whatever bank is selected.
  | .workRam => { bus with workRam := bus.workRam.set (workRamOffset 0 addr) value }
  | .bankedWorkRam =>
    let offset := workRamOffset bus.workRamBank addr
    { bus with workRam := bus.workRam.set offset value }
  | .highRam => { bus with highRam := bus.highRam.set (highRamOffset addr) value }
  | .interruptPending =>
    { bus with interrupts := { bus.interrupts with pending := .ofBits value } }
  | .interruptEnable =>
    { bus with interrupts := { bus.interrupts with enable := .ofBits value } }
  | .spriteCopy => bus.copySprites value
  -- The video device keeps the number of its bank as well.
  | .videoBank =>
    let bank := selectedVideoBank value
    { bus with videoBank := bank, video := VideoDevice.selectBank bus.video bank }
  | .workRamBank => { bus with workRamBank := selectedWorkRamBank value }
  | .scanline | .unmapped => bus

/-- What a write reports: a bank switch, a copy of the sprites with what its reads report, or that
the byte was ignored. -/
def writeEvents (bus : Bus V) (addr : UInt16) (value : UInt8) : List Event :=
  match Region.of bus.model addr with
  | .cartridge => bus.cartridge.controller.writeEvents addr value
  | .spriteCopy =>
    .spriteCopy (pageAddress value) :: (spriteSources value).flatMap bus.readEvents
  | .videoBank => [.videoBankSelected (selectedVideoBank value)]
  | .workRamBank => [.workRamBankSelected (selectedWorkRamBank value)]
  | .scanline | .unmapped => [.unmappedWrite addr value]
  | _ => []

instance : Memory (Bus V) where
  read := read
  write := write
  readEvents := readEvents
  writeEvents := writeEvents
  active bus := bus.interrupts.active
  acknowledge bus source := { bus with interrupts := bus.interrupts.acknowledge source }

end Bus

/-- A console: the processor on its bus, with video memory but no screen. -/
abbrev Console := Machine (Bus VideoRam)

/-- The console that is switched on with a cartridge image in it. -/
def Console.load (image : ByteArray) : Except LoadError Console := do
  return Machine.boot (Bus.ofCartridge (← Cartridge.load image))

end GameBoy
