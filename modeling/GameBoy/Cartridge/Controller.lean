import GameBoy.Cartridge.Header

/-!
# Bank controllers

A cartridge holds more memory than the processor can address.  Its bank controller decides which part
is seen: the ROM through the window 0x0000 to 0x7FFF, the cartridge RAM through 0xA000 to 0xBFFF.
The controller is configured by writing to the ROM window.

There are two kinds: no controller at all, which maps 32 KiB of ROM and 8 KiB of RAM directly, and
the MBC1 chip.
-/

namespace GameBoy

/-- The MBC1 chip.  The lower half of the ROM window shows bank 0; the upper half shows the selected
ROM bank. -/
structure Mbc1 where
  ram : ByteArray
  /-- The bank seen through the upper half of the ROM window. -/
  romBank : UInt8
  ramBank : UInt8
  /-- RAM that is not enabled can be neither read nor written. -/
  ramEnabled : Bool
  deriving DecidableEq

namespace Mbc1

/-- The chip can address four banks of RAM. -/
def maxRamSize : Nat := 4 * ramBankSize

/-- The chip as it is switched on, with zeroed RAM. -/
def fresh (ramSize : Nat) : Mbc1 := ⟨Storage.zeros (min ramSize maxRamSize), 1, 0, false⟩

/-- What an address that nothing answers to reads. -/
def openBus : UInt8 := 0xFF

/-- Where the byte at an address of the RAM window lives. -/
def ramOffset (c : Mbc1) (addr : UInt16) : Nat :=
  c.ramBank.toNat * ramBankSize + (addr.toNat - 0xA000)

/-- Reads a byte.  The RAM answers only while it is enabled. -/
def read (c : Mbc1) (rom : ByteArray) (addr : UInt16) : UInt8 :=
  if addr < 0x4000 then Storage.getD rom addr.toNat openBus
  -- Past the end of the image nothing answers.
  else if addr < 0x8000 then
    Storage.getD rom (c.romBank.toNat * romBankSize + (addr.toNat - 0x4000)) openBus
  else if 0xA000 ≤ addr && addr < 0xC000 && c.ramEnabled then
    Storage.getD c.ram (c.ramOffset addr) openBus
  else openBus

/-- Writes to a register of the chip or to the selected RAM bank.  Bank 0 cannot be selected for the
upper half of the ROM window; the chip takes bank 1 instead. -/
def write (c : Mbc1) (addr : UInt16) (value : UInt8) : Mbc1 :=
  if addr < 0x2000 then { c with ramEnabled := value &&& 0x0F == 0x0A }
  else if addr < 0x4000 then { c with romBank := max (value &&& 0x1F) 1 }
  else if addr < 0x6000 then { c with ramBank := value &&& 0x03 }
  else if 0xA000 ≤ addr && addr < 0xC000 && c.ramEnabled then
    let offset := c.ramOffset addr
    { c with ram := Storage.set c.ram offset value }
  else c

/-- What a write reports: the ROM bank that is selected, or that the banking mode is ignored. -/
def writeEvents (addr : UInt16) (value : UInt8) : List Event :=
  if addr < 0x2000 then []
  else if addr < 0x4000 then [.romBankSelected (max (value &&& 0x1F) 1)]
  else if addr < 0x6000 then []
  else if addr < 0x8000 then [.bankingModeIgnored value]
  else []

/-- The registers of the chip, one on each line. -/
def text (c : Mbc1) : String :=
  let bank (n : UInt8) : String := "0b" ++ Numeral.binary 8 n.toNat
  let lines :=
    ["MBC1 \x7b", "  RAMG:  " ++ toString c.ramEnabled, "  BANK1: " ++ bank c.romBank,
      "  BANK2: " ++ bank c.ramBank, "  RAM size: " ++ toString c.ram.size, "\x7d"]
  String.join (lines.map (· ++ "\n"))

end Mbc1

/-- The bank controller of a cartridge with its RAM. -/
inductive Controller where
  | direct (ram : ByteArray)
  | mbc1 (chip : Mbc1)
  deriving DecidableEq

namespace Controller

/-- The controller that a header asks for, with zeroed RAM of the given size. -/
def ofType (cartridgeType : UInt8) (ramSize : Nat) : Except LoadError Controller :=
  if cartridgeType = 0 then .ok (.direct (Storage.zeros ramSize))
  else if cartridgeType ≤ 3 then .ok (.mbc1 (.fresh ramSize))
  else .error (.unknownController cartridgeType)

/-- The name of a kind of controller in the log. -/
def name : Controller → String
  | direct _ => "Direct"
  | mbc1 _ => "MBC1"

/-- The cartridge RAM, which is what a battery would keep. -/
def ram : Controller → ByteArray
  | direct ram => ram
  | mbc1 chip => chip.ram

/-- Reads a byte of the ROM or of the RAM.  Without a chip an address that nothing answers to reads
as zero. -/
def read (c : Controller) (rom : ByteArray) (addr : UInt16) : UInt8 :=
  match c with
  | direct ram =>
    if addr < 0x8000 then Storage.getD rom addr.toNat 0
    else if 0xA000 ≤ addr && addr < 0xC000 then Storage.getD ram (addr.toNat - 0xA000) 0
    else 0
  | mbc1 chip => chip.read rom addr

/-- Writes a byte to the RAM or to a register of the chip. -/
def write (c : Controller) (addr : UInt16) (value : UInt8) : Controller :=
  match c with
  | direct ram =>
    if 0xA000 ≤ addr && addr < 0xC000 then direct (Storage.set ram (addr.toNat - 0xA000) value)
    else direct ram
  | mbc1 chip => mbc1 (chip.write addr value)

/-- What a write reports.  A write to the RAM window reports nothing, whether it reaches RAM or
not. -/
def writeEvents (c : Controller) (addr : UInt16) (value : UInt8) : List Event :=
  match c with
  | direct _ => if 0xA000 ≤ addr && addr < 0xC000 then [] else [.romWriteIgnored addr value]
  | mbc1 _ => Mbc1.writeEvents addr value

end Controller

end GameBoy
