import GameBoy.Numeral

/-!
# Interrupts

Five devices can interrupt the processor.  Each has a bit in two registers: the devices set bits of
the *pending* register, the program sets bits of the *enable* register, and a source is *active*
when both of its bits are set.  Among the active sources the one with the lowest bit is served
first.
-/

namespace GameBoy

/-- The interrupt sources, from the highest to the lowest priority. -/
inductive Interrupt where
  | vblank
  | lcd
  | timer
  | serial
  | joypad
  deriving DecidableEq, Repr

namespace Interrupt

/-- All sources, the most important one first. -/
def all : List Interrupt := [vblank, lcd, timer, serial, joypad]

/-- There are no other sources. -/
theorem mem_all (source : Interrupt) : source ∈ all := by
  cases source <;> decide

/-- The number of the source's bit in the two registers. -/
def index : Interrupt → UInt8
  | vblank => 0
  | lcd => 1
  | timer => 2
  | serial => 3
  | joypad => 4

/-- The byte in which only the source's own bit is set. -/
def mask (source : Interrupt) : UInt8 := 1 <<< source.index

/-- The address at which the source's handler starts: the handlers lie eight bytes apart. -/
def vector (source : Interrupt) : UInt16 := 0x40 + 8 * source.index.toUInt16

/-- The name of a source in the log. -/
def name : Interrupt → String
  | vblank => "VBlank"
  | lcd => "LCD"
  | timer => "Timer"
  | serial => "Serial"
  | joypad => "Joypad"

/-- The source of the highest priority whose bit is set.  Bits above the fifth belong to no
source. -/
def highestPriority (bits : UInt8) : Option Interrupt :=
  all.find? fun source => bits &&& source.mask != 0

/-- The source that is found has its bit set. -/
theorem mask_of_highestPriority {bits : UInt8} {source : Interrupt}
    (h : highestPriority bits = some source) : bits &&& source.mask ≠ 0 := by
  simpa using List.find?_some h

end Interrupt

/-- A set of interrupt sources, kept as the bits of a register.  Registers that the program writes
are cut to the five wired bits by `ofBits`. -/
structure InterruptSet where
  bits : UInt8
  deriving DecidableEq

namespace InterruptSet

/-- No sources. -/
def empty : InterruptSet := ⟨0⟩

/-- The register after a write: only the five lower bits are wired. -/
def ofBits (bits : UInt8) : InterruptSet := ⟨bits &&& 0x1F⟩

/-- Whether the bit of a source is set. -/
def contains (s : InterruptSet) (source : Interrupt) : Bool := s.bits &&& source.mask != 0

/-- Sets the bit of a source. -/
def insert (s : InterruptSet) (source : Interrupt) : InterruptSet := ⟨s.bits ||| source.mask⟩

/-- Clears the bit of a source. -/
def erase (s : InterruptSet) (source : Interrupt) : InterruptSet := ⟨s.bits &&& ~~~source.mask⟩

/-- The register in binary, with at least one digit per source. -/
def text (s : InterruptSet) : String := "0b" ++ Numeral.binary 5 s.bits.toNat

end InterruptSet

/-- The two registers of the interrupt controller. -/
structure Interrupts where
  /-- The sources that the program listens to. -/
  enable : InterruptSet
  /-- The sources that ask for service. -/
  pending : InterruptSet
  deriving DecidableEq

namespace Interrupts

/-- The registers as they are after switching on. -/
def none : Interrupts := ⟨.empty, .empty⟩

/-- A device asks for service. -/
def request (r : Interrupts) (source : Interrupt) : Interrupts :=
  { r with pending := r.pending.insert source }

/-- The processor takes up a request. -/
def acknowledge (r : Interrupts) (source : Interrupt) : Interrupts :=
  { r with pending := r.pending.erase source }

/-- The bits of the sources that are enabled and ask for service. -/
def active (r : Interrupts) : UInt8 := r.enable.bits &&& r.pending.bits

end Interrupts

end GameBoy
