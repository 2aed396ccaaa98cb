import GameBoy.Duration
import GameBoy.Interrupt
import GameBoy.Trace

/-!
# Events

What happens inside the machine and the runner is reported as events.  An event is data; its level,
its target (the part of the program that it comes from) and its message are functions of it, so that
nothing is rendered unless somebody listens.
-/

namespace GameBoy

/-- How important an event is. -/
inductive Level where
  | error | warn | info | debug | trace
  deriving DecidableEq, Repr

namespace Level

/-- The name of a level in the log. -/
def name : Level → String
  | error => "ERROR"
  | warn => "WARN"
  | info => "INFO"
  | debug => "DEBUG"
  | trace => "TRACE"

/-- The place of a level, the most important one first. -/
def rank : Level → Nat
  | error => 0
  | warn => 1
  | info => 2
  | debug => 3
  | trace => 4

/-- Whether a listener with the given threshold hears this level. -/
def passes (level threshold : Level) : Bool := level.rank ≤ threshold.rank

end Level

/-- Everything that is worth reporting. -/
inductive Event where
  | headerMissing (length : Nat)
  | imageTruncated (length declared : Nat)
  | unknownRomSize (code : UInt8)
  | unknownRamSize (code : UInt8)
  | unknownController (code : UInt8)
  | cartridgeLoaded (title controller : String) (romBanks ramBanks : Nat)
  | checksumMismatch (declared computed : UInt8)
  /-- A write to the ROM of a cartridge without a banking chip. -/
  | romWriteIgnored (addr : UInt16) (value : UInt8)
  | romBankSelected (bank : UInt8)
  | bankingModeIgnored (value : UInt8)
  | unmappedRead (addr : UInt16)
  | unmappedWrite (addr : UInt16) (value : UInt8)
  | workRamBankSelected (bank : UInt8)
  | videoBankSelected (bank : UInt8)
  /-- A copy of a page into the sprite memory. -/
  | spriteCopy (base : UInt16)
  | interruptServiced (source : Interrupt) (pc : UInt16)
  | undefinedOpcode (code : UInt8) (pc : UInt16)
  /-- An instruction is about to execute. -/
  | executing (registers : RegisterDump) (next : Descriptor)
  | runStarted (frames fps : Nat) (frame : Duration)
  | frameFinished (number : Nat) (registers : RegisterDump)
  | runFinished (frames cycles : Nat)
  | runFailed (message : String)

namespace Event

/-- How important each event is. -/
def level : Event → Level
  | headerMissing .. | imageTruncated .. | unknownRomSize _ | unknownRamSize _
  | unknownController _ | undefinedOpcode .. | runFailed _ => .error
  | checksumMismatch .. => .warn
  | cartridgeLoaded .. | runStarted .. | runFinished .. => .info
  | workRamBankSelected _ | videoBankSelected _ | spriteCopy _ | interruptServiced ..
  | frameFinished .. => .debug
  -- What a program may do at any time is of the lowest level, so that it does not drown the rest.
  | romWriteIgnored .. | romBankSelected _ | bankingModeIgnored _ | unmappedRead _
  | unmappedWrite .. | executing .. => .trace

/-- The target of the instructions that are about to execute. -/
def traceTarget : String := "wraith::trace"

/-- The part of the program that an event comes from. -/
def target : Event → String
  | headerMissing _ | imageTruncated .. | unknownRomSize _ | unknownRamSize _
  | cartridgeLoaded .. | checksumMismatch .. => "wraith::rom"
  | unknownController _ | romWriteIgnored .. => "wraith::mem::mbc"
  | romBankSelected _ | bankingModeIgnored _ => "wraith::mem::mbc::mbc1"
  | unmappedRead _ | unmappedWrite .. | workRamBankSelected _ | videoBankSelected _
  | spriteCopy _ => "wraith::mem"
  | interruptServiced .. | undefinedOpcode .. => "wraith::cpu"
  | executing .. => traceTarget
  | runStarted .. | frameFinished .. | runFinished .. | runFailed _ => "wisp"

/-- A byte as messages write it. -/
def byteText (b : UInt8) : String := "0x" ++ Numeral.hexByte b

/-- A word as messages write it. -/
def wordText (w : UInt16) : String := "0x" ++ Numeral.hexWord w

/-- The message of an event. -/
def message : Event → String
  | headerMissing length => s!"ROM of {length} bytes is too short to contain a header"
  | imageTruncated length declared =>
    s!"ROM declares {declared} bytes but only {length} were given"
  | unknownRomSize code => "Unknown ROM size code: " ++ byteText code
  | unknownRamSize code => "Unknown RAM size code: " ++ byteText code
  | unknownController code => "Unknown cartridge controller type: " ++ byteText code
  | cartridgeLoaded title controller romBanks ramBanks =>
    "Loaded \"" ++ title ++ "\" with a " ++ controller ++
      s!" controller, {romBanks} ROM banks and {ramBanks} RAM banks"
  | checksumMismatch declared computed =>
    "Header checksum mismatch: header says " ++ byteText declared ++
      ", image computes " ++ byteText computed
  | romWriteIgnored addr value =>
    "Ignoring write of " ++ byteText value ++ " to ROM @ " ++ wordText addr
  | romBankSelected bank => s!"MBC1 switched to ROM bank {bank.toNat}"
  | bankingModeIgnored value => "Ignoring MBC1 banking mode select: " ++ byteText value
  | unmappedRead addr => "Read from unmapped address " ++ wordText addr
  | unmappedWrite addr value => "Ignoring write of " ++ byteText value ++ " to " ++ wordText addr
  | workRamBankSelected bank => s!"Switched to WRAM bank {bank.toNat}"
  | videoBankSelected bank => s!"Switched to VRAM bank {bank.toNat}"
  | spriteCopy base => "OAM DMA triggered from " ++ wordText base
  | interruptServiced source pc =>
    "Servicing " ++ source.name ++ " interrupt, jumping from " ++ wordText pc ++ " to " ++
      wordText source.vector
  | undefinedOpcode code pc => "Unknown op code " ++ byteText code ++ " @ " ++ wordText pc
  | executing registers next => registers.traceLine next
  | runStarted frames fps frame =>
    s!"Running {frames} frames at {fps} fps ({frame.text} per frame)"
  | frameFinished number registers => s!"Finished frame {number}: {registers.text}"
  | runFinished frames cycles => s!"Ran {frames} frames in {cycles} cycles"
  | runFailed message => message

/-- The whole line of an event in the log. -/
def line (e : Event) : String := e.level.name ++ " " ++ e.target ++ ": " ++ e.message

end Event

/-- A listener folds events into a state of its own. -/
abbrev Listener (σ : Type) := σ → Event → σ

namespace Listener

variable {σ : Type}

/-- The listener that hears nothing. -/
def deaf : Listener Unit := fun s _ => s

/-- What a listener makes of some events, one after the other. -/
@[inline] def hear (listener : Listener σ) (s : σ) (events : List Event) : σ :=
  events.foldl listener s

/-- The listener that does not hear of single instructions. -/
def withoutTrace (listener : Listener σ) : Listener σ := fun s e =>
  match e with
  | .executing .. => s
  | e => listener s e

end Listener

end GameBoy
