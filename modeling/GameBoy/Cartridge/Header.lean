import GameBoy.Event
import GameBoy.Storage

/-!
# Cartridge headers

The header of a cartridge image tells its title, which bank controller it has, and how much ROM and
RAM there is.  It ends with a checksum over most of its bytes.

`Header.extract` reads and checks a header.  Each way in which an image can be refused is a
`LoadError`.  Reading an image is a `Loading`: the checks report what they find as they go along, and
a check that is made again reports again.
-/

namespace GameBoy

/-- The size of a bank of ROM, in bytes. -/
def romBankSize : Nat := 0x4000

/-- The size of a bank of cartridge RAM, in bytes. -/
def ramBankSize : Nat := 0x2000

/-- Why an image cannot be loaded. -/
inductive LoadError where
  /-- The image is too short to hold a header. -/
  | headerMissing (length : Nat)
  /-- The image is shorter than its header declares. -/
  | imageTruncated (length declared : Nat)
  | unknownRomSize (code : UInt8)
  | unknownRamSize (code : UInt8)
  | unknownController (code : UInt8)
  deriving DecidableEq, Repr

/-- The header ends here, so an image has at least this many bytes. -/
def headerEnd : Nat := 0x150

namespace LoadError

/-- The text that a user is told. -/
def message : LoadError → String
  | headerMissing length => truncated length headerEnd
  | imageTruncated length declared => truncated length declared
  | unknownRomSize code => "unknown ROM size code: " ++ Event.byteText code
  | unknownRamSize code => "unknown RAM size code: " ++ Event.byteText code
  | unknownController code => "unknown cartridge controller type: " ++ Event.byteText code
where
  truncated (length needed : Nat) : String :=
    s!"truncated image: {length} bytes were given but at least {needed} are required"

/-- The error that the log is told. -/
def event : LoadError → Event
  | headerMissing length => .headerMissing length
  | imageTruncated length declared => .imageTruncated length declared
  | unknownRomSize code => .unknownRomSize code
  | unknownRamSize code => .unknownRamSize code
  | unknownController code => .unknownController code

end LoadError

/-- A computation on an image that can refuse it: its result, and the events that it has reported on
the way, the first one first. -/
structure Loading (α : Type) where
  result : Except LoadError α
  events : List Event

namespace Loading

variable {α β : Type}

instance : Monad Loading where
  pure a := ⟨.ok a, []⟩
  bind x f :=
    match x.result with
    | .ok a => ⟨(f a).result, x.events ++ (f a).events⟩
    | .error e => ⟨.error e, x.events⟩

/-- Reports some events and goes on. -/
def report (events : List Event) : Loading Unit := ⟨.ok (), events⟩

/-- Refuses the image without a report. -/
def fail (e : LoadError) : Loading α := ⟨.error e, []⟩

/-- Reports an error and refuses the image with it. -/
def refuse (e : LoadError) : Loading α := do
  report [e.event]
  fail e

/-- Goes on with an answer, or refuses the image with the error. -/
def check (answer : Except LoadError α) : Loading α :=
  match answer with
  | .ok a => return a
  | .error e => refuse e

end Loading

/-- Starting from zero, subtracts each byte and one more. -/
def checksum (bytes : List UInt8) : UInt8 := bytes.foldl (fun sum b => sum - b - 1) 0

/-- The parts of a cartridge header that matter here. -/
structure Header where
  title : Block 11
  manufacturer : Block 4
  /-- Says whether the cartridge knows the colour model. -/
  colorFlag : UInt8
  /-- Selects the bank controller. -/
  cartridgeType : UInt8
  romSizeCode : UInt8
  ramSizeCode : UInt8
  declaredChecksum : UInt8
  computedChecksum : UInt8
  deriving DecidableEq

namespace Header

/-- The text before the first zero byte; each byte is the character of that number. -/
def charsOf {size : Nat} (field : Block size) : String :=
  String.ofList
    ((field.bytes.data.toList.takeWhile (· != 0)).map fun b => Char.ofNat b.toNat)

/-- The title of the game. -/
def titleText (h : Header) : String := charsOf h.title

/-- The code of the manufacturer. -/
def manufacturerText (h : Header) : String := charsOf h.manufacturer

/-- Whether the cartridge knows the colour model, alone or besides the first one. -/
def supportsColor (h : Header) : Bool := h.colorFlag == 0x80 || h.colorFlag == 0xC0

/-- Whether the cartridge works on the colour model alone. -/
def colorOnly (h : Header) : Bool := h.colorFlag == 0xC0

/-- The size of the ROM: 32 KiB, doubled as many times as the code says, up to 8 MiB. -/
def romSize (h : Header) : Except LoadError Nat :=
  if h.romSizeCode ≤ 8 then .ok ((2 * romBankSize) <<< h.romSizeCode.toNat)
  else .error (.unknownRomSize h.romSizeCode)

/-- The size of the cartridge RAM.  The codes are not in the order of the sizes. -/
def ramSize (h : Header) : Except LoadError Nat :=
  match h.ramSizeCode with
  | 0 | 1 => .ok 0
  | 2 => .ok ramBankSize
  | 3 => .ok (4 * ramBankSize)
  | 4 => .ok (16 * ramBankSize)
  | 5 => .ok (8 * ramBankSize)
  | code => .error (.unknownRamSize code)

/-- A declared size; an unknown code declares nothing. -/
def sizeOrZero (size : Except LoadError Nat) : Nat :=
  match size with
  | .ok n => n
  | .error _ => 0

/-- What looking up a declared size reports: an error if the code is unknown. -/
def sizeEvents (size : Except LoadError Nat) : List Event :=
  match size with
  | .ok _ => []
  | .error e => [e.event]

/-- Whether the header holds the checksum of its own bytes. -/
def checksumMatches (h : Header) : Bool := h.declaredChecksum == h.computedChecksum

/-- The warning about a wrong checksum. -/
def checksumEvents (h : Header) : List Event :=
  if h.checksumMatches then []
  else [.checksumMismatch h.declaredChecksum h.computedChecksum]

/-- The header fields of an image, unchecked. -/
def read (image : ByteArray) : Header :=
  let byte (offset : Nat) : UInt8 := Storage.getD image offset 0
  { title := .ofFn 11 fun i => byte (0x134 + i)
    manufacturer := .ofFn 4 fun i => byte (0x13F + i)
    colorFlag := byte 0x143
    cartridgeType := byte 0x147
    romSizeCode := byte 0x148
    ramSizeCode := byte 0x149
    declaredChecksum := byte 0x14D
    -- From the title up to the byte in front of the checksum.
    computedChecksum := checksum ((List.range' 0x134 25).map byte) }

/-- Asks for a declared size once more; an unknown code is reported again, and declares nothing. -/
def declared (size : Except LoadError Nat) : Loading Nat := do
  Loading.report (sizeEvents size)
  return sizeOrZero size

/-- The header of an image.  The image has to hold one, and its size codes have to be known. -/
def extract (image : ByteArray) : Loading Header := do
  if image.size < headerEnd then
    Loading.refuse (.headerMissing image.size)
  else
    let h := read image
    let _ ← Loading.check h.romSize
    let _ ← Loading.check h.ramSize
    return h

/-- The header of an image, or the reason why it has none. -/
def ofImage (image : ByteArray) : Except LoadError Header := (extract image).result

end Header

end GameBoy
