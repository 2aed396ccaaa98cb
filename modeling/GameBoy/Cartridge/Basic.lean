import GameBoy.Cartridge.Controller

/-!
# Cartridges

A cartridge is a ROM image with the header read from it and the bank controller that the header asks
for.  Loading one either succeeds and reports what was loaded, with a warning if the checksum is
wrong, or fails and reports exactly the error.
-/

namespace GameBoy

/-- The models of the console. -/
inductive Model where
  /-- The first model, with one switchable bank of working RAM and one bank of video memory. -/
  | dmg
  /-- The colour model, with seven switchable banks of working RAM and two of video memory. -/
  | cgb
  deriving DecidableEq, Repr

/-- The name of a model in the log. -/
def Model.name : Model → String
  | dmg => "Dmg"
  | cgb => "Cgb"

/-- An image that has been loaded. -/
structure Cartridge where
  header : Header
  rom : ByteArray
  controller : Controller
  deriving DecidableEq

namespace Cartridge

/-- The controller that a header asks for.  How much RAM there is matters only if it is known. -/
def selectController (h : Header) : Loading Controller := do
  if h.cartridgeType ≤ 3 then
    let ramSize ← Header.declared h.ramSize
    Loading.check (Controller.ofType h.cartridgeType ramSize)
  else
    Loading.refuse (.unknownController h.cartridgeType)

/-- An image that is shorter than its header declares is refused.  The declared size is looked up for
the report and for the error. -/
def refuseTruncated (image : ByteArray) (h : Header) : Loading Cartridge := do
  let reported ← Header.declared h.romSize
  Loading.report [.imageTruncated image.size reported]
  let needed ← Header.declared h.romSize
  Loading.fail (.imageTruncated image.size needed)

/-- Loads an image.  It has to be as long as its header declares and to have a known controller. -/
def loading (image : ByteArray) : Loading Cartridge := do
  let header ← Header.extract image
  let romSize ← Header.declared header.romSize
  if image.size < romSize then
    refuseTruncated image header
  else
    let controller ← selectController header
    let romSize ← Header.declared header.romSize
    let ramSize ← Header.declared header.ramSize
    Loading.report [.cartridgeLoaded header.titleText controller.name (romSize / romBankSize)
      (ramSize / ramBankSize)]
    -- A wrong checksum is no reason to refuse the image.
    Loading.report header.checksumEvents
    return { header, rom := image, controller }

/-- The cartridge of an image, or the reason why there is none. -/
def load (image : ByteArray) : Except LoadError Cartridge := (loading image).result

/-- What loading an image reports. -/
def loadEvents (image : ByteArray) : List Event := (loading image).events

/-- The model that a cartridge is made for. -/
def model (c : Cartridge) : Model := if c.header.supportsColor then .cgb else .dmg

/-- Reads a byte through the windows of the controller. -/
def read (c : Cartridge) (addr : UInt16) : UInt8 := c.controller.read c.rom addr

/-- Writes to a register of the controller or to the cartridge RAM.  The ROM stays as it is. -/
def write (c : Cartridge) (addr : UInt16) (value : UInt8) : Cartridge :=
  { c with controller := c.controller.write addr value }

end Cartridge

end GameBoy
