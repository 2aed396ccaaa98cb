import GameBoy.Numeral

/-!
# Arguments of the runner

The runner takes the path of an image and a few options.  Arguments are read from left to right.  An
option without an equals sign takes its value from the next argument, unless that one starts with a
dash; so does the path itself, and both are checked only when the next known option, the path or the
end of the arguments comes.  After two dashes alone every argument is a path.

Of several mistakes the one that is noticed first is reported.
-/

namespace GameBoy

/-- Why arguments are refused, or why there is nothing to run. -/
inductive ArgumentError where
  | missingImage
  | unknownArgument
  | missingValue
  | invalidNumber
  | unexpectedValue
  | repeatedOption
  | helpRequested
  | versionRequested
  deriving DecidableEq, Repr

/-- The text that a user is told. -/
def ArgumentError.message : ArgumentError → String
  | missingImage => "the path of an image is required"
  | unknownArgument => "unexpected argument"
  | missingValue => "a value is required"
  | invalidNumber => "not a number in range"
  | unexpectedValue => "unexpected value"
  | repeatedOption => "option given twice"
  | helpRequested =>
    "Usage: wisp [--fps <FPS>] [--frames <FRAMES>] [--trace] [--config <CONFIG>] <ROM>"
  | versionRequested => "wisp 0.1.0"

/-- What the command line asks for. -/
structure Arguments where
  image : String
  fps : Option Nat
  frames : Option Nat
  trace : Bool
  settings : Option String
  deriving DecidableEq, Repr

/-- The places that take a value. -/
inductive Parameter where
  | image | fps | frames | settings
  deriving DecidableEq, Repr

/-- A parameter that was named and is still to be checked.  It has no value until one comes. -/
structure PendingParameter where
  parameter : Parameter
  value : Option String

/-- What is known after some of the arguments. -/
structure PartialArguments where
  image : Option String := none
  fps : Option Nat := none
  frames : Option Nat := none
  trace : Bool := false
  settings : Option String := none
  pending : Option PendingParameter := none

/-- A frame rate is a number in 32 bits.  It may be written as minus zero. -/
def frameRate? (text : String) : Option Nat :=
  match text.toList with
  | '-' :: digits => do if (← Numeral.decimal? digits) = 0 then return 0 else none
  | _ => Numeral.bounded? 0x100000000 text

/-- A number of frames is a number in 64 bits. -/
def frameCount? (text : String) : Option Nat := Numeral.bounded? 0x10000000000000000 text

namespace PartialArguments

/-- Sets a numeric option, which may be given once. -/
def number (current : Option Nat) (read : String → Option Nat) (text : String) :
    Except ArgumentError (Option Nat) :=
  if current.isSome then .error .repeatedOption
  else match read text with
    | some n => .ok (some n)
    | none => .error .invalidNumber

/-- Sets a path, which may be given once and is not empty. -/
def path (current : Option String) (text : String) : Except ArgumentError (Option String) :=
  if current.isSome then .error .repeatedOption
  else if text.isEmpty then .error .missingValue
  else .ok (some text)

/-- Sets a parameter to the value that a text writes. -/
def set (p : PartialArguments) (parameter : Parameter) (text : String) :
    Except ArgumentError PartialArguments :=
  match parameter with
  | .image => do return { p with image := ← path p.image text }
  | .fps => do return { p with fps := ← number p.fps frameRate? text }
  | .frames => do return { p with frames := ← number p.frames frameCount? text }
  | .settings => do return { p with settings := ← path p.settings text }

/-- Checks the pending parameter. -/
def resolve (p : PartialArguments) : Except ArgumentError PartialArguments :=
  match p.pending with
  | none => .ok p
  | some ⟨_, none⟩ => .error .missingValue
  | some ⟨parameter, some text⟩ => { p with pending := none }.set parameter text

/-- Whether a path has been given, checked or not. -/
def hasImage (p : PartialArguments) : Bool :=
  p.image.isSome || p.pending.any (·.parameter = .image)

/-- Takes an argument for the path of an image, of which there is one. -/
def readPath (p : PartialArguments) (argument : String) : Except ArgumentError PartialArguments := do
  if p.hasImage then throw .unknownArgument
  return { ← p.resolve with pending := some ⟨.image, some argument⟩ }

/-- Reads an argument without a dash: the value that an option waits for, or the path. -/
def readPlain (p : PartialArguments) (argument : String) :
    Except ArgumentError PartialArguments :=
  match p.pending with
  -- The value is not looked at yet, so a bad one is noticed only later.
  | some ⟨parameter, none⟩ => .ok { p with pending := some ⟨parameter, some argument⟩ }
  | _ => p.readPath argument

/-- Reads an option that takes a value, and its value if an equals sign attaches one. -/
def readOption (p : PartialArguments) (parameter : Parameter) (attached : Option String) :
    Except ArgumentError PartialArguments := do
  let p ← p.resolve
  match attached with
  | some text => p.set parameter text
  | none => return { p with pending := some ⟨parameter, none⟩ }

/-- Reads an option without a value. -/
def readSwitch (p : PartialArguments) (attached : Option String)
    (effect : PartialArguments → Except ArgumentError PartialArguments) :
    Except ArgumentError PartialArguments := do
  if attached.isSome then throw .unexpectedValue
  effect (← p.resolve)

/-- Reads an option with a long name, which is given without its dashes. -/
def readLong (p : PartialArguments) (name : String) (attached : Option String) :
    Except ArgumentError PartialArguments :=
  if name = "fps" then p.readOption .fps attached
  else if name = "frames" then p.readOption .frames attached
  else if name = "config" then p.readOption .settings attached
  else if name = "trace" then p.readSwitch attached fun p =>
    if p.trace then .error .repeatedOption else .ok { p with trace := true }
  else if name = "help" then p.readSwitch attached fun _ => .error .helpRequested
  else if name = "version" then p.readSwitch attached fun _ => .error .versionRequested
  else .error .unknownArgument

/-- Reads one argument. -/
def read (p : PartialArguments) (argument : String) : Except ArgumentError PartialArguments :=
  match argument.toList with
  -- The name goes up to the first equals sign; a value may hold further ones.
  | '-' :: '-' :: cs =>
    let name := String.ofList (cs.takeWhile (· ≠ '='))
    match cs.dropWhile (· ≠ '=') with
    | _ :: text => p.readLong name (some (String.ofList text))
    | [] => p.readLong name none
  -- Short options may be run together, but the first of these ends the reading.
  | '-' :: 'h' :: _ => p.readSwitch none fun _ => .error .helpRequested
  | '-' :: 'V' :: _ => p.readSwitch none fun _ => .error .versionRequested
  | '-' :: _ :: _ => .error .unknownArgument
  -- A dash alone is a path.
  | _ => p.readPlain argument

/-- Reads arguments in order.  After two dashes alone all are paths. -/
def readAll (p : PartialArguments) : List String → Except ArgumentError PartialArguments
  | [] => .ok p
  | argument :: rest =>
    if argument = "--" then rest.foldlM readPath p
    else do (← p.read argument).readAll rest

end PartialArguments

/-- What the arguments ask for, or the first mistake that is noticed. -/
def Arguments.parse (arguments : List String) : Except ArgumentError Arguments := do
  -- What is still pending at the end is checked there.
  let p ← (← PartialArguments.readAll {} arguments).resolve
  match p.image with
  | none => throw .missingImage
  | some image => return ⟨image, p.fps, p.frames, p.trace, p.settings⟩

end GameBoy
