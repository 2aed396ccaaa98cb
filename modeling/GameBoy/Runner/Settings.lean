import GameBoy.Duration
import GameBoy.Runner.Arguments
import GameBoy.Toml.Document

/-!
# Settings of the runner

What to run, how fast, for how long, and what to report.  Values on the command line win over those
in the settings file, and those over the defaults.  The frame rate is kept between `minimumFps` and
`maximumFps`, so a frame always has a length.
-/

namespace GameBoy

/-- The lowest frame rate. -/
def minimumFps : Nat := 20

/-- The highest frame rate. -/
def maximumFps : Nat := 60

/-- The frame rate if nobody asks for one. -/
def defaultFps : Nat := 30

/-- The number of frames if nobody asks for one. -/
def defaultFrames : Nat := 60

/-- What the log shows if nobody asks for anything. -/
def defaultLogLevel : String := "info"

/-- What a settings file asks for. -/
structure FileSettings where
  fps : Option Nat := none
  frames : Option Nat := none
  trace : Option Bool := none
  logLevel : Option String := none
  deriving DecidableEq, Repr

namespace FileSettings

/-- The value of a key, if the key is there.  Fails if the value is not of the right kind. -/
def field {α : Type} (t : Toml.Table) (key : String) (read : Toml.Value → Option α) :
    Option (Option α) :=
  match t.get? key with
  | none => some none
  | some v => some <$> read v

/-- A whole number from zero up to a limit. -/
def natural (limit : Nat) : Toml.Value → Option Nat
  | .scalar (.integer n) => if 0 ≤ n && n < limit then some n.toNat else none
  | _ => none

/-- A truth value. -/
def boolean : Toml.Value → Option Bool
  | .scalar (.boolean b) => some b
  | _ => none

/-- A text. -/
def string : Toml.Value → Option String
  | .scalar (.string s) => some s
  | _ => none

/-- The settings in a table.  Other keys are ignored. -/
def ofTable? (t : Toml.Table) : Option FileSettings := do
  return {
    fps := ← field t "fps" (natural 0x100000000)
    frames := ← field t "frames" (natural 0x10000000000000000)
    trace := ← field t "trace" boolean
    logLevel := ← field t "log_level" string }

/-- The settings in the text of a file. -/
def ofText? (text : String) : Option FileSettings := do ofTable? (← Toml.Table.ofText? text)

end FileSettings

/-- What to run, and how. -/
structure Settings where
  image : String
  fps : Nat
  frames : Nat
  trace : Bool
  logLevel : String
  deriving DecidableEq, Repr

namespace Settings

/-- Combines the command line with the settings file. -/
def merge (arguments : Arguments) (file : FileSettings) : Settings where
  image := arguments.image
  fps := max minimumFps (min maximumFps ((arguments.fps <|> file.fps).getD defaultFps))
  frames := (arguments.frames <|> file.frames).getD defaultFrames
  -- The switch can only be turned on, so either place does.
  trace := arguments.trace || file.trace.getD false
  logLevel := file.logLevel.getD defaultLogLevel

/-- The emulated time in each frame, rounded down to nanoseconds. -/
def frame (s : Settings) : Duration := ⟨Duration.nanosecondsPerSecond / s.fps⟩

end Settings

/-- A file that cannot be read, with the reason that the system gives. -/
structure ReadError where
  path : String
  reason : String
  deriving DecidableEq, Repr

/-- The text that a user is told. -/
def ReadError.message (e : ReadError) : String := "could not read " ++ e.path ++ ": " ++ e.reason

/-- A way to read files: the bytes, or why there are none. -/
abbrev FileReader (m : Type → Type) := String → m (Except String ByteArray)

/-- Why there are no settings. -/
inductive SettingsError where
  | arguments (e : ArgumentError)
  | unreadable (e : ReadError)
  /-- The settings file is malformed or holds a value of the wrong kind. -/
  | malformed
  deriving DecidableEq, Repr

/-- The text that a user is told. -/
def SettingsError.message : SettingsError → String
  | arguments e => e.message
  | unreadable e => e.message
  | malformed => "invalid config file"

namespace Settings

/-- The settings with those of a file whose bytes have been read. -/
def ofFile (arguments : Arguments) (path : String) (bytes : ByteArray) :
    Except SettingsError Settings :=
  match String.fromUTF8? bytes with
  | none => .error (.unreadable ⟨path, "stream did not contain valid UTF-8"⟩)
  | some text =>
    match FileSettings.ofText? text with
    | none => .error .malformed
    | some file => .ok (merge arguments file)

/-- Reads the settings file, if the arguments name one, and combines it with them. -/
def load {m : Type → Type} [Monad m] (read : FileReader m) (arguments : Arguments) :
    m (Except SettingsError Settings) := do
  match arguments.settings with
  | none => return .ok (merge arguments {})
  | some path =>
    match ← read path with
    | .error reason => return .error (.unreadable ⟨path, reason⟩)
    | .ok bytes => return ofFile arguments path bytes

end Settings

end GameBoy
