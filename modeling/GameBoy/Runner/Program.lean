import GameBoy.Runner.LogFilter
import GameBoy.Runner.Run

/-!
# The program of the runner

From the arguments and the files to the exit code and the log.  The program is written over any monad
that can read files, so what it does can be asked without a file system.
-/

namespace GameBoy

/-- What the program leaves behind. -/
structure Outcome where
  exitCode : UInt8
  log : Array String
  /-- What it answers instead of running: help, its version, or why the settings are refused. -/
  answer : Option String

namespace Outcome

/-- The exit code of a run that has come to its end. -/
def success : UInt8 := 0

/-- The exit code of a run that has failed. -/
def runFailed : UInt8 := 1

/-- The exit code if there are no settings to run with. -/
def refused : UInt8 := 2

/-- The outcome if there are no settings.  Help and version are no failures. -/
def ofSettingsError (e : SettingsError) : Outcome :=
  match e with
  | .arguments .helpRequested | .arguments .versionRequested => ⟨success, #[], some e.message⟩
  | e => ⟨refused, #[], some e.message⟩

/-- The outcome of a run, whose failure is the last thing in the log. -/
def ofRun (filter : LogFilter) : Except RunError RunSummary × Array String → Outcome
  | (.ok _, log) => ⟨success, log, none⟩
  | (.error e, log) => ⟨runFailed, filter.listener log (.runFailed e.message), none⟩

end Outcome

/-- The filter of the log: the one of the environment if it makes sense, else that of the settings. -/
def Settings.filter (settings : Settings) (environment : Option String) : LogFilter :=
  let filter := (environment.bind LogFilter.ofText?).getD (.ofText settings.logLevel)
  if settings.trace then filter.withTrace else filter

/-- Runs the program.  `environment` is the filter that the environment asks for. -/
def runProgram {m : Type → Type} [Monad m] (read : FileReader m) (environment : Option String)
    (arguments : List String) : m Outcome := do
  match Arguments.parse arguments with
  -- Nothing has been read yet, and nothing is logged.
  | .error e => return .ofSettingsError (.arguments e)
  | .ok arguments =>
    match ← Settings.load read arguments with
    | .error e => return .ofSettingsError e
    | .ok settings =>
      let filter := settings.filter environment
      return .ofRun filter (← settings.run read filter.listener #[])

end GameBoy
