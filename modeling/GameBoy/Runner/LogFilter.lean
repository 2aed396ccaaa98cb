import GameBoy.Event
import GameBoy.Runner.Terminal

/-!
# Log filters

A filter decides which events the log shows.  It is a list of directives, each with a target and a
threshold; for an event the directive with the longest matching target decides.

In text, directives stand between commas: a level alone, a target alone, which shows everything from
there, or a target and a level with an equals sign between them.  A missing level shows everything.
-/

namespace GameBoy

/-- The threshold of a number, which is the number of levels that it lets through. -/
def Level.thresholdOfNumber? : Nat → Option (Option Level)
  | 0 => some none
  | 1 => some (some error)
  | 2 => some (some warn)
  | 3 => some (some info)
  | 4 => some (some debug)
  | 5 => some (some trace)
  | _ => none

/-- The threshold that a word names: a level in letters of any case, or nothing at all. -/
def Level.thresholdOfName? (word : String) : Option (Option Level) :=
  match word.toLower with
  | "off" => some none
  | "error" => some (some error)
  | "warn" => some (some warn)
  | "info" => some (some info)
  | "debug" => some (some debug)
  | "trace" => some (some trace)
  | _ => none

/-- The threshold that a word writes, as a number or by its name. -/
def Level.threshold? (word : String) : Option (Option Level) :=
  match Numeral.bounded? 0x10000000000000000 word with
  | some n => thresholdOfNumber? n
  | none => thresholdOfName? word

/-- A threshold for the events whose targets start with a text. -/
structure Directive where
  target : String
  /-- The least important level that is shown, if any is. -/
  threshold : Option Level
  deriving DecidableEq, Repr

namespace Directive

/-- Whether a directive is about an event. -/
def covers (d : Directive) (e : Event) : Bool := e.target.startsWith d.target

/-- Whether a directive lets a level through. -/
def shows (d : Directive) (level : Level) : Bool := d.threshold.any level.passes

/-- Whether a directive may start with a character. -/
def isFirstChar (c : Char) : Bool := c.isAlphanum || c == '_' || c == ':' || c == '-'

/-- The directive that a text writes.  What names no level is a target, to which everything in front of
the equals sign belongs, blanks as well. -/
def ofText? (text : String) : Option Directive := do
  let cs := text.toList
  if !(cs.dropWhile Char.isWhitespace).head?.any isFirstChar then none
  else match cs.dropWhile (· ≠ '=') with
    -- Without an equals sign the text is a level if it names one, else a target.
    | [] => return ((Level.threshold? text).map (⟨"", ·⟩)).getD ⟨text, some .trace⟩
    | _ :: level =>
      let target := String.ofList (cs.takeWhile (· ≠ '='))
      if level.isEmpty then return ⟨target, some .trace⟩
      else return ⟨target, ← Level.threshold? (String.ofList level)⟩

end Directive

/-- What the log shows: the directives in the order in which they were given. -/
structure LogFilter where
  directives : List Directive
  deriving DecidableEq, Repr

namespace LogFilter

/-- The more specific one of two directives, or the later one. -/
def moreSpecific (earlier later : Directive) : Directive :=
  if earlier.target.length ≤ later.target.length then later else earlier

/-- The directive that decides on an event, if any covers it. -/
def decisive? (filter : LogFilter) (e : Event) : Option Directive :=
  (filter.directives.filter (·.covers e)).foldl
    (fun best d => some (best.elim d (moreSpecific · d))) none

/-- Whether the log shows an event. -/
def shows (filter : LogFilter) (e : Event) : Bool :=
  (filter.decisive? e).any (·.shows e.level)

/-- The filter of some directives.  Without any, errors are shown. -/
def ofDirectives (directives : List Directive) : LogFilter :=
  ⟨if directives.isEmpty then [⟨"", some .error⟩] else directives⟩

/-- The texts between the commas that are not empty. -/
def words (text : String) : List String := (text.splitOn ",").filter (!·.isEmpty)

/-- The filter that a text writes, if all of its directives make sense. -/
def ofText? (text : String) : Option LogFilter :=
  ofDirectives <$> (words text).mapM Directive.ofText?

/-- The filter of those directives in a text that make sense. -/
def ofText (text : String) : LogFilter := ofDirectives ((words text).filterMap Directive.ofText?)

/-- The filter that shows single instructions as well. -/
def withTrace (filter : LogFilter) : LogFilter :=
  ⟨filter.directives ++ [⟨Event.traceTarget, some .trace⟩]⟩

/-- The listener that collects the lines of the events that a filter shows, fit for a terminal. -/
def listener (filter : LogFilter) : Listener (Array String) := fun lines e =>
  if filter.shows e then lines.push (Terminal.escapeText e.line) else lines

end LogFilter

end GameBoy
