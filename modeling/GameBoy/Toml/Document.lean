import GameBoy.Toml.Value

/-!
# The grammar of TOML documents

`Table.ofText?` reads a document.  Values nest up to `maximumNesting` deep, and keys have fewer parts
than `maximumKeyParts`; documents that go beyond that are refused.
-/

namespace GameBoy.Toml

/-- How deep arrays and tables that are written as values may nest. -/
def maximumNesting : Nat := 79

/-- The number of parts that is too much for a dotted key. -/
def maximumKeyParts : Nat := 80

/-- Whether a character may stand in a key without quotes. -/
def isKeyChar (c : Char) : Bool :=
  isDigit c || ('A' ≤ c && c ≤ 'Z') || ('a' ≤ c && c ≤ 'z') || c == '_' || c == '-'

/-- One part of a key, bare or in quotes, with the blanks around it. -/
def keyPart : Reader String := fun cs =>
  let cs := skipBlanks cs
  match cs with
  | '\x22' :: _ | '\x27' :: _ => (lineString cs).map fun (s, rest) => (s, skipBlanks rest)
  | _ =>
    let name := cs.takeWhile isKeyChar
    if name.isEmpty then none
    else some (String.ofList name, skipBlanks (cs.dropWhile isKeyChar))

/-- The parts of a key in front of the last one, and the last one.  The first argument bounds the
number of parts. -/
def keyParts : Nat → Reader (List String × String)
  | 0, _ => none
  | parts + 1, cs => do
    let (part, rest) ← keyPart cs
    match rest with
    | '.' :: rest =>
      let ((path, last), rest) ← keyParts parts rest
      return ((part :: path, last), rest)
    | rest => return (([], part), rest)

/-- A key, which may be dotted. -/
def key : Reader (List String × String) := keyParts (maximumKeyParts - 1)

/-- The elements of an array and its closing bracket.  Line ends and comments may stand anywhere, and
a comma behind the last element.  The number bounds the elements. -/
def arrayRest (element : Reader Value) : Nat → Reader (List Value)
  | 0, _ => none
  | fuel + 1, cs =>
    match skipLines cs with
    | ']' :: rest => some ([], rest)
    | cs => do
      let (v, rest) ← element cs
      match skipLines rest with
      | ']' :: rest => return ([v], rest)
      | ',' :: rest =>
        let (vs, rest) ← arrayRest element fuel rest
        return (v :: vs, rest)
      | _ => none

/-- A key, an equals sign and a value. -/
def assignment (value : Reader Value) : Reader Assignment := fun cs => do
  let ((path, last), rest) ← key cs
  match rest with
  | '=' :: rest =>
    let (v, rest) ← value (skipBlanks rest)
    return (⟨path, last, v⟩, rest)
  | _ => none

/-- Assignments with commas between them, and the closing brace.  The number bounds the
assignments. -/
def inlineRest (value : Reader Value) : Nat → Reader (List Assignment)
  | 0, _ => none
  | fuel + 1, cs => do
    let (a, rest) ← assignment value cs
    match skipBlanks rest with
    | '}' :: rest => return ([a], rest)
    | ',' :: rest =>
      let (as, rest) ← inlineRest value fuel rest
      return (a :: as, rest)
    | _ => none

/-- A table that is written as a value, behind its opening brace. -/
def inlineTable (value : Reader Value) : Reader Value := fun cs =>
  match skipBlanks cs with
  | '}' :: rest => some (.table .inline [], rest)
  | cs => do
    let (assignments, rest) ← inlineRest value cs.length cs
    return (.table .inline (← Table.assign [] assignments), rest)

/-- A value without parts. -/
def simpleValue : Reader Value := fun cs =>
  match cs with
  | '\x22' :: _ | '\x27' :: _ => (string cs).map fun (s, rest) => (.scalar (.string s), rest)
  | _ => (scalar cs).map fun (s, rest) => (.scalar s, rest)

/-- A value.  The number bounds the nesting. -/
def value : Nat → Reader Value
  | 0 => simpleValue
  | depth + 1 => fun
    -- An element takes at least one character, so the text bounds their number.
    | '[' :: rest => do
      let (vs, rest) ← arrayRest (value depth) (rest.length + 1) rest
      return (.array vs, rest)
    | '{' :: rest => inlineTable (value depth) rest
    | cs => simpleValue cs

/-- The header of a section, with the end of its line. -/
def header : Reader Header
  | '[' :: '[' :: rest => do
    let ((path, last), rest) ← key rest
    match rest with
    | ']' :: ']' :: rest => return (.tables path last, ← lineEnd rest)
    | _ => none
  | '[' :: rest => do
    let ((path, last), rest) ← key rest
    match rest with
    | ']' :: rest => return (.table path last, ← lineEnd rest)
    | _ => none
  | _ => none

/-- The assignments up to the next header or the end of the document.  The number bounds their
count. -/
def assignments : Nat → Reader (List Assignment)
  | 0, _ => none
  | fuel + 1, cs =>
    match skipLines cs with
    | [] => some ([], [])
    | '[' :: rest => some ([], '[' :: rest)
    | cs => do
      let (a, rest) ← assignment (value maximumNesting) cs
      let (as, rest) ← assignments fuel (← lineEnd rest)
      return (a :: as, rest)

/-- The sections up to the end of the document.  The number bounds their count. -/
def sections : Nat → List Char → Option (List Section)
  | _, [] => some []
  | 0, _ => none
  | fuel + 1, cs => do
    let (h, rest) ← header cs
    let (as, rest) ← assignments (rest.length + 1) rest
    return ⟨h, as⟩ :: (← sections fuel rest)

/-- The table that a document describes.  A byte order mark may stand in front. -/
def Table.ofText? (text : String) : Option Table := do
  let cs := match text.toList with
    | '\uFEFF' :: rest => rest
    | cs => cs
  -- The assignments in front of the first header belong to the document itself.
  let (as, rest) ← assignments (cs.length + 1) cs
  Table.ofSections as (← sections rest.length rest)

end GameBoy.Toml
