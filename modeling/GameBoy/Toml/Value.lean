import GameBoy.Toml.Scalar

/-!
# TOML values and tables

A table maps keys to values.  How a table came about decides what may still be added to it, so each
table remembers its `Origin`.

A document is a list of sections: the assignments under one header.  `Table.ofSections` puts them
together and refuses a document that defines something twice.
-/

namespace GameBoy.Toml

/-- How a table came about. -/
inductive Origin where
  /-- It was only named on the way to another table, by a header. -/
  | implied
  /-- It was named by a dotted key. -/
  | dotted
  /-- It has a header of its own. -/
  | header
  /-- It was written as a value. -/
  | inline
  deriving DecidableEq

/-- Whether a path of keys may lead through a table.  Dotted keys lead only through tables that have
no definition of their own, headers through all but values. -/
def Origin.admits (origin path : Origin) : Bool :=
  match origin with
  | implied | dotted => true
  | header => path ≠ dotted
  | inline => false

/-- A value, which may have parts. -/
inductive Value where
  | scalar (s : Scalar)
  | array (elements : List Value)
  | table (origin : Origin) (entries : List (String × Value))
  /-- A list of tables that share a header; the last one is still open. -/
  | tables (closed : List (List (String × Value))) (last : List (String × Value))

/-- The entries of a table, in the order in which they were written. -/
abbrev Table := List (String × Value)

namespace Table

/-- The value of a key. -/
def get? (t : Table) (key : String) : Option Value := t.lookup key

/-- Changes the value of a key, or adds the key if it is missing.  The change may fail. -/
def alter (key : String) (f : Option Value → Option Value) : Table → Option Table
  | [] => do return [(key, ← f none)]
  | (k, v) :: rest =>
    if k = key then do return (k, ← f (some v)) :: rest
    else do return (k, v) :: (← alter key f rest)

/-- Adds a key that is not there yet. -/
def add? (key : String) (value : Value) (t : Table) : Option Table :=
  t.alter key fun
    | none => some value
    | some _ => none

/-- Changes the table that a path of keys leads to.  Missing tables on the way are made, with the
given origin. -/
def modify (made : Origin) (f : Origin → Table → Option Table) :
    List String → Origin → Table → Option Table
  | [], origin, t => f origin t
  | key :: path, _, t =>
    t.alter key fun
      | none => .table made <$> modify made f path made []
      | some (.table origin entries) =>
        if origin.admits made then .table origin <$> modify made f path origin entries else none
      | some (.tables closed last) => .tables closed <$> modify made f path .header last
      | some _ => none

end Table

/-- What stands left and right of an equals sign: a key, the keys in front of its dots, a value. -/
structure Assignment where
  path : List String
  key : String
  value : Value

/-- Performs an assignment.  A key without dots goes into the table itself, and a key with dots into a
table that dotted keys have made. -/
def Assignment.apply (a : Assignment) (t : Table) : Option Table :=
  t.modify .dotted (fun origin inner =>
    if a.path.isEmpty || origin = .dotted then inner.add? a.key a.value else none) a.path .header

/-- Performs assignments in order; one that fails makes the document fail. -/
def Table.assign (t : Table) (assignments : List Assignment) : Option Table :=
  assignments.foldlM (fun t a => a.apply t) t

/-- Where the assignments of a section go. -/
inductive Header where
  | table (path : List String) (key : String)
  | tables (path : List String) (key : String)

/-- A header with the assignments under it. -/
structure Section where
  header : Header
  assignments : List Assignment

/-- Adds a section to a document.  A table gets a header once; a list of tables grows with each. -/
def Section.apply (s : Section) (t : Table) : Option Table :=
  match s.header with
  | .table path key =>
    t.modify .implied (fun _ inner => inner.alter key fun
      | none => .table .header <$> Table.assign [] s.assignments
      -- A table that was only named on the way may still get its own header.
      | some (.table .implied entries) => .table .header <$> Table.assign entries s.assignments
      | some _ => none) path .header
  | .tables path key =>
    t.modify .implied (fun _ inner => inner.alter key fun
      | none => .tables [] <$> Table.assign [] s.assignments
      | some (.tables closed last) => .tables (closed ++ [last]) <$> Table.assign [] s.assignments
      | some _ => none) path .header

/-- The document that starts with some assignments and goes on with sections. -/
def Table.ofSections (assignments : List Assignment) (sections : List Section) : Option Table := do
  sections.foldlM (fun t s => s.apply t) (← Table.assign [] assignments)

end GameBoy.Toml
