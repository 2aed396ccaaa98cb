/-!
# The text of TOML documents

White space, comments, line ends and strings, as functions on the characters that are left.  Each
takes what it recognises off the front and returns the rest, or fails.

Lines end with a line feed, which a carriage return may precede; a carriage return anywhere else is
an error.  Control characters other than the tab stand nowhere.
-/

namespace GameBoy.Toml

/-- A recogniser: what was read off the front, and the rest. -/
abbrev Reader (α : Type) := List Char → Option (α × List Char)

/-- Whether a character is white space within a line. -/
def isBlank (c : Char) : Bool := c == ' ' || c == '\t'

/-- Whether a character may stand in a comment or a literal string. -/
def isPrintable (c : Char) : Bool := c == '\t' || (' ' ≤ c && c ≠ '\x7f')

/-- Drops the blanks in front. -/
def skipBlanks (cs : List Char) : List Char := cs.dropWhile isBlank

/-- Takes a line end off the front. -/
def newline : List Char → Option (List Char)
  | '\n' :: rest => some rest
  | '\r' :: '\n' :: rest => some rest
  | _ => none

/-- Drops a comment, if there is one, up to the end of its line. -/
def skipComment : List Char → List Char
  | '#' :: rest => rest.dropWhile isPrintable
  | cs => cs

/-- The end of a line after a key or a table header: blanks, perhaps a comment, and a line end or the
end of the document. -/
def lineEnd (cs : List Char) : Option (List Char) :=
  match skipComment (skipBlanks cs) with
  | [] => some []
  | rest => newline rest

/-- Drops blanks, comments and line ends. -/
def skipLines (cs : List Char) : List Char :=
  go cs.length cs
where
  go : Nat → List Char → List Char
    | 0, cs => cs
    | fuel + 1, cs =>
      let rest := skipComment (skipBlanks cs)
      match newline rest with
      | some rest => go fuel rest
      | none => rest

/-! ## Strings -/

/-- The value of a hexadecimal digit. -/
def hexDigit? (c : Char) : Option Nat :=
  if '0' ≤ c && c ≤ '9' then some (c.toNat - 48)
  else if 'A' ≤ c && c ≤ 'F' then some (c.toNat - 55)
  else if 'a' ≤ c && c ≤ 'f' then some (c.toNat - 87)
  else none

/-- The character with the number that some hexadecimal digits write. -/
def charOfHex (digits : List Char) : Option Char := do
  let n ← digits.foldlM (fun n c => (16 * n + ·) <$> hexDigit? c) 0
  if h : n.isValidChar then some (Char.ofNatAux n h) else none

/-- The character that stands for the escape letter after a backslash. -/
def simpleEscape : Char → Option Char
  | 'b' => some '\x08'
  | 't' => some '\t'
  | 'n' => some '\n'
  | 'f' => some '\x0c'
  | 'r' => some '\r'
  | '\x22' => some '\x22'
  | '\\' => some '\\'
  | _ => none

/-- Puts a character in front of what is read next. -/
def consTo (c : Char) (read : Option (List Char × List Char)) : Option (List Char × List Char) :=
  read.map fun (text, rest) => (c :: text, rest)

/-- The rest of a string in double quotes, up to its end on the same line. -/
def basicString : Reader (List Char)
  | [] => none
  | '\x22' :: rest => some ([], rest)
  | '\\' :: 'u' :: a :: b :: c :: d :: rest => do
    consTo (← charOfHex [a, b, c, d]) (basicString rest)
  | '\\' :: 'U' :: a :: b :: c :: d :: e :: f :: g :: h :: rest => do
    consTo (← charOfHex [a, b, c, d, e, f, g, h]) (basicString rest)
  | '\\' :: c :: rest => do consTo (← simpleEscape c) (basicString rest)
  | c :: rest => if isPrintable c && c ≠ '\\' then consTo c (basicString rest) else none

/-- The rest of a string in single quotes, which knows no escapes. -/
def literalString : Reader (List Char)
  | [] => none
  | '\x27' :: rest => some ([], rest)
  | c :: rest => if isPrintable c then consTo c (literalString rest) else none

/-- How a multi-line string goes on. -/
inductive LineMode where
  | text
  /-- After a backslash and blanks: a line end has to come. -/
  | beforeLineEnd
  /-- After an escaped line end: blanks and line ends are dropped. -/
  | afterLineEnd
  deriving DecidableEq

/-- The rest of a string in three double quotes.  Up to two quotes may stand before the closing
ones. -/
def multilineBasic : LineMode → Reader (List Char)
  | _, [] => none
  | .beforeLineEnd, '\n' :: rest => multilineBasic .afterLineEnd rest
  | .beforeLineEnd, '\r' :: '\n' :: rest => multilineBasic .afterLineEnd rest
  | .beforeLineEnd, c :: rest => if isBlank c then multilineBasic .beforeLineEnd rest else none
  | .afterLineEnd, '\n' :: rest => multilineBasic .afterLineEnd rest
  -- A carriage return that belongs to a line end is dropped.
  | mode, '\r' :: '\n' :: rest =>
    if mode = .afterLineEnd then multilineBasic .afterLineEnd rest
    else consTo '\n' (multilineBasic .text rest)
  -- The longest run of quotes goes first, so that those in front of the last three are text.
  | _, '\x22' :: '\x22' :: '\x22' :: '\x22' :: '\x22' :: rest => some (['\x22', '\x22'], rest)
  | _, '\x22' :: '\x22' :: '\x22' :: '\x22' :: rest => some (['\x22'], rest)
  | _, '\x22' :: '\x22' :: '\x22' :: rest => some ([], rest)
  | _, '\\' :: 'u' :: a :: b :: c :: d :: rest => do
    consTo (← charOfHex [a, b, c, d]) (multilineBasic .text rest)
  | _, '\\' :: 'U' :: a :: b :: c :: d :: e :: f :: g :: h :: rest => do
    consTo (← charOfHex [a, b, c, d, e, f, g, h]) (multilineBasic .text rest)
  | _, '\\' :: c :: rest =>
    if c == '\n' then multilineBasic .afterLineEnd rest
    else if isBlank c || c == '\r' then multilineBasic .beforeLineEnd (c :: rest)
    else do consTo (← simpleEscape c) (multilineBasic .text rest)
  | mode, c :: rest =>
    if mode = .afterLineEnd && isBlank c then multilineBasic .afterLineEnd rest
    else if c == '\n' || (isPrintable c && c ≠ '\\') then consTo c (multilineBasic .text rest)
    else none

/-- The rest of a string in three single quotes. -/
def multilineLiteral : Reader (List Char)
  | [] => none
  | '\x27' :: '\x27' :: '\x27' :: '\x27' :: '\x27' :: rest => some (['\x27', '\x27'], rest)
  | '\x27' :: '\x27' :: '\x27' :: '\x27' :: rest => some (['\x27'], rest)
  | '\x27' :: '\x27' :: '\x27' :: rest => some ([], rest)
  | '\r' :: '\n' :: rest => consTo '\n' (multilineLiteral rest)
  | c :: rest => if c == '\n' || isPrintable c then consTo c (multilineLiteral rest) else none

/-- The text after an opening delimiter of a multi-line string: a line end right after it does not
count. -/
def afterOpening (cs : List Char) : List Char := (newline cs).getD cs

/-- A string on one line, in quotes of either kind. -/
def lineString : Reader String
  | '\x22' :: rest => (basicString rest).map fun (s, rest) => (String.ofList s, rest)
  | '\x27' :: rest => (literalString rest).map fun (s, rest) => (String.ofList s, rest)
  | _ => none

/-- A string in quotes of any kind. -/
def string : Reader String
  -- Three quotes are looked for first, or they would be an empty string and a stray quote.
  | '\x22' :: '\x22' :: '\x22' :: rest =>
    (multilineBasic .text (afterOpening rest)).map fun (s, rest) => (String.ofList s, rest)
  | '\x27' :: '\x27' :: '\x27' :: rest =>
    (multilineLiteral (afterOpening rest)).map fun (s, rest) => (String.ofList s, rest)
  | cs => lineString cs

end GameBoy.Toml
