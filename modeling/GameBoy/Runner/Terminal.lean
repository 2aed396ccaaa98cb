import GameBoy.Numeral

/-!
# Text for terminals

A terminal takes some characters for commands: it rings, moves the cursor, changes colours.  The log
may end up on one, and the title of a cartridge and the path of an image may hold any character, so
the log writes such characters as escapes.  Line ends, tabs and the other control characters stand
for themselves.

Main statement: no character of an escaped text is a command (`not_isCommand_of_mem_escapeAll`).
-/

namespace GameBoy.Terminal

/-- Whether a character is a command of the 7-bit code: bell, backspace, form feed, escape, delete. -/
def isShortCommand (c : Char) : Bool :=
  c == '\x07' || c == '\x08' || c == '\x0c' || c == '\x1b' || c == '\x7f'

/-- Whether a character is a command of the 8-bit code. -/
def isLongCommand (c : Char) : Bool := 0x80 ≤ c.toNat && c.toNat ≤ 0x9F

/-- Whether a terminal may take a character for a command. -/
def isCommand (c : Char) : Bool := isShortCommand c || isLongCommand c

/-- The number of a command as two lower-case hexadecimal digits. -/
def commandDigits (c : Char) : List Char := (Numeral.hexDigits 2 c.toNat).map Char.toLower

/-- A character as the log writes it: a command by its number, all else as itself. -/
def escape (c : Char) : List Char :=
  if isShortCommand c then ['\\', 'x'] ++ commandDigits c
  else if isLongCommand c then ['\\', 'u', '{'] ++ commandDigits c ++ ['}']
  else [c]

/-- A text as the log writes it, character by character. -/
def escapeAll (cs : List Char) : List Char := cs.flatMap escape

/-- A text as the log writes it. -/
def escapeText (text : String) : String := String.ofList (escapeAll text.toList)

/-- The digits of an escape are no commands. -/
theorem not_isCommand_of_mem_commandDigits {c d : Char} (h : d ∈ commandDigits c) :
    isCommand d = false := by
  obtain ⟨e, he, rfl⟩ := List.mem_map.1 h
  obtain ⟨n, hn, rfl⟩ := Numeral.mem_hexDigits he
  have digits : ∀ n : Fin 16, isCommand (Numeral.digit n).toLower = false := by decide
  exact digits ⟨n, hn⟩

/-- No character that an escape consists of is a command. -/
theorem not_isCommand_of_mem_escape {c d : Char} (h : d ∈ escape c) : isCommand d = false := by
  have marks : ∀ m ∈ ['\\', 'x', 'u', '{', '}'], isCommand m = false := by
    simp [isCommand, isShortCommand, isLongCommand]
  have digits := fun m => @not_isCommand_of_mem_commandDigits c m
  simp only [escape] at h
  -- A short command, a long one, or a character that stands for itself.
  split at h
  · grind
  · split at h
    · grind
    · grind [isCommand]

/-- An escaped text commands nothing. -/
theorem not_isCommand_of_mem_escapeAll {cs : List Char} {d : Char} (h : d ∈ escapeAll cs) :
    isCommand d = false := by
  obtain ⟨c, _, hd⟩ := List.mem_flatMap.1 h
  exact not_isCommand_of_mem_escape hd

end GameBoy.Terminal
