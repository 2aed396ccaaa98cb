/-!
# Numerals

Log lines and register dumps write bytes and words as upper-case hexadecimal numerals of a fixed
width, bank registers in binary, and align mnemonics to the right.  Arguments and log filters are
read as decimal numerals, which may have zeros and one plus sign in front.
-/

namespace GameBoy.Numeral

/-- The upper-case digit of a value below 16. -/
def digit (n : Nat) : Char :=
  if n < 10 then Char.ofNat (48 + n) else Char.ofNat (55 + n)

/-- The `width` lowest hexadecimal digits of a number, most significant first. -/
def hexDigits : Nat → Nat → List Char
  | 0, _ => []
  | width + 1, n => hexDigits width (n / 16) ++ [digit (n % 16)]

/-- A numeral has as many digits as it is wide. -/
@[simp] theorem length_hexDigits (width n : Nat) : (hexDigits width n).length = width := by
  induction width generalizing n with
  | zero => rfl
  | succ width ih => simp [hexDigits, ih]

/-- A numeral consists of digits. -/
theorem mem_hexDigits {width n : Nat} {c : Char} (h : c ∈ hexDigits width n) :
    ∃ d < 16, c = digit d := by
  induction width generalizing n with
  | zero => simp [hexDigits] at h
  | succ width ih =>
    rcases List.mem_append.1 h with h | h
    · exact ih h
    · exact ⟨n % 16, Nat.mod_lt n (by decide), List.mem_singleton.1 h⟩

/-- A byte as two hexadecimal digits. -/
def hexByte (b : UInt8) : String := String.ofList (hexDigits 2 b.toNat)

/-- A word as four hexadecimal digits. -/
def hexWord (w : UInt16) : String := String.ofList (hexDigits 4 w.toNat)

/-- Widens a text to at least `width` characters by putting copies of `fill` in front. -/
def padLeft (width : Nat) (fill : Char) (text : String) : String :=
  String.ofList (List.replicate (width - text.length) fill) ++ text

/-- A number in binary, with leading zeros up to `width` digits. -/
def binary (width n : Nat) : String :=
  padLeft width '0' (String.ofList (Nat.toDigits 2 n))

/-- The number that decimal digits write; there has to be one at least. -/
def decimal? (digits : List Char) : Option Nat :=
  if digits.isEmpty || !digits.all Char.isDigit then none
  else some (digits.foldl (fun n c => 10 * n + (c.toNat - 48)) 0)

/-- A number below a limit, in decimal digits with an optional plus sign. -/
def bounded? (limit : Nat) (text : String) : Option Nat := do
  let n ← decimal? (match text.toList with
    | '+' :: digits => digits
    | digits => digits)
  if n < limit then return n else none

end GameBoy.Numeral
