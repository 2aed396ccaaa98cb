import GameBoy.Toml.Text

/-!
# Numbers, truth values and dates

Every value that is no string, array or table is written as one word without blanks, except that a
blank may stand between a date and a time.  `Scalar.ofWord` reads such a word.
-/

namespace GameBoy.Toml

/-- A value without parts.  Of fractional numbers and dates only their form is checked. -/
inductive Scalar where
  | string (text : String)
  | integer (n : Int)
  | boolean (b : Bool)
  | float
  | moment
  deriving DecidableEq

/-- Whether a character is a decimal digit. -/
def isDigit (c : Char) : Bool := '0' ≤ c && c ≤ '9'

/-- Removes the underscores of a numeral.  Each has to stand between two digits. -/
def ungroup (digit : Char → Bool) : List Char → Option (List Char)
  | [] => none
  | [c] => if digit c then some [c] else none
  | c :: '_' :: rest => do if digit c then return c :: (← ungroup digit rest) else none
  | c :: rest => do if digit c then return c :: (← ungroup digit rest) else none

/-- The number that digits write in a base. -/
def ofDigits (base : Nat) (digits : List Char) : Nat :=
  digits.foldl (fun n c => base * n + (hexDigit? c).getD 0) 0

/-- Splits a sign off the front: whether it is a minus, and the rest. -/
def splitSign : List Char → Bool × List Char
  | '-' :: rest => (true, rest)
  | '+' :: rest => (false, rest)
  | cs => (false, cs)

/-- The digits of a decimal numeral.  A numeral of several digits does not start with zero. -/
def decimalDigits (cs : List Char) : Option (List Char) := do
  let digits ← ungroup isDigit cs
  if digits.length > 1 && digits.head? == some '0' then none else return digits

/-- A whole number that fits into 64 bits with a sign. -/
def boundedInteger (n : Int) : Option Scalar :=
  if -0x8000000000000000 ≤ n && n < 0x8000000000000000 then some (.integer n) else none

/-- A whole number: in decimal with an optional sign, or in base 16, 8 or 2 without. -/
def integer? (cs : List Char) : Option Scalar :=
  match cs with
  | '0' :: 'x' :: rest => based 16 (fun c => (hexDigit? c).isSome) rest
  | '0' :: 'o' :: rest => based 8 (fun c => '0' ≤ c && c ≤ '7') rest
  | '0' :: 'b' :: rest => based 2 (fun c => c == '0' || c == '1') rest
  | _ => do
    let (negative, digits) := splitSign cs
    let n : Int := ofDigits 10 (← decimalDigits digits)
    boundedInteger (if negative then -n else n)
where
  based (base : Nat) (digit : Char → Bool) (cs : List Char) : Option Scalar := do
    boundedInteger (ofDigits base (← ungroup digit cs))

/-- Whether `digits * 10 ^ exponent` rounds to infinity in double precision, which is so from the
middle between the largest finite number and the next power of two on. -/
def roundsToInfinity (digits : List Char) (exponent : Int) : Bool :=
  let significant := digits.dropWhile (· == '0')
  let n := ofDigits 10 significant
  -- Far from the limit the number of digits decides, and no large power is computed.
  if significant.isEmpty || significant.length + exponent < 300 then false
  else if significant.length + exponent > 310 then true
  else
    let limit := Nat.pow 2 1024 - Nat.pow 2 970
    if exponent ≥ 0 then n * Nat.pow 10 exponent.toNat ≥ limit
    else n ≥ limit * Nat.pow 10 (-exponent).toNat

/-- A fractional number: a decimal numeral with a fraction, an exponent or both, or the name of a
special value.  A positive number has to be finite. -/
def float? (cs : List Char) : Option Scalar := do
  let (negative, cs) := splitSign cs
  if cs == ['i', 'n', 'f'] || cs == ['n', 'a', 'n'] then
    return .float
  let isExponent (c : Char) : Bool := c == 'e' || c == 'E'
  let mantissa := cs.takeWhile (!isExponent ·)
  let exponent ← readExponent (cs.dropWhile (!isExponent ·))
  let whole ← decimalDigits (mantissa.takeWhile (· ≠ '.'))
  let fraction ← readFraction (mantissa.dropWhile (· ≠ '.'))
  if exponent.isNone && fraction.isNone then
    none
  else
    let fraction := fraction.getD []
    -- The point is moved behind the last digit of the fraction.
    let exponent := exponent.getD 0 - fraction.length
    if !negative && roundsToInfinity (whole ++ fraction) exponent then none else return .float
where
  readExponent : List Char → Option (Option Int)
    | [] => some none
    | _ :: rest => do
      let (negative, digits) := splitSign rest
      let n : Int := ofDigits 10 (← ungroup isDigit digits)
      return some (if negative then -n else n)
  readFraction : List Char → Option (Option (List Char))
    | [] => some none
    | _ :: rest => some <$> ungroup isDigit rest

/-! ## Dates and times -/

/-- A number of exactly `width` digits. -/
def fixedNumber (width : Nat) (cs : List Char) : Option (Nat × List Char) :=
  let digits := cs.take width
  if digits.length = width && digits.all isDigit then some (ofDigits 10 digits, cs.drop width)
  else none

/-- Takes one character off the front. -/
def expectChar (c : Char) : List Char → Option (List Char)
  | d :: rest => if c == d then some rest else none
  | [] => none

/-- Whether a year of the Gregorian calendar has a leap day. -/
def isLeapYear (year : Nat) : Bool := year % 4 == 0 && (year % 100 != 0 || year % 400 == 0)

/-- The number of days in a month. -/
def daysInMonth (year month : Nat) : Nat :=
  if month == 2 then (if isLeapYear year then 29 else 28)
  else if month == 4 || month == 6 || month == 9 || month == 11 then 30
  else 31

/-- Takes a date off the front. -/
def takeDate (cs : List Char) : Option (List Char) := do
  let (year, cs) ← fixedNumber 4 cs
  let (month, cs) ← fixedNumber 2 (← expectChar '-' cs)
  let (day, cs) ← fixedNumber 2 (← expectChar '-' cs)
  if 1 ≤ month && month ≤ 12 && 1 ≤ day && day ≤ daysInMonth year month then return cs else none

/-- Takes a time of day off the front; the seconds may have decimals. -/
def takeTime (cs : List Char) : Option (List Char) := do
  let (hour, cs) ← fixedNumber 2 cs
  let (minute, cs) ← fixedNumber 2 (← expectChar ':' cs)
  let (second, cs) ← fixedNumber 2 (← expectChar ':' cs)
  -- A minute may have a leap second.
  if hour ≤ 23 && minute ≤ 59 && second ≤ 60 then
    match cs with
    | '.' :: d :: rest => if isDigit d then return rest.dropWhile isDigit else none
    | cs => return cs
  else none

/-- Whether the text is nothing or an offset from universal time. -/
def isOffset (cs : List Char) : Bool :=
  match cs with
  | [] | ['Z'] | ['z'] => true
  | sign :: rest =>
    (sign == '+' || sign == '-') &&
      match fixedNumber 2 rest with
      | some (hour, ':' :: rest) =>
        match fixedNumber 2 rest with
        | some (minute, []) => hour ≤ 23 && minute ≤ 59
        | _ => false
      | _ => false

/-- Whether a text is a time of day, perhaps with an offset. -/
def isTimeOfDay (cs : List Char) : Bool :=
  match takeTime cs with
  | some rest => isOffset rest
  | none => false

/-- Whether a text is a date and nothing else. -/
def isDate (cs : List Char) : Bool := takeDate cs == some []

/-- A date, a date and a time joined by the letter T, or a time of day. -/
def moment? (cs : List Char) : Option Scalar :=
  match takeDate cs with
  | some [] => some .moment
  | some (c :: rest) => if (c == 'T' || c == 't') && isTimeOfDay rest then some .moment else none
  | none => if takeTime cs == some [] then some .moment else none

/-- The value that a word writes. -/
def Scalar.ofWord (cs : List Char) : Option Scalar :=
  if cs == "true".toList then some (.boolean true)
  else if cs == "false".toList then some (.boolean false)
  -- A date is tried before a number, which it starts like.
  else (moment? cs).orElse fun _ => (float? cs).orElse fun _ => integer? cs

/-- Whether a character may stand in a word. -/
def isWordChar (c : Char) : Bool :=
  isDigit c || ('A' ≤ c && c ≤ 'Z') || ('a' ≤ c && c ≤ 'z') ||
    c == '_' || c == '-' || c == '+' || c == '.' || c == ':'

/-- Reads a word as a value.  A date is joined with the time of day that follows after one blank. -/
def scalar : Reader Scalar := fun cs =>
  let word := cs.takeWhile isWordChar
  let rest := cs.dropWhile isWordChar
  match rest with
  | ' ' :: d :: after =>
    if isDate word && isDigit d then
      -- A digit after the blank has to begin a time of day.
      let time := (d :: after).takeWhile isWordChar
      if isTimeOfDay time then some (.moment, (d :: after).dropWhile isWordChar) else none
    else (Scalar.ofWord word).map (·, rest)
  | _ => (Scalar.ofWord word).map (·, rest)

end GameBoy.Toml
