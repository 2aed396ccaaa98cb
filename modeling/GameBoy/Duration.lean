/-!
# Durations

Emulated time is counted in nanoseconds.  Reports write a duration in the largest unit in which it
is at least one, with as many decimals as it needs.
-/

namespace GameBoy

/-- A span of emulated time. -/
structure Duration where
  nanoseconds : Nat
  deriving DecidableEq

namespace Duration

/-- The unit in which emulated time is counted. -/
def nanosecondsPerSecond : Nat := 1000000000

/-- The span of some seconds and nanoseconds. -/
def ofSeconds (seconds nanoseconds : Nat) : Duration :=
  ⟨seconds * nanosecondsPerSecond + nanoseconds⟩

/-- `n / 10 ^ places` as a decimal fraction without trailing zeros. -/
def decimal (n places : Nat) : String :=
  let unit := Nat.pow 10 places
  let digits := toString (n % unit)
  -- The fraction keeps its leading zeros and loses its trailing ones.
  let fraction := List.replicate (places - digits.length) '0' ++ digits.toList
  let significant := (fraction.reverse.dropWhile (· == '0')).reverse
  let whole := toString (n / unit)
  if significant.isEmpty then whole else whole ++ "." ++ String.ofList significant

/-- A duration with its unit. -/
def text (d : Duration) : String :=
  let n := d.nanoseconds
  if n ≥ nanosecondsPerSecond then decimal n 9 ++ "s"
  else if n ≥ 1000000 then decimal n 6 ++ "ms"
  else if n ≥ 1000 then decimal n 3 ++ "µs"
  else decimal n 0 ++ "ns"

end Duration

end GameBoy
