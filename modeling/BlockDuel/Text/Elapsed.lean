/-!
Spans of time in text: in the largest of seconds, milliseconds, microseconds and nanoseconds of which
the span has at least one, with as many decimal places as the span needs.
-/
namespace BlockDuel.Text

abbrev Nanos := Nat

def Nanos.ofMillis (ms : Nat) : Nanos := ms * 1000000

/-- The digits of `n` as `width` decimal places without the zeros at their end. -/
def places (width n : Nat) : String :=
  let ds := (Nat.toDigits 10 n).leftpad width '0'
  let kept := (ds.reverse.dropWhile (· == '0')).reverse
  if kept.isEmpty then "" else String.ofList ('.' :: kept)

/-- A span in units of `size` nanoseconds, which is a one with `width` zeros. -/
def inUnits (size width : Nat) (unit : String) (n : Nanos) : String :=
  toString (n / size) ++ places width (n % size) ++ unit

def elapsed (n : Nanos) : String :=
  if n ≥ 1000000000 then inUnits 1000000000 9 "s" n
  else if n ≥ 1000000 then inUnits 1000000 6 "ms" n
  else if n ≥ 1000 then inUnits 1000 3 "µs" n
  else toString n ++ "ns"

end BlockDuel.Text
