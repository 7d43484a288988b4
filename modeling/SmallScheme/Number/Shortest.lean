import SmallScheme.Number.Decimal
/-!
# The shortest decimal that reads back

A double is written with the fewest digits that the reader turns back into the same double. For each
count of digits only the two decimals around the value need to be tried; of two that read back the
nearer one is taken, and from an exact half the even one. Every candidate is checked by reading it,
and where none of at most seventeen digits passes, the value is written out exactly.
-/

namespace SmallScheme

namespace Decimal

def trim (decimal : Decimal) : Decimal :=
  if _ : decimal.digits ≠ 0 ∧ decimal.digits % 10 = 0 then
    trim { decimal with digits := decimal.digits / 10, exponent := decimal.exponent + 1 }
  else decimal
termination_by decimal.digits
decreasing_by omega

/-- The power of ten at or just below a positive quotient. -/
def magnitude (numerator denominator : Nat) : Int :=
  if denominator ≤ numerator then (decimalDigits (numerator / denominator)).length - 1
  else
    let power := (decimalDigits (denominator / numerator)).length - 1
    if numerator * Nat.pow 10 power = denominator then -power else -(power + 1 : Nat)

/-- The decimal with the given last place that is nearest to a quotient among those that read back
as the given double, of the two neighbours on that grid. -/
def neighbour? (double : Double) (numerator denominator : Nat) (exponent : Int) : Option Decimal :=
  let (scaledNumerator, scaledDenominator) :=
    match exponent with
    | .ofNat power => (numerator, denominator * Nat.pow 10 power)
    | .negSucc power => (numerator * Nat.pow 10 (power + 1), denominator)
  let below := scaledNumerator / scaledDenominator
  let nearest := roundHalfEven scaledNumerator scaledDenominator
  let farther := if nearest = below then below + 1 else below
  [nearest, farther].findSome? fun digits =>
    let decimal : Decimal := { negative := false, digits, exponent }
    if decimal.toDouble = double then some decimal else none

/-- The shortest decimal that reads back as the positive double of the given magnitude. -/
def shortest (units : Nat) (representable : Double.Representable units) : Decimal :=
  let double : Double := .finite false units representable
  let top := magnitude units Double.one
  let found? := (List.range 17).findSome? fun (digits : Nat) =>
    neighbour? double units Double.one (top - digits)
  match found? with
  | some decimal => decimal.trim
  | none =>
    { negative := false, digits := units * Nat.pow 5 1074, exponent := -1074 : Decimal }.trim

end Decimal

end SmallScheme
