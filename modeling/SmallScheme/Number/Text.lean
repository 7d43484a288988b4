import SmallScheme.Number.Shortest
/-!
# The text of a double

Two ways to write a double. The plain text keeps it recognisable as a double: `1.0`, `-0.0`,
`1e+16`. The source text is what the language itself prints: a whole number by its exact digits,
anything else as in the plain text.
-/

namespace SmallScheme

structure NumberLayout where
  leastPositional : Int
  firstExponential : Int
  exponentDigits : Nat
  /-- Whether a number without a fraction gets one. -/
  pointZero : Bool

/-- Numbers from `0.0001` up to below `10000000000000000` are written without an exponent, whole
ones with a fraction of zero; the others have an exponent of at least two digits. -/
def plainLayout : NumberLayout :=
  { leastPositional := -4, firstExponential := 16, exponentDigits := 2, pointZero := true }

namespace NumberLayout

def exponentText (layout : NumberLayout) (exponent : Int) : List Char :=
  let digits := decimalDigits exponent.natAbs
  let padding := List.replicate (layout.exponentDigits - digits.length) '0'
  'e' :: (if exponent < 0 then '-' else '+') :: (padding ++ digits)

def decimalText (layout : NumberLayout) (decimal : Decimal) : List Char :=
  let digits := decimalDigits decimal.digits
  let point : Int := digits.length + decimal.exponent
  let power := point - 1
  if layout.leastPositional ≤ power ∧ power < layout.firstExponential then
    if point ≤ 0 then '0' :: '.' :: (List.replicate (-point).toNat '0' ++ digits)
    else if digits.length ≤ point.toNat then
      digits ++ List.replicate (point.toNat - digits.length) '0' ++
        (if layout.pointZero then ['.', '0'] else [])
    else digits.take point.toNat ++ '.' :: digits.drop point.toNat
  else
    match digits with
    | [] => []
    | [digit] => digit :: layout.exponentText power
    | digit :: rest => digit :: '.' :: (rest ++ layout.exponentText power)

/-- A finite magnitude, laid out with the fewest digits that read back. -/
def magnitudeText (layout : NumberLayout) (units : Nat)
    (representable : Double.Representable units) : List Char :=
  if units = 0 then if layout.pointZero then ['0', '.', '0'] else ['0']
  else layout.decimalText (Decimal.shortest units representable)

end NumberLayout

namespace Double

def withSign (negative : Bool) (text : List Char) : List Char :=
  if negative then '-' :: text else text

def chars : Double → List Char
  | .nan => ['n', 'a', 'n']
  | .infinite negative => withSign negative ['i', 'n', 'f']
  | .finite negative units representable =>
    withSign negative (plainLayout.magnitudeText units representable)

/-- The text of a double in the language's own output: exact digits for a whole number. -/
def sourceChars (number : Double) : List Char :=
  match number.integer? with
  | some value => integerDigits value
  | none => number.chars

def text (number : Double) : String := String.ofList number.chars

/-- The double that a plain text means, the names of infinity and of no number included. -/
def ofText? (text : String) : Option Double :=
  match text with
  | "nan" => some .nan
  | "inf" => some (.infinite false)
  | "-inf" => some (.infinite true)
  | text => (Decimal.parse? text.toList).map Decimal.toDouble

end Double

end SmallScheme
