import SmallScheme.Number.Double
import SmallScheme.Text.DecimalDigit
/-!
# Decimal numbers and their written form

A decimal is a whole number of some power of ten. Here are the digits of a natural number, the
grammar in which the language writes its numbers, and the double nearest to a decimal.
-/

namespace SmallScheme

/-- The number `digits * 10 ^ exponent`, negated if `negative`. -/
structure Decimal where
  negative : Bool
  digits : Nat
  exponent : Int
  deriving DecidableEq, Repr

def decimalDigits (value : Nat) : List Char :=
  if value < 10 then [digitChar value]
  else decimalDigits (value / 10) ++ [digitChar (value % 10)]

def integerDigits (value : Int) : List Char :=
  if value < 0 then '-' :: decimalDigits value.natAbs else decimalDigits value.natAbs

def digitsValue (digits : List Char) : Nat :=
  digits.foldl (fun value char => 10 * value + (decimalDigit? char).getD 0) 0

theorem digitsValue_append_singleton (digits : List Char) (digit : Char) :
    digitsValue (digits ++ [digit]) = 10 * digitsValue digits + (decimalDigit? digit).getD 0 := by
  simp [digitsValue]

/-- Digits are read back as the number they were written for. -/
theorem digitsValue_decimalDigits (value : Nat) : digitsValue (decimalDigits value) = value := by
  fun_induction decimalDigits value with
  | case1 value small =>
    simp [digitsValue, decimalDigit?_digitChar value small]
  | case2 value large hypothesis =>
    rw [digitsValue_append_singleton, hypothesis,
      decimalDigit?_digitChar (value % 10) (Nat.mod_lt value (by decide))]
    simp only [Option.getD_some]
    omega

namespace Decimal

/-- The double nearest to a decimal. Far outside the range of doubles, where no power of ten need be
formed, the answer is known from the exponent. -/
def toDouble (decimal : Decimal) : Double :=
  if decimal.digits = 0 then .zero decimal.negative
  else if 400 < decimal.exponent then .infinite decimal.negative
  else if decimal.exponent + decimal.digits.log2 < -400 then .zero decimal.negative
  else
    match decimal.exponent with
    | .ofNat power =>
      .ofRatio decimal.negative (decimal.digits * Nat.pow 10 power * Double.one) 1
    | .negSucc power =>
      .ofRatio decimal.negative (decimal.digits * Double.one) (Nat.pow 10 (power + 1))

def splitSign : List Char → Bool × List Char
  | '-' :: rest => (true, rest)
  | '+' :: rest => (false, rest)
  | text => (false, text)

/-- The exponent part of a number: nothing, or a mark, an optional sign and digits. -/
def parseExponent? : List Char → Option Int
  | [] => some 0
  | mark :: rest =>
    if mark = 'e' ∨ mark = 'E' then
      let (negative, digits) := splitSign rest
      if digits.isEmpty || !digits.all isDecimalDigit then none
      else some (if negative then -(digitsValue digits : Int) else digitsValue digits)
    else none

/-- Read a number: an optional sign, digits with at most one point among or beside them, and an
optional exponent, with nothing before or after. -/
def parse? (text : List Char) : Option Decimal :=
  let (negative, unsigned) := splitSign text
  let whole := unsigned.takeWhile isDecimalDigit
  let (fraction, tail) :=
    match unsigned.dropWhile isDecimalDigit with
    | '.' :: rest => (rest.takeWhile isDecimalDigit, rest.dropWhile isDecimalDigit)
    | rest => ([], rest)
  if whole.isEmpty && fraction.isEmpty then none
  else
    (parseExponent? tail).map fun exponent =>
      { negative
        digits := digitsValue (whole ++ fraction)
        exponent := exponent - fraction.length }

end Decimal

end SmallScheme
