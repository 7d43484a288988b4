import SmallScheme.Datum.Basic
import SmallScheme.Number.Decimal
/-!
# Atoms

A token that is a run of characters means a boolean, a number, or else the symbol of its name.
-/

namespace SmallScheme

def booleanOf? (text : String) : Option Bool :=
  if text = "#t" ∨ text = "#true" then some true
  else if text = "#f" ∨ text = "#false" then some false
  else none

/-- The datum that a run of characters means. -/
def Datum.ofAtom (text : String) : Datum :=
  match booleanOf? text with
  | some value => .bool value
  | none =>
    match Decimal.parse? text.toList with
    | some decimal => .num decimal.toDouble
    | none => .symbol text

end SmallScheme
