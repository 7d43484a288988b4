import SmallScheme.Machine
/-!
# Quotation

The value that a piece of syntax denotes when it is quoted: symbols become quoted symbols, forms
become lists, and literals stand for themselves.
-/

namespace SmallScheme

namespace Machine

mutual

/-- The value of a quoted datum. The limit counts the forms inside one another, not the calls that a
host makes for each. -/
def quoteDatum (limit : Nat) : Datum → Machine Datum
  | .form _ items =>
    if limit = 0 then throw .tooDeep
    else do
      let quoted ← quoteItems (limit - 1) items
      listOf quoted .empty
  | .symbol name => return .quoted name
  | .int value => do
    return .num (← numberOfInteger value)
  | datum@(.num _) | datum@(.bool _) | datum@(.str _) | datum@(.quoted _) | datum@.empty =>
    return datum
  | datum => failDiagnosing limit datum (.notQuotable datum)

def quoteItems (limit : Nat) : List Datum → Machine (List Datum)
  | [] => return []
  | item :: rest => do
    let quoted ← quoteDatum limit item
    let quotedRest ← quoteItems limit rest
    return quoted :: quotedRest

end

end Machine

end SmallScheme
