import SmallScheme.Fault
/-!
# Conditionals with clauses

A conditional with clauses stands for nested conditionals with one test each. The clauses are
checked from the last to the first, so of several defects the last one is reported.
-/

namespace SmallScheme

/-- The symbol that stands in place of a test in a last clause without one. -/
def elseName : String := "else"

/-- The conditional that stands for a clause of the given number, with an alternative for when its
test fails. A clause that is no list is shown in a diagnostic if it is nested no deeper than the
limit. -/
def expandClause (limit number : Nat) (isLast : Bool) (alternative : Datum) :
    Datum → Except Interrupt Datum
  | .form _ (_ :: []) => .error (.fault (.clauseWithoutBody number))
  | .form _ (.symbol name :: body) =>
    if name ≠ elseName then
      .ok (.form none [.keyword .branch, .symbol name, .ofBody body, alternative])
    else if isLast then .ok (.ofBody body)
    else .error (.fault .elseNotLast)
  | .form _ (test :: body) =>
    .ok (.form none [.keyword .branch, test, .ofBody body, alternative])
  | clause =>
    if clause.isTooDeepToDiagnose limit then .error .tooDeep
    else .error (.fault (.clauseNotList clause))

def expandClauses (limit : Nat) : Nat → List Datum → Except Interrupt Datum
  | _, [] => .ok .unspecified
  | number, clause :: rest => do
    let alternative ← expandClauses limit (number + 1) rest
    expandClause limit number rest.isEmpty alternative clause

def expandConditional (limit : Nat) (clauses : List Datum) : Except Interrupt Datum :=
  expandClauses limit 1 clauses

end SmallScheme
