import SmallScheme.Datum.Equality
import SmallScheme.Evaluator.Context
/-!
# Built-in procedures

What each built-in procedure does with its evaluated arguments. A wrong count of arguments is found
before anything else; arithmetic and comparison then need every argument to be a number before they
compute anything.
-/

namespace SmallScheme

def neighboursRelated (relation : Double → Double → Bool) : List Double → Bool
  | left :: right :: rest => relation left right && neighboursRelated relation (right :: rest)
  | _ => true

namespace Machine

/-- The number that an argument is; the context is named where it is none. -/
def toNumber (limit : Nat) (context : String) : Datum → Machine Double
  | .num value => return value
  | .int value => numberOfInteger value
  | datum => failDiagnosing limit datum (.notNumber context datum)

def toNumbers (limit : Nat) (procedure : Builtin) (arguments : List Datum) :
    Machine (List Double) :=
  arguments.mapM (toNumber limit procedure.name)

def compareNumbers (limit : Nat) (procedure : Builtin) (relation : Double → Double → Bool)
    (arguments : List Datum) : Machine Datum := do
  let numbers ← toNumbers limit procedure arguments
  return .bool (neighboursRelated relation numbers)

def addition (context : Context) (arguments : List Datum) : Machine Datum := do
  let numbers ← toNumbers context.limit .add arguments
  return .num (numbers.foldl Double.add (.zero false))

def multiplication (context : Context) (arguments : List Datum) : Machine Datum := do
  let numbers ← toNumbers context.limit .multiply arguments
  return .num (numbers.foldl Double.multiply (.ofNat 1))

/-- The first number without the others, or the negative of a single one. -/
def subtraction (context : Context) (minuend : Datum) (subtrahends : List Datum) :
    Machine Datum := do
  let first ← toNumber context.limit Builtin.subtract.name minuend
  let rest ← toNumbers context.limit .subtract subtrahends
  return .num (if rest.isEmpty then first.negate else rest.foldl Double.subtract first)

def divideBy (quotient : Double) : List Double → Machine Double
  | [] => return quotient
  | divisor :: rest =>
    if divisor.isZero then fail (.divisionByZero .divide)
    else divideBy (quotient.divide divisor) rest

def division (context : Context) (dividend : Datum) (divisors : List Datum) : Machine Datum := do
  let first ← toNumber context.limit Builtin.divide.name dividend
  let rest ← toNumbers context.limit .divide divisors
  return .num (← if rest.isEmpty then divideBy (.ofNat 1) [first] else divideBy first rest)

/-- The remainder, with the sign of the dividend. -/
def remainder (context : Context) (dividend divisor : Datum) : Machine Datum := do
  let left ← toNumber context.limit Builtin.remainder.name dividend
  let right ← toNumber context.limit Builtin.remainder.name divisor
  if right.isZero then fail (.divisionByZero .remainder)
  else return .num (← orBreakDown .remainderDomain (left.remainder? right))

def answer : Option Bool → Machine Datum
  | some value => return .bool value
  | none => throw .tooDeep

def head (context : Context) : Datum → Machine Datum
  | .pair _ head _ => return head
  | datum => failPrinting context.limit datum (.notPair .car datum)

def tail (context : Context) : Datum → Machine Datum
  | .pair _ _ tail => return tail
  | datum => failPrinting context.limit datum (.notPair .cdr datum)

def length (context : Context) (datum : Datum) : Machine Datum :=
  if datum.isList then return .num (.ofNat datum.items.length)
  else failPrinting context.limit datum (.notList .length datum)

/-- The value of a promise. Its expression is evaluated at most once to the end: if it was forced
again while that went on, the value that was there first is kept. -/
def forcePromise (context : Context) (id : PromiseId) : Machine Datum := do
  match (← get).promises[id]? with
  | none => return .promise id
  | some (.forced value) => return value
  | some (.pending expression frame) => do
    let value ← context.evaluate expression frame
    match (← get).promises[id]? with
    | some (.forced earlier) => return earlier
    | _ =>
      settlePromise id value
      return value

/-- The value of a promise; anything else is its own value. -/
def force (context : Context) : Datum → Machine Datum
  | .promise id => forcePromise context id
  | datum => return datum

def display (context : Context) (datum : Datum) : Machine Datum := do
  checkPrintable context.limit datum
  write datum.display
  return .unspecified

def newline : Machine Datum := do
  write "\n"
  return .unspecified

end Machine

/-- What a built-in procedure does with arguments of the right count. -/
inductive Builtin.Rule where
  | predicate (test : Datum → Bool)
  | comparison (relation : Double → Double → Bool)
  | nullary (run : Machine Datum)
  | unary (run : Context → Datum → Machine Datum)
  | binary (run : Context → Datum → Datum → Machine Datum)
  | leading (run : Context → Datum → List Datum → Machine Datum)
  | variadic (run : Context → List Datum → Machine Datum)

namespace Builtin

def Rule.arity : Rule → Arity
  | .nullary _ => .exactly 0
  | .predicate _ | .unary _ => .exactly 1
  | .binary _ => .exactly 2
  | .comparison _ => .atLeast 2
  | .leading _ => .atLeast 1
  | .variadic _ => .atLeast 0

def rule : Builtin → Rule
  | add => .variadic Machine.addition
  | subtract => .leading Machine.subtraction
  | multiply => .variadic Machine.multiplication
  | divide => .leading Machine.division
  | remainder => .binary Machine.remainder
  | equals => .comparison Double.equals
  | less => .comparison Double.less
  | greater => .comparison fun left right => right.less left
  | atMost => .comparison Double.atMost
  | atLeast => .comparison fun left right => right.atMost left
  | not => .predicate fun datum => !datum.isTrue
  | isSame => .binary fun context left right => Machine.answer (left.isSame? context.limit right)
  | isAlike => .binary fun context left right => Machine.answer (left.isAlike? context.limit right)
  | cons => .binary fun _ head tail => Machine.cons head tail
  | car => .unary Machine.head
  | cdr => .unary Machine.tail
  | list => .variadic fun _ arguments => Machine.listOf arguments .empty
  | length => .unary Machine.length
  | isNull => .predicate Datum.isEmpty
  | isPair => .predicate Datum.isPair
  | isList => .predicate Datum.isList
  | isNumber => .predicate Datum.isNumber
  | isString => .predicate Datum.isString
  | isSymbol => .predicate Datum.isSymbol
  | isBoolean => .predicate Datum.isBoolean
  | isProcedure => .predicate Datum.isProcedure
  | force => .unary Machine.force
  | display => .unary Machine.display
  | newline => .nullary Machine.newline

end Builtin

namespace Machine

def callBuiltin (context : Context) (procedure : Builtin) (arguments : List Datum) :
    Machine Datum :=
  match procedure.rule, arguments with
  | .predicate test, [datum] => return .bool (test datum)
  | .comparison relation, _ :: _ :: _ =>
    compareNumbers context.limit procedure relation arguments
  | .nullary run, [] => run
  | .unary run, [datum] => run context datum
  | .binary run, [left, right] => run context left right
  | .leading run, first :: rest => run context first rest
  | .variadic run, arguments => run context arguments
  | rule, arguments => fail (.builtinArity procedure rule.arity arguments.length)

end Machine

end SmallScheme
