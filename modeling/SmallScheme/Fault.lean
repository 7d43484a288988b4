import SmallScheme.Datum.Printer
import SmallScheme.Source.Refusal
/-!
# Faults

What can go wrong in reading and evaluating. A `Fault` is an error of the program that is run:
drivers report it and carry on. A `Breakdown` is a failure that no driver handles, and an
`Interrupt` is whatever can end an evaluation before it has a value. Faults hold their causes; the
wording is in one place, `Fault.message`.
-/

namespace SmallScheme

inductive Fault.Kind where
  | unbound | notCallable | arity
  /-- Unreadable text or a malformed special form. -/
  | illFormed
  | malformedList | type | source | recursion
  deriving DecidableEq, Repr

def Fault.Kind.name : Fault.Kind → String
  | unbound => "SableUnboundSymbol"
  | notCallable => "SableNotCallable"
  | arity => "SableArityError"
  | illFormed => "SableSyntaxError"
  | malformedList => "SableMalformedList"
  | type => "SableTypeError"
  | source => "SableIOError"
  | recursion => "SableRecursionError"

inductive Arity where
  | exactly (count : Nat)
  | atLeast (count : Nat)
  deriving DecidableEq, Repr

inductive Fault where
  | unexpectedChar (position : Nat) (char : Char)
  | endAfterQuote
  | unclosedList
  | unexpectedClose
  | unknownToken (kind text : String)
  | unbound (name : String)
  | notBindable (name : String)
  | notCallable (callee : Datum)
  | builtinArity (procedure : Builtin) (arity : Arity) (given : Nat)
  | closureArity (closure : Datum) (expected given : Nat)
  | operandCount (form : SpecialForm)
  | missingProcedureName
  | defineExpressions (name : String)
  | notSymbol (form : SpecialForm) (datum : Datum)
  | clauseNotList (clause : Datum)
  /-- A clause of a conditional, counted from one, that has only a test. -/
  | clauseWithoutBody (number : Nat)
  | elseNotLast
  | notQuotable (datum : Datum)
  | malformedList (value : Datum)
  | notNumber (context : String) (value : Datum)
  | notPair (procedure : Builtin) (value : Datum)
  | notList (procedure : Builtin) (value : Datum)
  | notArgumentList (value : Datum)
  | notLoadable (value : Datum)
  | divisionByZero (procedure : Builtin)
  | unavailable (path reason : String)
  | tooDeep

namespace Fault

def kind : Fault → Kind
  | unexpectedChar .. | endAfterQuote | unclosedList | unexpectedClose | unknownToken ..
  | notBindable _ | operandCount _ | missingProcedureName | defineExpressions _ | notSymbol ..
  | clauseNotList _ | clauseWithoutBody _ | elseNotLast | notQuotable _ => .illFormed
  | unbound _ => .unbound
  | notCallable _ => .notCallable
  | builtinArity .. | closureArity .. => .arity
  | malformedList _ => .malformedList
  | notNumber .. | notPair .. | notList .. | notArgumentList _ | notLoadable _
  | divisionByZero _ => .type
  | unavailable .. => .source
  | tooDeep => .recursion

/-- What a special form says when it has the wrong number of operands. Two of them take any number
and have nothing to say. -/
def operandCountMessage : SpecialForm → String
  | .define => "define requires a name"
  | .eval => "eval expects exactly one argument"
  | .apply => "apply requires exactly 2 arguments: a procedure and an argument list"
  | .branch => "if requires a condition, a consequent and an optional alternative"
  | .lambda => "lambda requires a parameter list"
  | .load => "load expects exactly one argument"
  | .delay => "delay requires exactly 1 argument"
  | .and => "and requires at least 1 argument"
  | .or => "or requires at least 1 argument"
  | .quote => "quote expects exactly 1 argument"
  | .cond | .begin => ""

def arityMessage (procedure : Builtin) (given : Nat) : Arity → String
  | .exactly count =>
    procedure.name ++ " requires exactly " ++ toString count ++ " argument(s), got "
      ++ toString given
  | .atLeast 1 => procedure.name ++ " requires at least 1 argument"
  | .atLeast count => procedure.name ++ " requires at least " ++ toString count ++ " arguments"

def message : Fault → String
  | unexpectedChar position char =>
    "Unexpected char at " ++ toString position ++ ": " ++ quotedText (String.singleton char)
  | endAfterQuote => "Unexpected EOF after quote"
  | unclosedList => "Unmatched '('"
  | unexpectedClose => "Unexpected ')'"
  | unknownToken kind text => "Unknown token: " ++ kind ++ " " ++ text
  | unbound name => "Unbound symbol: " ++ name
  | notBindable name => "Cannot define " ++ name ++ " as a symbol"
  | notCallable callee => callee.source ++ " is not callable"
  | builtinArity procedure arity given => arityMessage procedure given arity
  | closureArity closure expected given =>
    closure.diagnostic ++ " requires " ++ toString expected ++ " argument(s) but "
      ++ toString given ++ " provided"
  | operandCount form => operandCountMessage form
  | missingProcedureName => "define: missing procedure name"
  | defineExpressions name =>
    "define: bad syntax for " ++ name ++ " (expected exactly one expression after identifier)"
  | notSymbol form datum => form.name ++ ": " ++ datum.diagnostic ++ " is not a symbol"
  | clauseNotList clause => "cond: clause must be a non-empty list, got " ++ clause.diagnostic
  | clauseWithoutBody number => "cond: clause " ++ toString number ++ " has no body"
  | elseNotLast => "cond: else clause must be in the last position"
  | notQuotable datum => "quote: invalid argument " ++ datum.diagnostic
  | malformedList value => "eval: malformed list " ++ value.source
  | notNumber context value => context ++ ": expected a number, got " ++ value.diagnostic
  | notPair procedure value => procedure.name ++ ": expected a pair, got " ++ value.display
  | notList procedure value => procedure.name ++ ": expected a list, got " ++ value.display
  | notArgumentList value => "apply: argument must be a list, got " ++ value.source
  | notLoadable value =>
    "load: argument can only contain strings, quoted symbols or lists, got " ++ value.source
  | divisionByZero procedure => procedure.name ++ ": division by zero"
  | unavailable path reason => "load " ++ path ++ " failed: " ++ reason
  | tooDeep => "Recursion too deep: non-tail recursion exhausted the stack"

def report (fault : Fault) : String := fault.kind.name ++ ": " ++ fault.message

end Fault

/-- A failure that ends whatever is going on. -/
inductive Breakdown where
  | remainderDomain
  | integerTooLarge
  /-- A path without a last component, where an extension was to be added. -/
  | emptyName (path : String)
  | invalidName (name : String)
  | zeroInName
  /-- A path of a search that the file system refused to look at. -/
  | searchRefused (refusal : Refusal) (path : String)
  | formAsKey
  | unknownLevel (level : String)
  deriving DecidableEq, Repr

def Breakdown.message : Breakdown → String
  | remainderDomain => "math domain error"
  | integerTooLarge => "int too large to convert to float"
  | emptyName path => "PosixPath(" ++ quotedText path ++ ") has an empty name"
  | invalidName name => "Invalid name " ++ quotedText name
  | zeroInName => "embedded null byte"
  | searchRefused refusal path => refusal.message path
  | formAsKey => "unhashable type: 'list'"
  | unknownLevel level => "Unknown level: " ++ quotedText level

inductive Interrupt where
  | fault (fault : Fault)
  /-- The depth limit was reached; an evaluation boundary turns this into a fault. -/
  | tooDeep
  | breakdown (breakdown : Breakdown)
  | outOfSteps

def Interrupt.report : Interrupt → String
  | .fault cause => cause.report
  | .tooDeep => Fault.tooDeep.report
  | .breakdown cause => cause.message
  | .outOfSteps => "The budget of steps is used up"

end SmallScheme
