import SmallScheme.Datum.Names
import SmallScheme.Number.Double
/-!
# Data

Programs and the values they compute are data of one type: the reader makes data, the evaluator
takes data and gives data back. Syntax is made of numbers, booleans, strings, symbols and `form`s;
values are made of the same atoms, quoted symbols, pairs, procedures and promises. The few other
kinds of atom come only from a host that hands data to the evaluator directly.

Pairs, closures and foreign values have an identity of their own, which a label stands for: two of
them are the same one exactly if their labels agree. A form has a label only if it comes from a host
that may hold it in a value; the forms of a program are never values.
-/

namespace SmallScheme

abbrev FrameId := Nat

abbrev PromiseId := Nat

/-- What tells one pair, closure, foreign value or form of a host from another. -/
abbrev Label := Nat

inductive Formals where
  | fixed (names : List String)
  | rest (name : String)
  deriving DecidableEq, Repr

/-- A piece of syntax or a value. -/
inductive Datum where
  | absent
  | bool (value : Bool)
  | num (value : Double)
  /-- An integer of the host, not yet a number of the language. -/
  | int (value : Int)
  | str (text : String)
  /-- A symbol as syntax: an identifier. -/
  | symbol (name : String)
  /-- A symbol as a value: a quoted identifier, which stands for itself. -/
  | quoted (name : String)
  | empty
  | unspecified
  /-- A compound piece of syntax, labelled if it comes from a host. -/
  | form (label : Option Label) (items : List Datum)
  | pair (label : Label) (head tail : Datum)
  | builtin (procedure : Builtin)
  | closure (label : Label) (name : Option String) (formals : Formals) (body : List Datum)
    (frame : FrameId)
  | promise (id : PromiseId)
  | foreign (label : Label) (text : String)
  deriving Inhabited

namespace Datum

def keyword (form : SpecialForm) : Datum := .symbol form.name

/-- Every spelling of "no expression": the absent one, the empty form and the empty list. -/
def isNullExpression : Datum → Bool
  | .absent | .empty | .form _ [] => true
  | _ => false

/-- Everything counts as true but false itself and the spellings of "no expression". -/
def isTrue : Datum → Bool
  | .bool value => value
  | datum => !datum.isNullExpression

def isPair : Datum → Bool
  | .pair .. => true
  | _ => false

def isNumber : Datum → Bool
  | .num _ | .int _ => true
  | _ => false

def isSymbol : Datum → Bool
  | .symbol _ | .quoted _ => true
  | _ => false

def isString : Datum → Bool
  | .str _ => true
  | _ => false

def isBoolean : Datum → Bool
  | .bool _ => true
  | _ => false

def isEmpty : Datum → Bool
  | .empty => true
  | _ => false

def isProcedure : Datum → Bool
  | .builtin _ | .closure .. => true
  | _ => false

/-- A body of several expressions as one: a sequence, unless it is empty or a single one. -/
def ofBody : List Datum → Datum
  | [] => .unspecified
  | [expression] => expression
  | expressions => .form none (keyword .begin :: expressions)

end Datum

end SmallScheme
