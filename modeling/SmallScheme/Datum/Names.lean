/-!
# Special forms and built-in procedures by name

The fixed vocabulary of the language: the symbols that head a special form, and the procedures that
every program finds bound when it starts.
-/

namespace SmallScheme

/-- The forms with evaluation rules of their own. -/
inductive SpecialForm where
  | define | eval | apply | cond | begin | lambda | load | delay | and | or | quote
  | branch
  deriving DecidableEq, Repr

namespace SpecialForm

def all : List SpecialForm :=
  [.define, .eval, .apply, .branch, .cond, .begin, .lambda, .load, .delay, .and, .or, .quote]

def name : SpecialForm → String
  | define => "define"
  | eval => "eval"
  | apply => "apply"
  | branch => "if"
  | cond => "cond"
  | begin => "begin"
  | lambda => "lambda"
  | load => "load"
  | delay => "delay"
  | and => "and"
  | or => "or"
  | quote => "quote"

def ofName? (name : String) : Option SpecialForm := all.find? fun form => form.name == name

theorem ofName?_name (form : SpecialForm) : ofName? form.name = some form := by
  cases form <;> decide

end SpecialForm

inductive Builtin where
  | add | subtract | multiply | divide | remainder
  | equals | less | greater | atMost | atLeast
  | not
  /-- Identity of compound values, equality of atoms. -/
  | isSame
  /-- Equality of structure. -/
  | isAlike
  | cons | car | cdr | list | length
  | isNull | isPair | isList | isNumber | isString | isSymbol | isBoolean | isProcedure
  | force | display | newline
  deriving DecidableEq, Repr

namespace Builtin

/-- All built-in procedures, in the order in which a fresh program binds them. -/
def all : List Builtin :=
  [.add, .subtract, .multiply, .divide, .remainder, .equals, .less, .greater, .atMost, .atLeast,
    .not, .isSame, .isAlike, .cons, .car, .cdr, .list, .length, .isNull, .isPair, .isList,
    .isNumber, .isString, .isSymbol, .isBoolean, .isProcedure, .force, .display, .newline]

def name : Builtin → String
  | add => "+"
  | subtract => "-"
  | multiply => "*"
  | divide => "/"
  | remainder => "remainder"
  | equals => "="
  | less => "<"
  | greater => ">"
  | atMost => "<="
  | atLeast => ">="
  | not => "not"
  | isSame => "eq?"
  | isAlike => "equal?"
  | cons => "cons"
  | car => "car"
  | cdr => "cdr"
  | list => "list"
  | length => "length"
  | isNull => "null?"
  | isPair => "pair?"
  | isList => "list?"
  | isNumber => "number?"
  | isString => "string?"
  | isSymbol => "symbol?"
  | isBoolean => "boolean?"
  | isProcedure => "procedure?"
  | force => "force"
  | display => "display"
  | newline => "newline"

def ofName? (name : String) : Option Builtin := all.find? fun procedure => procedure.name == name

theorem ofName?_name (procedure : Builtin) : ofName? procedure.name = some procedure := by
  cases procedure <;> decide

end Builtin

def emptyListName : String := "nil"

end SmallScheme
