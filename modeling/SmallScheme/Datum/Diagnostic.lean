import SmallScheme.Datum.Basic
import SmallScheme.Number.Text
import SmallScheme.Text.Quoted
/-!
# Data in diagnostics

How error messages show a datum: unambiguously, with the kind of every atom visible, pairs one
inside the other. Because each pair of a chain is nested in the one before, a long chain is as deep
as it is long, and one that is nested deeper than a limit cannot be shown.
-/

namespace SmallScheme

def joinChars (separator : List Char) : List (List Char) → List Char
  | [] => []
  | [text] => text
  | text :: rest => text ++ separator ++ joinChars separator rest

theorem joinChars_cons (separator text : List Char) (texts : List (List Char)) :
    joinChars separator (text :: texts) = text ++ texts.flatMap (separator ++ ·) := by
  induction texts generalizing text with
  | nil => simp [joinChars]
  | cons other texts hypothesis => simp [joinChars, hypothesis]

def Formals.chars : Formals → List Char
  | .fixed names => '(' :: (joinChars [' '] (names.map String.toList) ++ [')'])
  | .rest name => name.toList

def lambdaChars (formals : Formals) : List Char :=
  '(' :: "lambda ".toList ++ formals.chars ++ [')']

/-- A procedure of the program: by its name if that is there and not empty, else by its
parameters. -/
def closureChars (name : Option String) (formals : Formals) : List Char :=
  let shown := (name.filter (· ≠ "")).elim (lambdaChars formals) String.toList
  "#<procedure ".toList ++ shown ++ ['>']

def builtinChars (procedure : Builtin) : List Char :=
  "#<builtin ".toList ++ procedure.name.toList ++ ['>']

def promiseChars : List Char := "#<promise>".toList

def unspecifiedChars : List Char := "#<unspecified>".toList

namespace Datum

def pairOpening : List Char := "Pair(".toList

def atomDiagnostic : Datum → List Char
  | .absent => "None".toList
  | .bool true => "True".toList
  | .bool false => "False".toList
  | .num value => value.chars
  | .int value => integerDigits value
  | .str text => quotedChars text.toList
  | .symbol name => "Symbol(".toList ++ quotedChars name.toList ++ [')']
  | .quoted name => "Quote(".toList ++ quotedChars name.toList ++ [')']
  | .empty => ['(', ')']
  | .unspecified => unspecifiedChars
  | .builtin procedure => builtinChars procedure
  | .closure _ name formals _ _ => closureChars name formals
  | .promise _ => promiseChars
  | .foreign _ text => text.toList
  | .form .. | .pair .. => []

mutual

def diagnosticChars : Datum → List Char
  | .form _ items => '[' :: (diagnosticItems items ++ [']'])
  | .pair _ head tail =>
    pairOpening ++ head.diagnosticChars ++ [',', ' '] ++ tail.diagnosticChars ++ [')']
  | atom => atom.atomDiagnostic

def diagnosticItems : List Datum → List Char
  | [] => []
  | [item] => item.diagnosticChars
  | item :: rest => item.diagnosticChars ++ [',', ' '] ++ diagnosticItems rest

end

def diagnostic (datum : Datum) : String := String.ofList datum.diagnosticChars

mutual

/-- The datum is nested too deep to be shown in a diagnostic: a head and a tail are each one level
deeper than their pair. -/
def isTooDeepToDiagnose (limit : Nat) : Datum → Bool
  | .form _ items => limit == 0 || anyTooDeepToDiagnose (limit - 1) items
  | .pair _ head tail =>
    limit == 0 || head.isTooDeepToDiagnose (limit - 1) || tail.isTooDeepToDiagnose (limit - 1)
  | _ => limit == 0

def anyTooDeepToDiagnose (limit : Nat) : List Datum → Bool
  | [] => false
  | item :: rest => item.isTooDeepToDiagnose limit || anyTooDeepToDiagnose limit rest

end

/-- A datum as a plain name: strings and symbols by their text, a closure by its parameters,
anything else as in a diagnostic. -/
def plainText : Datum → String
  | .str text => text
  | .symbol name | .quoted name => name
  | .closure _ _ formals _ _ => String.ofList (lambdaChars formals)
  | datum => datum.diagnostic

end Datum

end SmallScheme
