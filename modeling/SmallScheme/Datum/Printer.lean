import SmallScheme.Datum.Diagnostic
import SmallScheme.Text.Literal
/-!
# Data as source text

The text that the language itself prints. `source` writes a string as a literal, so that data can be
read back; `display` writes its characters as they are. Chains of pairs and forms are both written
as lists, an improper ending after a dot.
-/

namespace SmallScheme

inductive StringStyle where
  | literal
  | bare
  deriving DecidableEq, Repr

def StringStyle.write : StringStyle → List Char → List Char
  | .literal, text => Literal.encode text
  | .bare, text => text

inductive PrintObstacle where
  | tooDeep
  | integerTooLarge
  deriving DecidableEq, Repr

namespace Datum

def atomChars (style : StringStyle) : Datum → List Char
  | .absent | .empty => ['(', ')']
  | .bool true => ['#', 't']
  | .bool false => ['#', 'f']
  | .num value => value.sourceChars
  | .int value => integerDigits value
  | .str text => style.write text.toList
  | .symbol name | .quoted name => name.toList
  | .unspecified => unspecifiedChars
  | .builtin procedure => builtinChars procedure
  | .closure _ name formals _ _ => closureChars name formals
  | .promise _ => promiseChars
  | .foreign _ text => text.toList
  | .form .. | .pair .. => []

mutual

def chars (style : StringStyle) : Datum → List Char
  | .form _ items => '(' :: (itemsChars style items ++ [')'])
  | .pair _ head tail => '(' :: (head.chars style ++ (tail.tailChars style ++ [')']))
  | atom => atom.atomChars style

def itemsChars (style : StringStyle) : List Datum → List Char
  | [] => []
  | [item] => item.chars style
  | item :: rest => item.chars style ++ ' ' :: itemsChars style rest

/-- What a chain prints after the head of a pair with the given tail. -/
def tailChars (style : StringStyle) : Datum → List Char
  | .empty => []
  | .pair _ head tail => ' ' :: (head.chars style ++ tail.tailChars style)
  | .form _ items => ' ' :: '.' :: ' ' :: '(' :: (itemsChars style items ++ [')'])
  | atom => ' ' :: '.' :: ' ' :: atom.atomChars style

end

def source (datum : Datum) : String := String.ofList (datum.chars .literal)

def display (datum : Datum) : String := String.ofList (datum.chars .bare)

mutual

/-- The first thing that keeps a datum from being printed, if any. A head or an element is one level
deeper than its list; the tails of a chain are not. -/
def printObstacle? (limit : Nat) : Datum → Option PrintObstacle
  | .form _ items => if limit = 0 then some .tooDeep else itemsObstacle? (limit - 1) items
  | .pair _ head tail =>
    if limit = 0 then some .tooDeep
    else head.printObstacle? (limit - 1) <|> tail.tailObstacle? (limit - 1)
  | .int value => if limit = 0 then some .tooDeep else integerObstacle? value
  | _ => if limit = 0 then some .tooDeep else none

def itemsObstacle? (limit : Nat) : List Datum → Option PrintObstacle
  | [] => none
  | item :: rest => item.printObstacle? limit <|> itemsObstacle? limit rest

def tailObstacle? (limit : Nat) : Datum → Option PrintObstacle
  | .empty => none
  | .pair _ head tail => head.printObstacle? limit <|> tail.tailObstacle? limit
  | .form _ items => if limit = 0 then some .tooDeep else itemsObstacle? (limit - 1) items
  | .int value => if limit = 0 then some .tooDeep else integerObstacle? value
  | _ => if limit = 0 then some .tooDeep else none

def integerObstacle? (value : Int) : Option PrintObstacle :=
  if (Double.ofInt? value).isNone then some .integerTooLarge else none

end

end Datum

end SmallScheme
