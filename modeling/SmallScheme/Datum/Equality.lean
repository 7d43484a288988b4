import SmallScheme.Datum.Pairs
/-!
# Equality of data

Three notions. `same` compares any two data by structure, numbers and booleans by their numeric
value. `isSame` is the language's identity: compound values are the same only as one and the same
value. `isAlike?` is the language's structural equality on pairs over that identity.
-/

namespace SmallScheme

namespace Datum

/-- The exact value of a boolean, an integer or a finite double, counted in units of the least
positive double. -/
def exactUnits? : Datum → Option Int
  | .bool value => some (if value then Double.one else 0)
  | .int value => some (value * Double.one)
  | .num (.finite negative units _) => some (Double.signed negative units)
  | _ => none

def sameAtom : Datum → Datum → Bool
  | .absent, .absent | .empty, .empty | .unspecified, .unspecified => true
  | .num left, .num right => left.equals right
  | .str left, .str right => left == right
  | .symbol left, .symbol right => left == right
  | .quoted left, .quoted right => left == right
  | .builtin left, .builtin right => left == right
  | .closure left .., .closure right .. => left == right
  | .promise left, .promise right => left == right
  | .foreign left _, .foreign right _ => left == right
  | left, right =>
    match left.exactUnits?, right.exactUnits? with
    | some leftUnits, some rightUnits => leftUnits == rightUnits
    | _, _ => false

mutual

/-- Structural equality of two data that share no part: pairs by head and tail, forms by their
elements, numbers and booleans by value, closures and foreign values by identity. -/
def same : Datum → Datum → Bool
  | .form _ left, .form _ right => sameItems left right
  | .pair _ leftHead leftTail, .pair _ rightHead rightTail =>
    leftHead.same rightHead && leftTail.same rightTail
  | .form .., _ | .pair .., _ => false
  | left, right => left.sameAtom right

def sameItems : List Datum → List Datum → Bool
  | [], [] => true
  | left :: leftRest, right :: rightRest => left.same right && sameItems leftRest rightRest
  | _, _ => false

end

mutual

/-- The structural comparison of two data goes deeper than the limit before it finds a difference.
A head and a tail are each one level deeper than their pair, an element than its form; forms of
different lengths are not compared further. -/
def comparesTooDeep (limit : Nat) : Datum → Datum → Bool
  | .form _ left, .form _ right =>
    left.length == right.length && (limit == 0 || itemsCompareTooDeep (limit - 1) left right)
  | .pair _ leftHead leftTail, .pair _ rightHead rightTail =>
    limit == 0 || leftHead.comparesTooDeep (limit - 1) rightHead
      || (leftHead.same rightHead && leftTail.comparesTooDeep (limit - 1) rightTail)
  | _, _ => false

def itemsCompareTooDeep (limit : Nat) : List Datum → List Datum → Bool
  | left :: leftRest, right :: rightRest =>
    left.comparesTooDeep limit right
      || (left.same right && itemsCompareTooDeep limit leftRest rightRest)
  | _, _ => false

end

/-- A datum with itself: equal unless it is the double that equals nothing. -/
def sameAsItself : Datum → Bool
  | .num value => value.equals value
  | _ => true

inductive Identity where
  | cell (label : Label)
  | builtin (procedure : Builtin)
  | promise (id : PromiseId)
  deriving DecidableEq

def identity? : Datum → Option Identity
  | .pair label .. | .closure label .. => some (.cell label)
  | .builtin procedure => some (.builtin procedure)
  | .promise id => some (.promise id)
  | _ => none

def sameKind : Datum → Datum → Bool
  | .absent, .absent | .bool _, .bool _ | .num _, .num _ | .int _, .int _ | .str _, .str _
  | .symbol _, .symbol _ | .quoted _, .quoted _ | .empty, .empty | .unspecified, .unspecified
  | .form .., .form .. | .foreign .., .foreign .. => true
  | _, _ => false

def isOneForm : Datum → Datum → Bool
  | .form (some left) _, .form (some right) _ => left == right
  | _, _ => false

/-- Identity of pairs, procedures and promises; equality of all others within one kind. A form
always equals itself. -/
def isSame (left right : Datum) : Bool :=
  match left.identity?, right.identity? with
  | none, none => left.isOneForm right || (left.sameKind right && left.same right)
  | leftIdentity, rightIdentity => leftIdentity == rightIdentity

/-- The same, with no answer when two forms have to be compared deeper than the limit. -/
def isSame? (limit : Nat) (left right : Datum) : Option Bool :=
  match left, right with
  | .form .., .form .. =>
    if !left.isOneForm right && left.comparesTooDeep limit right then none
    else some (left.isSame right)
  | _, _ => some (left.isSame right)

mutual

/-- Structural equality of chains over `isSame`, looked up to a limited depth of nesting; there is
no answer when the comparison goes deeper before it finds a difference. -/
def isAlike? (limit : Nat) : Datum → Datum → Option Bool
  | .pair _ leftHead leftTail, right =>
    if limit = 0 then none
    else
      match right with
      | .pair _ rightHead rightTail =>
        match isAlike? (limit - 1) leftHead rightHead with
        | some true => isAlikeTail? limit leftTail rightTail
        | answer => answer
      | _ => some false
  | left, right =>
    if limit = 0 then none
    else if right.isPair then some false
    else left.isSame? limit right

def isAlikeTail? (limit : Nat) : Datum → Datum → Option Bool
  | .pair _ leftHead leftTail, .pair _ rightHead rightTail =>
    match isAlike? (limit - 1) leftHead rightHead with
    | some true => isAlikeTail? limit leftTail rightTail
    | answer => answer
  | left, right =>
    if left.isPair || right.isPair then some false else left.isSame? limit right

end

inductive KeyObstacle where
  | form
  | tooDeep
  deriving DecidableEq, Repr

/-- The first thing that keeps a datum from being a key, if any. A head and a tail are each one
level deeper than their pair. -/
def keyObstacle? (limit : Nat) : Datum → Option KeyObstacle
  | .form .. => some .form
  | .pair _ head tail =>
    if limit = 0 then some .tooDeep
    else head.keyObstacle? (limit - 1) <|> tail.keyObstacle? (limit - 1)
  | _ => none

/-- The first of each class of equal data, in order. -/
def distinct (data : List Datum) : List Datum :=
  data.foldl (fun kept datum => if kept.any (·.same datum) then kept else kept ++ [datum]) []

end Datum

end SmallScheme
