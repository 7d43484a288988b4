import SmallScheme.Evaluator.Evaluate
/-!
# The interpreter

A fresh interpreter has one frame, in which the built-in procedures and the empty list are bound.
The computations here start in that frame and leave in it what they define.
-/

namespace SmallScheme

namespace Interpreter

def rootFrame : FrameId := 0

/-- How many levels deep a host lets anything nest. A level is one expression, list or quote inside
another, not a frame of the host's stack, of which it may take several: where exactly the host gives
up is not for this number to say. -/
def depthLimit : Nat := 1000

def stepBudget : Nat := 1000000000000000

def initialBindings : Bindings :=
  Builtin.all.map (fun procedure => (procedure.name, .builtin procedure)) ++
    [(emptyListName, .empty)]

def initialStore : Store :=
  (Store.empty.pushFrame { bindings := initialBindings, outer := none }).2

def context (host : Host) : Context where
  host := host
  limit := depthLimit
  evaluate := Machine.evaluate host stepBudget depthLimit

/-- Evaluate every form of a text, for the value of the last; the first fault ends it. -/
def eval (host : Host) (text : String) : Machine Datum :=
  Machine.evaluateStream (context host) rootFrame .unspecified (TokenStream.ofText text)

/-- Evaluate every form of a text; faults are reported in the log, and the value is that of the last
form that had one. -/
def run (host : Host) (text : String) : Machine Datum :=
  Machine.runStream (context host) rootFrame .unspecified (TokenStream.ofText text)

def load (host : Host) (name : String) : Machine Datum :=
  Machine.loadFile (context host) rootFrame name

def prepare (host : Host) (preparation : String) : Machine Unit := discard (run host preparation)

def isInitial (name : String) (value : Datum) : Bool :=
  match initialBindings.get? name with
  | some initial => initial.isSame value
  | none => false

def definitions (store : Store) : Bindings :=
  (store.bindings rootFrame).filter fun (name, value) => !isInitial name value

end Interpreter

end SmallScheme
