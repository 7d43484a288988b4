import SmallScheme.Datum.Pairs
import SmallScheme.Fault
import SmallScheme.Store
/-!
# Computations on the store

An evaluation is a computation that reads and changes the store and ends with a value or an
interrupt; what it has done to the store before an interrupt stays done. These are the steps it is
made of.
-/

namespace SmallScheme

/-- A computation on the store that may be interrupted. -/
abbrev Machine := EStateM Interrupt Store

namespace Machine

def fail {α : Type} (fault : Fault) : Machine α := throw (.fault fault)

def breakDown {α : Type} (breakdown : Breakdown) : Machine α := throw (.breakdown breakdown)

def ofExcept {α : Type} : Except Interrupt α → Machine α
  | .ok value => pure value
  | .error interrupt => throw interrupt

def orBreakDown {α : Type} (breakdown : Breakdown) : Option α → Machine α
  | some value => pure value
  | none => breakDown breakdown

/-- The number of the language that an integer of the host becomes. -/
def numberOfInteger (value : Int) : Machine Double :=
  orBreakDown .integerTooLarge (Double.ofInt? value)

/-- Labels that no value has yet; the first of the given number. -/
def freshLabels (count : Nat) : Machine Label :=
  modifyGet fun store => (store.nextLabel, { store with nextLabel := store.nextLabel + count })

def cons (head tail : Datum) : Machine Datum := do
  return .pair (← freshLabels 1) head tail

def listOf (heads : List Datum) (ending : Datum) : Machine Datum := do
  return .chain (← freshLabels heads.length) heads ending

def closure (name : Option String) (formals : Formals) (body : List Datum) (frame : FrameId) :
    Machine Datum := do
  return .closure (← freshLabels 1) name formals body frame

def newFrame (bindings : Bindings) (outer : Option FrameId) : Machine FrameId :=
  modifyGet fun store => store.pushFrame { bindings, outer }

def define (frame : FrameId) (name : String) (value : Datum) : Machine Unit :=
  modify fun store => store.define frame name value

def lookup (frame : FrameId) (name : String) : Machine Datum := do
  match (← get).lookup? name frame with
  | some value => return value
  | none => fail (.unbound name)

def newPromise (expression : Datum) (frame : FrameId) : Machine Datum := do
  return .promise (← modifyGet fun store => store.pushPromise (.pending expression frame))

def settlePromise (id : PromiseId) (value : Datum) : Machine Unit :=
  modify fun store => store.settlePromise id value

def write (text : String) : Machine Unit :=
  modify fun store => { store with output := store.output ++ text }

def record (level : LogLevel) (logger : Logger) (message : String) : Machine Unit :=
  modify fun store => { store with log := store.log.push { level, logger, message } }

def noteOpened (path : String) : Machine Unit :=
  modify fun store => { store with opened := store.opened.push path }

def checkPrintable (limit : Nat) (datum : Datum) : Machine Unit :=
  match datum.printObstacle? limit with
  | none => pure ()
  | some .tooDeep => throw .tooDeep
  | some .integerTooLarge => breakDown .integerTooLarge

def failPrinting {α : Type} (limit : Nat) (datum : Datum) (fault : Fault) : Machine α := do
  checkPrintable limit datum
  fail fault

def failDiagnosing {α : Type} (limit : Nat) (datum : Datum) (fault : Fault) : Machine α :=
  if datum.isTooDeepToDiagnose limit then throw .tooDeep else fail fault

end Machine

end SmallScheme
