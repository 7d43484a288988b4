import SmallScheme.Datum.Basic
/-!
# The store

Everything that an evaluation can change: the frames of bindings, the promises, and the traces it
leaves for its host, which are the text it displays, the log, and the files it opens. Frames and
promises are only ever added, so a number once given out stays valid.
-/

namespace SmallScheme

/-- The bindings of a frame, in the order in which the names were first bound. -/
abbrev Bindings := List (String × Datum)

namespace Bindings

def get? (name : String) : Bindings → Option Datum
  | [] => none
  | (bound, value) :: rest => if bound = name then some value else get? name rest

/-- Bind a name. A name that is bound already keeps its place. -/
def set (name : String) (value : Datum) : Bindings → Bindings
  | [] => [(name, value)]
  | (bound, old) :: rest =>
    if bound = name then (name, value) :: rest else (bound, old) :: set name value rest

def ofPairs (pairs : List (String × Datum)) : Bindings :=
  pairs.foldl (fun bindings (name, value) => bindings.set name value) []

@[simp] theorem get?_set_self (name : String) (value : Datum) (bindings : Bindings) :
    (bindings.set name value).get? name = some value := by
  induction bindings with
  | nil => simp [set, get?]
  | cons head rest hypothesis =>
    by_cases same : head.1 = name <;> simp [set, get?, same, hypothesis]

theorem get?_set_of_ne {name other : String} (ne : other ≠ name) (value : Datum)
    (bindings : Bindings) : (bindings.set name value).get? other = bindings.get? other := by
  induction bindings with
  | nil => simp [set, get?, Ne.symm ne]
  | cons head rest hypothesis =>
    by_cases same : head.1 = name
    · simp [set, get?, same, Ne.symm ne]
    · simp [set, get?, same, hypothesis]

end Bindings

structure Frame where
  bindings : Bindings
  outer : Option FrameId

inductive Promise where
  | pending (expression : Datum) (frame : FrameId)
  | forced (value : Datum)

inductive LogLevel where
  | debug | error
  deriving DecidableEq, Repr

def LogLevel.name : LogLevel → String
  | debug => "DEBUG"
  | error => "ERROR"

def LogLevel.rank : LogLevel → Nat
  | debug => 10
  | error => 40

inductive Logger where
  | sequence | evalForm | loadForm | sourceLoader
  deriving DecidableEq, Repr

def Logger.name : Logger → String
  | sequence => "sable.evaluation.sequence"
  | evalForm => "sable.evaluation.special_forms.eval_form"
  | loadForm => "sable.evaluation.special_forms.load_form"
  | sourceLoader => "sable.modules.source_loader"

structure LogRecord where
  level : LogLevel
  logger : Logger
  message : String

def LogRecord.text (record : LogRecord) : String :=
  record.level.name ++ " " ++ record.logger.name ++ ": " ++ record.message

structure Store where
  frames : Array Frame
  promises : Array Promise
  /-- The first label that no value has. -/
  nextLabel : Label
  output : String
  log : Array LogRecord
  opened : Array String

namespace Store

def empty : Store :=
  { frames := #[], promises := #[], nextLabel := 0, output := "", log := #[], opened := #[] }

def bindings (store : Store) (frame : FrameId) : Bindings :=
  match store.frames[frame]? with
  | some found => found.bindings
  | none => []

def outer? (store : Store) (frame : FrameId) : Option FrameId :=
  match store.frames[frame]? with
  | some found => found.outer
  | none => none

/-- The nearest frame that binds a name, from a frame outwards. A frame is older than those inside
it, so the search ends. -/
def find? (store : Store) (name : String) (frame : FrameId) : Option FrameId :=
  match (store.bindings frame).get? name with
  | some _ => some frame
  | none =>
    match store.outer? frame with
    | some outer => if outer < frame then store.find? name outer else none
    | none => none
termination_by frame

def lookup? (store : Store) (name : String) (frame : FrameId) : Option Datum :=
  match store.find? name frame with
  | some found => (store.bindings found).get? name
  | none => none

def define (store : Store) (frame : FrameId) (name : String) (value : Datum) : Store :=
  { store with
    frames := store.frames.modify frame fun found =>
      { found with bindings := found.bindings.set name value } }

def pushFrame (store : Store) (frame : Frame) : FrameId × Store :=
  (store.frames.size, { store with frames := store.frames.push frame })

def pushPromise (store : Store) (promise : Promise) : PromiseId × Store :=
  (store.promises.size, { store with promises := store.promises.push promise })

def settlePromise (store : Store) (id : PromiseId) (value : Datum) : Store :=
  { store with promises := store.promises.modify id fun _ => .forced value }

def withoutTraces (store : Store) : Store := { store with output := "", log := #[], opened := #[] }

end Store

end SmallScheme
