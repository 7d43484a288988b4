import SmallScheme.Datum.Equality
import SmallScheme.Evaluator.Application
/-!
# Frames seen from the host

A host may bind and look up names by any datum, of which only a symbol is a name; anything else is
refused or found nowhere, and what holds a form or nests too deep cannot be a key at all. Frames can
also be shown, alone or with all frames around them.
-/

namespace SmallScheme

namespace Machine

def checkKey (limit : Nat) (key : Datum) : Machine Unit :=
  match key.keyObstacle? limit with
  | none => pure ()
  | some .form => breakDown .formAsKey
  | some .tooDeep => throw .tooDeep

def failNaming {α : Type} (limit : Nat) (key : Datum) (fault : String → Fault) : Machine α :=
  failDiagnosing limit key (fault key.plainText)

def defineKey (limit : Nat) (frame : FrameId) (key value : Datum) : Machine Unit :=
  match key with
  | .symbol name => define frame name value
  | _ => failNaming limit key .notBindable

def findKey (limit : Nat) (frame : FrameId) (key : Datum) : Machine (Option FrameId) := do
  checkKey limit key
  match key with
  | .symbol name => return (← get).find? name frame
  | _ => return none

def lookupKey (limit : Nat) (frame : FrameId) (key : Datum) : Machine Datum := do
  checkKey limit key
  match key with
  | .symbol name => lookup frame name
  | _ => failNaming limit key .unbound

/-- Put an entry into a mapping: a key that is there already keeps its place with the new value. -/
def mapKey (key value : Datum) : List (Datum × Datum) → List (Datum × Datum)
  | [] => [(key, value)]
  | (known, old) :: rest =>
    if known.same key then (known, value) :: rest else (known, old) :: mapKey key value rest

/-- Bind the entries of a mapping in turn, up to the first key that is no symbol. The mapping is
made first, so its keys must all be fit to be keys. -/
def updateKeys (limit : Nat) (frame : FrameId) (entries : List (Datum × Datum)) :
    Machine Unit := do
  entries.forM fun (key, _) => checkKey limit key
  let mapping := entries.foldl (fun mapping (key, value) => mapKey key value mapping) []
  mapping.forM fun (key, value) => defineKey limit frame key value

end Machine

namespace Store

def bindingsChars (store : Store) (frame : FrameId) : List Char :=
  let entries := (store.bindings frame).map fun (name, value) =>
    name.toList ++ [':', ' '] ++ value.diagnosticChars
  '{' :: (joinChars [',', ' '] entries ++ ['}'])

def frameText (store : Store) (frame : FrameId) : String :=
  String.ofList (store.bindingsChars frame) ++
    (if (store.outer? frame).isSome then " -> ..." else "")

def chainFrom (store : Store) (frame : FrameId) : List FrameId :=
  match store.outer? frame with
  | some outer => if outer < frame then frame :: store.chainFrom outer else [frame]
  | none => [frame]
termination_by frame

def isTooDeepToShow (store : Store) (limit : Nat) (frame : FrameId) : Bool :=
  (store.bindings frame).any fun (_, value) => value.isTooDeepToDiagnose limit

def chainText (store : Store) (frame : FrameId) : String :=
  let frames := (store.chainFrom frame).map store.bindingsChars
  "<Environment chain: " ++ String.ofList (joinChars " -> ".toList frames) ++ ">"

end Store

namespace Machine

def showFrame (limit : Nat) (frame : FrameId) : Machine String := do
  let store ← get
  if store.isTooDeepToShow limit frame then throw .tooDeep else return store.frameText frame

def showChain (limit : Nat) (frame : FrameId) : Machine String := do
  let store ← get
  if (store.chainFrom frame).any (store.isTooDeepToShow limit) then throw .tooDeep
  else return store.chainText frame

end Machine

end SmallScheme
