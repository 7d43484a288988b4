import SmallScheme.CommandLine.Session
import SmallScheme.Proofs.Discipline.Escapes
import SmallScheme.Proofs.Evaluator.Loading
/-!
# The files of a command line

A session loads its files one after the other, each in the store that the one before it leaves, and
whatever became of that one. A file fails if it cannot be opened or decoded, or if its text cannot
be read to the end. Such a file leaves one line among the errors and nothing else, and the status of
the session says whether there was one. What goes wrong while forms are evaluated is only reported.
-/

namespace SmallScheme

namespace CommandLine

/-- The file of the name cannot be opened or decoded, or its text has a fault. -/
inductive FailsWith (host : Host) (name : String) : Fault → Prop where
  | unavailable {path : Path} {failure : ReadFailure} {reason : String}
    (hresolve : host.resolve name = .ok path) (hread : host.files.read path = .error failure)
    (hreason : failure.reason? path = some reason) :
    FailsWith host name (.unavailable path.text reason)
  | unreadable {path : Path} {text : String} {fault : Fault}
    (hresolve : host.resolve name = .ok path) (hread : host.files.read path = .ok text)
    (hfault : readSource Interpreter.depthLimit text = .error (.fault fault)) :
    FailsWith host name fault

namespace Session

/-- The session after a computation, which left the store. -/
def after (session : Session) (store : Store) : Session :=
  { session with
    store
    output := session.output ++ store.output
    errors := session.errors ++ logText session.threshold store.log }

/-- The session after a computation that ended with a fault. -/
def failing (session : Session) (store : Store) (fault : Fault) : Session :=
  { session.after store with
    errors := (session.after store).errors ++ fault.report ++ "\n", failed := true }

end Session

end CommandLine

/-! ### Loading one file -/

namespace Interpreter

variable {host : Host} {name text : String} {path : Path}

end Interpreter

namespace CommandLine

namespace Session

variable {host : Host} {session : Session} {name : String} {store : Store}

theorem perform_of_ok {α : Type} {computation : Machine α} {value : α}
    (hrun : computation session.store.withoutTraces = .ok value store) :
    session.perform computation = (.ok value, session.after store) := by
  rw [perform, EStateM.run, hrun]
  rfl

theorem perform_of_error {α : Type} {computation : Machine α} {interrupt : Interrupt}
    (hrun : computation session.store.withoutTraces = .error interrupt store) :
    session.perform computation = (.error interrupt, session.after store) := by
  rw [perform, EStateM.run, hrun]
  rfl

theorem loadFile_of_ok {value : Datum}
    (hload : Interpreter.load host name session.store.withoutTraces = .ok value store) :
    session.loadFile host name = (.ok (), session.after store) := by
  have hperform : session.perform (Interpreter.load host name) =
      (.ok value, session.after store) := perform_of_ok hload
  unfold loadFile
  rw [hperform]

end Session

section

variable {host : Host} {session final : Session} {name text : String} {path : Path}

/-- The fault with which a file fails is a matter of the file alone. -/
theorem FailsWith.unique {fault other : Fault} (hfault : FailsWith host name fault)
    (hother : FailsWith host name other) : fault = other := by
  cases hfault with
  | unavailable hresolve hread hreason =>
    cases hother with
    | unavailable hresolve' hread' hreason' =>
      cases hresolve.symm.trans hresolve'
      cases hread.symm.trans hread'
      cases hreason.symm.trans hreason'
      rfl
    | unreadable hresolve' hread' =>
      cases hresolve.symm.trans hresolve'
      cases hread.symm.trans hread'
  | unreadable hresolve hread hfault =>
    cases hother with
    | unavailable hresolve' hread' =>
      cases hresolve.symm.trans hresolve'
      cases hread.symm.trans hread'
    | unreadable hresolve' hread' hfault' =>
      cases hresolve.symm.trans hresolve'
      cases hread.symm.trans hread'
      cases hfault.symm.trans hfault'
      rfl

end

/-! ### Lines of input -/

section

variable {host : Host} {options : Options} {input : String} {session final : Session}

end

end CommandLine

end SmallScheme
