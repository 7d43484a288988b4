import SmallScheme.Evaluator.Builtins
/-!
# Application

A built-in procedure is applied at once. A closure binds its arguments in a new frame inside the one
it was made in, and goes on with its body there.
-/

namespace SmallScheme

namespace Machine

def bindArguments (closure : Datum) (formals : Formals) (arguments : List Datum) :
    Machine Bindings :=
  match formals with
  | .rest name => do
    let list ← listOf arguments .empty
    return [(name, list)]
  | .fixed names =>
    if names.length = arguments.length then return .ofPairs (names.zip arguments)
    else fail (.closureArity closure names.length arguments.length)

/-- The new frame of a call, inside the frame that the closure was made in. -/
def enterClosure (closure : Datum) (formals : Formals) (frame : FrameId) (arguments : List Datum) :
    Machine FrameId := do
  let bindings ← bindArguments closure formals arguments
  newFrame bindings (some frame)

def applyProcedure (context : Context) (callee : Datum) (arguments : List Datum) : Machine Step :=
  match callee with
  | .builtin procedure => do
    return .done (← callBuiltin context procedure arguments)
  | .closure _ _ formals body frame => do
    return .proceed (.ofBody body) (← enterClosure callee formals frame arguments)
  | _ => failPrinting context.limit callee (.notCallable callee)

end Machine

end SmallScheme
