import SmallScheme.Evaluator.Application
import SmallScheme.Evaluator.Forms
/-!
# Evaluation

An expression is evaluated step by step. A step that proceeds replaces the expression and its frame,
so a chain of such steps is no deeper than one of them; only expressions that are evaluated for a
step of another one nest. Nesting is limited, and so is the number of steps on each level.
-/

namespace SmallScheme

def Datum.specialForm? : Datum → Option SpecialForm
  | .symbol name => SpecialForm.ofName? name
  | _ => none

@[simp] theorem Datum.specialForm?_keyword (form : SpecialForm) :
    (keyword form).specialForm? = some form :=
  SpecialForm.ofName?_name form

namespace Machine

/-- Evaluate the operator, then the operands from left to right; apply the one to the others. -/
def evaluateApplication (context : Context) (frame : FrameId) (operator : Datum)
    (operands : List Datum) : Machine Step := do
  let callee ← context.evaluate operator frame
  let arguments ← operands.mapM fun operand => context.evaluate operand frame
  applyProcedure context callee arguments

def step (context : Context) (expression : Datum) (frame : FrameId) : Machine Step :=
  match expression with
  | .absent | .empty | .form _ [] => return .done .empty
  | .int value => do
    return .done (.num (← numberOfInteger value))
  | .symbol name => do
    return .done (← lookup frame name)
  | .form _ (head :: operands) =>
    match head.specialForm? with
    | some form => evaluateSpecial context frame operands form
    | none => evaluateApplication context frame head operands
  | value => return .done value

theorem step_form (context : Context) (label : Option Label) (head : Datum)
    (operands : List Datum) (frame : FrameId) :
    step context (.form label (head :: operands)) frame =
      match head.specialForm? with
      | some form => evaluateSpecial context frame operands form
      | none => evaluateApplication context frame head operands := rfl

theorem step_keyword (context : Context) (label : Option Label) (form : SpecialForm)
    (operands : List Datum) (frame : FrameId) :
    step context (.form label (.keyword form :: operands)) frame =
      evaluateSpecial context frame operands form := by
  rw [step_form, Datum.specialForm?_keyword]

/-- Take steps until one ends with a value. -/
def iterate (next : Datum → FrameId → Machine Step) : Nat → Datum → FrameId → Machine Datum
  | 0, _, _ => throw .outOfSteps
  | steps + 1, expression, frame => do
    match ← next expression frame with
    | .done value => return value
    | .proceed expression frame => iterate next steps expression frame

/-- Evaluate an expression in a frame, with a number of steps on each level, nested no deeper than a
limit. The limit counts the evaluations inside one another, not the calls that a host makes for
each. -/
def evaluate (host : Host) (steps : Nat) : Nat → Datum → FrameId → Machine Datum
  | 0, _, _ => throw .tooDeep
  | limit + 1, expression, frame =>
    iterate (step { host, limit, evaluate := evaluate host steps limit }) steps expression frame

end Machine

end SmallScheme
