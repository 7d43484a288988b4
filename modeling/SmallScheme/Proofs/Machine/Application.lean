import SmallScheme.Evaluator.Evaluate
/-!
# Steps over the application of procedures

A step of the evaluator, with the application of procedures left open. So something more may be done
in each application, and the rest of the evaluator is as it was.
-/

namespace SmallScheme

namespace Machine

variable (apply : Datum → List Datum → Machine Step) (context : Context)

/-- Evaluate the operator and the operands, then apply the one to the others in the given way. -/
def applicationWith (frame : FrameId) (operator : Datum) (operands : List Datum) :
    Machine Step := do
  let callee ← context.evaluate operator frame
  let arguments ← operands.mapM fun operand => context.evaluate operand frame
  apply callee arguments

/-- A step in which procedures are applied in the given way. -/
def stepWith (expression : Datum) (frame : FrameId) : Machine Step :=
  match expression with
  | .form _ (head :: operands) =>
    match head.specialForm? with
    | some form => evaluateSpecial context frame operands form
    | none => applicationWith apply context frame head operands
  | expression => step context expression frame

theorem stepWith_form (label : Option Label) (head : Datum) (operands : List Datum)
    (frame : FrameId) :
    stepWith apply context (.form label (head :: operands)) frame =
      match head.specialForm? with
      | some form => evaluateSpecial context frame operands form
      | none => applicationWith apply context frame head operands := rfl

theorem stepWith_keyword (label : Option Label) (form : SpecialForm) (operands : List Datum)
    (frame : FrameId) :
    stepWith apply context (.form label (.keyword form :: operands)) frame =
      evaluateSpecial context frame operands form := by
  rw [stepWith_form, Datum.specialForm?_keyword]

theorem stepWith_applyProcedure :
    stepWith (applyProcedure context) context = step context := by
  funext expression frame
  cases expression with
  | form label items =>
    cases items with
    | nil => rfl
    | cons head operands => rfl
  | _ => rfl

end Machine

end SmallScheme
