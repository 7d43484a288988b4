import SmallScheme.Evaluator.Evaluate
import SmallScheme.Proofs.Relabelling.Forms
/-!
# Evaluation with moved labels and with more steps

Evaluation does the same in a store with moved labels, up to these labels. And once it has steps
enough to end, more of them change nothing.
-/

namespace SmallScheme

open Machine

/-- The value of a step, given the evaluation of the expression that it may proceed with. -/
def Step.finish (evaluate : Datum → FrameId → Machine Datum) : Step → Machine Datum
  | .done value => pure value
  | .proceed expression frame => evaluate expression frame

theorem Step.done_bind_finish (evaluate : Datum → FrameId → Machine Datum)
    (computation : Machine Datum) :
    (computation >>= fun value => pure (Step.done value)) >>= Step.finish evaluate =
      computation := by
  rw [bind_assoc]
  exact bind_pure computation

theorem Step.done_map_finish (evaluate : Datum → FrameId → Machine Datum)
    (computation : Machine Datum) :
    (Step.done <$> computation) >>= Step.finish evaluate = computation := by
  rw [map_eq_pure_bind, done_bind_finish]

theorem Datum.specialForm?_relabel (shift : Shift) (datum : Datum) :
    (datum.relabel shift).specialForm? = datum.specialForm? := by
  cases datum <;> rfl

namespace Machine

theorem iterate_succ (next : Datum → FrameId → Machine Step) (steps : Nat) (expression : Datum)
    (frame : FrameId) :
    iterate next (steps + 1) expression frame =
      next expression frame >>= Step.finish (iterate next steps) := by
  refine congrArg (next expression frame >>= ·) (funext fun step => ?_)
  cases step <;> rfl

variable {shift : Shift} {context : Context} {family : Nat → Datum → FrameId → Machine Datum}

theorem simulates_finish {evaluate : Datum → FrameId → Machine Datum}
    (hevaluate : ∀ expression frame, Simulates shift (Datum.relabel shift)
      (evaluate expression frame) fun steps => family steps (expression.relabel shift) frame)
    (step : Step) :
    Simulates shift (Datum.relabel shift) (step.finish evaluate) fun steps =>
      (step.relabel shift).finish (family steps) := by
  cases step with
  | done value => exact .pure value
  | proceed expression frame => exact hevaluate expression frame

theorem simulates_evaluateApplication (hcontext : context.IsSimulated shift family)
    (frame : FrameId) (operator : Datum) (operands : List Datum) :
    Simulates shift (Step.relabel shift) (evaluateApplication context frame operator operands)
      fun steps => evaluateApplication { context with evaluate := family steps } frame
        (operator.relabel shift) (operands.map (Datum.relabel shift)) := by
  refine (hcontext operator frame).bind fun callee => ?_
  have harguments : Simulates shift (List.map (Datum.relabel shift))
      (operands.mapM fun operand => context.evaluate operand frame) fun steps =>
        (operands.map (Datum.relabel shift)).mapM fun operand => family steps operand frame :=
    .mapM (fun operand => hcontext operand frame) operands
  exact harguments.bind fun arguments => simulates_applyProcedure hcontext callee arguments

theorem simulates_step (hcontext : context.IsSimulated shift family) (expression : Datum)
    (frame : FrameId) :
    Simulates shift (Step.relabel shift) (step context expression frame) fun steps =>
      step { context with evaluate := family steps } (expression.relabel shift) frame := by
  cases expression with
  | absent | empty => exact .pure (Step.done .empty)
  | int value =>
    exact (simulates_numberOfInteger value).bind fun number => .pure (Step.done (.num number))
  | symbol name =>
    exact (simulates_lookup frame name).bind fun value => .pure (Step.done value)
  | form label items =>
    cases items with
    | nil => exact .pure (Step.done .empty)
    | cons head operands =>
      simp only [Datum.relabel, Datum.relabelAll, Datum.relabelAll_eq_map, step_form,
        Datum.specialForm?_relabel]
      cases head.specialForm? with
      | some form => exact simulates_evaluateSpecial hcontext frame operands form
      | none => exact simulates_evaluateApplication hcontext frame head operands
  | _ => exact .pure (Step.done _)

/-- Other surroundings in which each evaluation has at least as many steps do the same. -/
theorem simulates_iterate (hcontext : context.IsSimulated shift family) (steps : Nat)
    {budget : Nat → Nat} (hbudget : ∀ index, steps ≤ budget index) (expression : Datum)
    (frame : FrameId) :
    Simulates shift (Datum.relabel shift) (iterate (step context) steps expression frame)
      fun index => iterate (step { context with evaluate := family index }) (budget index)
        (expression.relabel shift) frame := by
  induction steps generalizing budget expression frame with
  | zero => exact .outOfSteps
  | succ steps ih =>
    -- each member takes one of its own steps, of which it may have more than are taken here
    have hrest : ∀ index, budget index = (budget index - 1) + 1 := by
      intro index
      have hle := hbudget index
      omega
    have hle : ∀ index, steps ≤ budget index - 1 := by
      intro index
      have hle := hbudget index
      omega
    rw [iterate_succ, funext hrest]
    simp only [iterate_succ]
    exact (simulates_step hcontext expression frame).bind
      (simulates_finish fun expression frame => ih hle expression frame)

theorem simulates_evaluate (host : Host) (steps : Nat) {budget : Nat → Nat}
    (hbudget : ∀ index, steps ≤ budget index) (limit : Nat) (expression : Datum)
    (frame : FrameId) :
    Simulates shift (Datum.relabel shift) (evaluate host steps limit expression frame)
      fun index => evaluate host (budget index) limit (expression.relabel shift) frame := by
  -- what is inside has the same steps again but one level less, so the induction is on the limit
  induction limit generalizing expression frame with
  | zero => exact .throw _
  | succ limit ih =>
    have hcontext : Context.IsSimulated shift
        { host, limit, evaluate := evaluate host steps limit }
        fun index => evaluate host (budget index) limit := ih
    exact simulates_iterate hcontext steps hbudget expression frame

/-- Once an evaluation has steps enough to end, more of them change nothing. -/
theorem evaluate_of_le {host : Host} {steps more limit : Nat} {expression : Datum}
    {frame : FrameId} {store : Store} (hle : steps ≤ more)
    (hfinished : Outcome.IsFinished (evaluate host steps limit expression frame store)) :
    evaluate host more limit expression frame store =
      evaluate host steps limit expression frame store := by
  have hmore : Simulates .zero (Datum.relabel .zero) (evaluate host steps limit expression frame)
      fun _ => evaluate host more limit (expression.relabel .zero) frame :=
    simulates_evaluate host steps (fun _ => hle) limit expression frame
  rw [Datum.relabel_zero] at hmore
  obtain ⟨least, hrun⟩ := hmore.eq_of_isFinished hfinished
  exact hrun least (Nat.le_refl least)

end Machine

end SmallScheme
