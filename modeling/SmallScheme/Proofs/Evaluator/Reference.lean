import SmallScheme.Proofs.Relabelling.Evaluator
/-!
# Evaluation as plain recursion

The evaluator takes steps in a loop, and a step may leave an expression for the next one. Here is
the evaluator without that loop: a conditional evaluates the branch that it chooses, a sequence its
last expression, and a call the body of the closure, each by recursion. All other rules are the
same. The two have the same outcomes. What either ends with is a datum: an expression still to be
evaluated is left by a step only, never by an evaluation.

The recursion is bounded by its depth, of which an evaluation that ends takes only so much. The
depth of nesting is counted as in the loop: an expression in the place of another is no deeper than
that.
-/

namespace SmallScheme

open Machine

namespace Reference

/-! ### The recursion -/

variable (context : Context) (last : Datum → FrameId → Machine Datum) (frame : FrameId)

def evaluateBranch (operands : List Datum) : Machine Datum :=
  match operands with
  | [test, consequent] => do
    let value ← context.evaluate test frame
    if value.isTrue then last consequent frame else return .unspecified
  | [test, consequent, alternative] => do
    let value ← context.evaluate test frame
    if value.isTrue then last consequent frame else last alternative frame
  | _ => fail (.operandCount .branch)

def evaluateBegin : List Datum → Machine Datum
  | [] => return .unspecified
  | [expression] => last expression frame
  | expression :: rest => do
    discard (context.evaluate expression frame)
    evaluateBegin rest

/-- The datum stands in place of the test in a last clause. -/
def isElse : Datum → Bool
  | .symbol name => name = elseName
  | _ => false

/-- Evaluate the body of the first of the clauses whose test has a true value. -/
def evaluateClauses : List Datum → Machine Datum
  | .form _ (test :: body) :: rest =>
    if isElse test then last (.ofBody body) frame
    else do
      let value ← context.evaluate test frame
      if value.isTrue then last (.ofBody body) frame else evaluateClauses rest
  | _ => return .unspecified

/-- Check all clauses, then evaluate the body of one. -/
def evaluateConditional (clauses : List Datum) : Machine Datum :=
  match expandConditional context.limit clauses with
  | .ok _ => evaluateClauses context last frame clauses
  | .error interrupt => throw interrupt

def applyProcedure (callee : Datum) (arguments : List Datum) : Machine Datum :=
  match callee with
  | .builtin procedure => callBuiltin context procedure arguments
  | .closure _ _ formals body frame => do
    let inner ← enterClosure callee formals frame arguments
    last (.ofBody body) inner
  | _ => failPrinting context.limit callee (.notCallable callee)

def evaluateApplication (operator : Datum) (operands : List Datum) : Machine Datum := do
  let callee ← context.evaluate operator frame
  let arguments ← operands.mapM fun operand => context.evaluate operand frame
  applyProcedure context last callee arguments

def evaluateSpecial (operands : List Datum) : SpecialForm → Machine Datum
  | .define => evaluateDefine context frame operands
  | .eval => evaluateEval context frame operands
  | .apply => evaluateApply context frame operands
  | .branch => evaluateBranch context last frame operands
  | .cond => evaluateConditional context last frame operands
  | .begin => evaluateBegin context last frame operands
  | .lambda => makeClosure context frame none operands
  | .load => evaluateLoad context frame operands
  | .delay => evaluateDelay frame operands
  | .and => evaluateAnd context frame operands
  | .or => evaluateOr context frame operands
  | .quote => evaluateQuote context operands

/-- Evaluate an expression, given the evaluation of the expressions inside it and of those that may
stand in its place. -/
def evaluateExpression (expression : Datum) : Machine Datum :=
  match expression with
  | .absent | .empty | .form _ [] => return .empty
  | .int value => do
    return .num (← numberOfInteger value)
  | .symbol name => lookup frame name
  | .form _ (head :: operands) =>
    match head.specialForm? with
    | some form => evaluateSpecial context last frame operands form
    | none => evaluateApplication context last frame head operands
  | value => return value

/-- Evaluate an expression in a frame, by a recursion no deeper than the fuel, nested no deeper than
a limit. -/
def evaluate (host : Host) : Nat → Nat → Datum → FrameId → Machine Datum
  | 0, _, _, _ => throw .outOfSteps
  | _ + 1, 0, _, _ => throw .tooDeep
  | fuel + 1, limit + 1, expression, frame =>
    evaluateExpression { host, limit, evaluate := evaluate host fuel limit }
      (evaluate host fuel (limit + 1)) frame expression

/-! ### A step and what comes after it -/

theorem failPrinting_bind_finish (limit : Nat) (datum : Datum) (fault : Fault) :
    failPrinting limit datum fault >>= Step.finish last = failPrinting limit datum fault := by
  rw [failPrinting, bind_assoc]
  rfl

theorem evaluateBranch_eq (operands : List Datum) :
    evaluateBranch context last frame operands =
      Machine.evaluateBranch context frame operands >>= Step.finish last := by
  match operands with
  | [test, consequent] =>
    refine (congrArg (context.evaluate test frame >>= ·) (funext fun value => ?_)).trans
      (bind_assoc ..).symm
    cases value.isTrue <;> rfl
  | [test, consequent, alternative] =>
    refine (congrArg (context.evaluate test frame >>= ·) (funext fun value => ?_)).trans
      (bind_assoc ..).symm
    cases value.isTrue <;> rfl
  | [] | [_] | _ :: _ :: _ :: _ :: _ => rfl

theorem evaluateBegin_eq (expressions : List Datum) :
    evaluateBegin context last frame expressions =
      Machine.evaluateBegin context frame expressions >>= Step.finish last := by
  induction expressions with
  | nil => rfl
  | cons expression rest ih =>
    cases rest with
    | nil => rfl
    | cons next rest =>
      calc evaluateBegin context last frame (expression :: next :: rest)
          = discard (context.evaluate expression frame) >>= fun _ =>
              evaluateBegin context last frame (next :: rest) := rfl
        _ = discard (context.evaluate expression frame) >>= fun _ =>
              Machine.evaluateBegin context frame (next :: rest) >>= Step.finish last := by
            rw [ih]
        _ = Machine.evaluateBegin context frame (expression :: next :: rest) >>=
              Step.finish last := (bind_assoc ..).symm

theorem applyProcedure_eq (callee : Datum) (arguments : List Datum) :
    applyProcedure context last callee arguments =
      Machine.applyProcedure context callee arguments >>= Step.finish last := by
  cases callee with
  | builtin procedure => exact (Step.done_bind_finish last _).symm
  | closure label name formals body frame =>
    rw [Machine.applyProcedure, bind_assoc]
    rfl
  | _ => exact (failPrinting_bind_finish last _ _ _).symm

theorem evaluateApplication_eq (operator : Datum) (operands : List Datum) :
    evaluateApplication context last frame operator operands =
      Machine.evaluateApplication context frame operator operands >>= Step.finish last := by
  simp only [evaluateApplication, Machine.evaluateApplication, bind_assoc, applyProcedure_eq]

/-- Unless an expression is a conditional with clauses, its recursion is its step and what comes
after that. -/
theorem evaluateExpression_eq_or (expression : Datum) :
    (∃ label head operands, expression = .form label (head :: operands) ∧
      head.specialForm? = some .cond) ∨
    ∀ context last frame, evaluateExpression context last frame expression =
      step context expression frame >>= Step.finish last := by
  cases expression with
  | form label items =>
    cases items with
    | nil => exact .inr fun _ _ _ => rfl
    | cons head operands =>
      by_cases hcond : head.specialForm? = some .cond
      · exact .inl ⟨label, head, operands, rfl, hcond⟩
      · refine .inr fun context last frame => ?_
        rw [step_form]
        change (match head.specialForm? with
          | some form => evaluateSpecial context last frame operands form
          | none => evaluateApplication context last frame head operands) = _
        cases hform : head.specialForm? with
        | none => exact evaluateApplication_eq context last frame head operands
        | some form =>
          cases form with
          | branch => exact evaluateBranch_eq context last frame operands
          | begin => exact evaluateBegin_eq context last frame operands
          | cond => exact absurd hform hcond
          | _ =>
            exact (Step.done_map_finish last _).symm
  | int value =>
    refine .inr fun context last frame => ?_
    rw [step, bind_assoc]
    rfl
  | symbol name => exact .inr fun context last frame => (Step.done_bind_finish last _).symm
  | _ => exact .inr fun _ _ _ => rfl

/-! ### Clauses -/

/-- The nested conditionals that stand for the clauses. -/
inductive Expands : List Datum → Datum → Prop where
  | nil : Expands [] .unspecified
  | last {label : Option Label} {test : Datum} {body : List Datum} (helse : isElse test = true) :
    Expands [.form label (test :: body)] (.ofBody body)
  | cons {label : Option Label} {test alternative : Datum} {body rest : List Datum}
    (helse : isElse test = false) (hrest : Expands rest alternative) :
    Expands (.form label (test :: body) :: rest)
      (.form none [.keyword .branch, test, .ofBody body, alternative])

theorem expands_of_expandClause {limit number : Nat} {clause alternative expansion : Datum}
    {rest : List Datum} (hrest : Expands rest alternative)
    (hexpand : expandClause limit number rest.isEmpty alternative clause = .ok expansion) :
    Expands (clause :: rest) expansion := by
  unfold expandClause at hexpand
  split at hexpand
  · cases hexpand
  · next label name body _ =>
    by_cases hname : name ≠ elseName
    · rw [if_pos hname] at hexpand
      cases hexpand
      exact .cons (decide_eq_false hname) hrest
    · rw [if_neg hname] at hexpand
      cases rest with
      | nil =>
        cases hexpand
        exact .last (decide_eq_true (Decidable.not_not.1 hname))
      | cons => cases hexpand
  · next label test body _ hsymbol =>
    cases hexpand
    refine .cons ?_ hrest
    cases test with
    | symbol name => exact absurd rfl (hsymbol name)
    | _ => rfl
  · split at hexpand <;> cases hexpand

theorem expands_of_expandClauses {limit number : Nat} {clauses : List Datum} {expansion : Datum}
    (hexpand : expandClauses limit number clauses = .ok expansion) : Expands clauses expansion := by
  induction clauses generalizing number expansion with
  | nil =>
    cases hexpand
    exact .nil
  | cons clause rest ih =>
    rw [expandClauses] at hexpand
    cases halternative : expandClauses limit (number + 1) rest with
    | error interrupt =>
      rw [halternative] at hexpand
      cases hexpand
    | ok alternative =>
      rw [halternative] at hexpand
      exact expands_of_expandClause (ih halternative) hexpand

theorem step_conditional {label : Option Label} {head : Datum} {operands : List Datum}
    (hcond : head.specialForm? = some .cond) :
    step context (.form label (head :: operands)) frame >>= Step.finish last =
      match expandConditional context.limit operands with
      | .ok expansion => last expansion frame
      | .error interrupt => throw interrupt := by
  rw [step_form, hcond]
  refine (bind_assoc ..).trans ?_
  cases expandConditional context.limit operands <;> rfl

theorem evaluateExpression_conditional {label : Option Label} {head : Datum}
    {operands : List Datum} (hcond : head.specialForm? = some .cond) :
    evaluateExpression context last frame (.form label (head :: operands)) =
      evaluateConditional context last frame operands := by
  rw [evaluateExpression, hcond]
  rfl

/-! ### The recursion does what the loop does -/

/-- The members of the family, from some on, do exactly what the computation does if it ends. -/
abbrev IsRepeated (computation : Machine Datum) (family : Nat → Machine Datum) : Prop :=
  Simulates .zero (Datum.relabel .zero) computation family

variable {context last} {clauses : List Datum} {expansion : Datum} {computation : Machine Datum}

theorem isRepeated_refl (computation : Machine Datum) :
    IsRepeated computation fun _ => computation where
  run := by
    intro store _ _
    refine ⟨Nat.zero_le _, 0, fun _ _ => ?_⟩
    rw [Store.relabel_zero, Outcome.relabel_zero]

theorem isRepeated_throw (interrupt : Interrupt) :
    IsRepeated (throw interrupt) fun _ => throw interrupt := by
  have hthrow : IsRepeated (throw interrupt) fun _ => throw (interrupt.relabel .zero) :=
    .throw interrupt
  rwa [Interrupt.relabel_zero] at hthrow

theorem isSimulated_of_isRepeated {family : Nat → Datum → FrameId → Machine Datum}
    (hinner : ∀ expression frame, IsRepeated (context.evaluate expression frame) fun number =>
      family number expression frame) : context.IsSimulated .zero family := by
  intro expression frame
  rw [Datum.relabel_zero]
  exact hinner expression frame

theorem isRepeated_step {evaluate : Datum → FrameId → Machine Datum}
    {family later : Nat → Datum → FrameId → Machine Datum}
    (hinner : ∀ expression frame, IsRepeated (context.evaluate expression frame) fun number =>
      family number expression frame)
    (hlater : ∀ expression frame, IsRepeated (evaluate expression frame) fun number =>
      later number expression frame) (expression : Datum) :
    IsRepeated (step context expression frame >>= Step.finish evaluate) fun number =>
      step { context with evaluate := family number } expression frame >>=
        Step.finish (later number) := by
  have hstep := simulates_step (isSimulated_of_isRepeated hinner) expression frame
  rw [Datum.relabel_zero] at hstep
  refine hstep.bind (simulates_finish fun expression frame => ?_)
  rw [Datum.relabel_zero]
  exact hlater expression frame

theorem isRepeated_of_evaluateExpression {host : Host} {limit : Nat} {expression : Datum}
    (hrecursion : IsRepeated computation fun fuel =>
      evaluateExpression { host, limit, evaluate := evaluate host fuel limit }
        (evaluate host fuel (limit + 1)) frame expression) :
    IsRepeated computation fun fuel => evaluate host fuel (limit + 1) expression frame :=
  hrecursion.later fun _ _ _ => rfl

/-- Steps along nested conditionals lead where the clauses do that they stand for. -/
theorem isRepeated_expansion (hexpands : Expands clauses expansion) {steps : Nat}
    (hinner : ∀ expression frame, IsRepeated (context.evaluate expression frame) fun fuel =>
      evaluate context.host fuel context.limit expression frame)
    (hlast : ∀ fewer ≤ steps, ∀ expression frame,
      IsRepeated (iterate (step context) fewer expression frame) fun fuel =>
        evaluate context.host fuel (context.limit + 1) expression frame) :
    IsRepeated (iterate (step context) steps expansion frame) fun fuel =>
      evaluateClauses { context with evaluate := evaluate context.host fuel context.limit }
        (evaluate context.host fuel (context.limit + 1)) frame clauses := by
  induction hexpands generalizing steps with
  | nil =>
    cases steps with
    | zero => exact .outOfSteps
    | succ steps => exact .pure Datum.unspecified
  | last helse =>
    simp only [evaluateClauses, helse, if_true]
    exact hlast steps (Nat.le_refl steps) _ frame
  | @cons label test alternative body rest helse _ ih =>
    cases steps with
    | zero => exact .outOfSteps
    | succ steps =>
      rw [iterate_succ, step_keyword]
      change IsRepeated (Machine.evaluateBranch context frame [test, .ofBody body, alternative] >>=
        Step.finish (iterate (step context) steps)) _
      rw [← evaluateBranch_eq]
      simp only [evaluateClauses, helse]
      refine (hinner test frame).bind fun value => ?_
      rw [Datum.relabel_zero]
      cases value.isTrue with
      | true => exact hlast steps (Nat.le_succ steps) _ frame
      | false =>
        exact ih fun fewer hfewer => hlast fewer (Nat.le_succ_of_le hfewer)

theorem isRepeated_iterate (context : Context)
    (hinner : ∀ expression frame, IsRepeated (context.evaluate expression frame) fun fuel =>
      evaluate context.host fuel context.limit expression frame) (steps : Nat)
    (expression : Datum) :
    IsRepeated (iterate (step context) steps expression frame) fun fuel =>
      evaluate context.host fuel (context.limit + 1) expression frame := by
  -- clauses are one recursion but a step for each test that fails: any fewer steps may be left
  induction steps using Nat.strongRecOn generalizing expression frame with
  | ind steps ih =>
    cases steps with
    | zero => exact .outOfSteps
    | succ steps =>
      have hlast : ∀ fewer ≤ steps, ∀ expression frame,
          IsRepeated (iterate (step context) fewer expression frame) fun fuel =>
            evaluate context.host fuel (context.limit + 1) expression frame :=
        fun fewer hfewer expression frame => ih fewer (Nat.lt_succ_of_le hfewer) frame expression
      refine isRepeated_of_evaluateExpression frame ?_
      rw [iterate_succ]
      rcases evaluateExpression_eq_or expression with ⟨label, head, operands, rfl, hcond⟩ | heq
      · rw [step_conditional _ _ frame hcond]
        simp only [evaluateExpression_conditional _ _ frame hcond, evaluateConditional]
        cases hexpand : expandConditional context.limit operands with
        | error interrupt => exact isRepeated_throw interrupt
        | ok expansion =>
          exact isRepeated_expansion frame (expands_of_expandClauses hexpand) hinner
            fun fewer hfewer => hlast fewer hfewer
      · simp only [heq]
        exact isRepeated_step frame hinner (hlast steps (Nat.le_refl steps)) expression

theorem isRepeated_by_recursion (host : Host) (steps limit : Nat) (expression : Datum) :
    IsRepeated (Machine.evaluate host steps limit expression frame) fun fuel =>
      evaluate host fuel limit expression frame := by
  induction limit generalizing expression frame with
  | zero => exact (isRepeated_throw .tooDeep).later fun _ _ _ => rfl
  | succ limit ih =>
    exact isRepeated_iterate frame { host, limit, evaluate := Machine.evaluate host steps limit }
      (fun expression frame => ih frame expression) steps expression

/-! ### The loop does what the recursion does -/

/-- An expression that a step leaves is evaluated by the steps after that. -/
theorem isRepeated_of_step {host : Host} {limit : Nat} {expression : Datum}
    (hstep : IsRepeated computation fun steps =>
      step { host, limit, evaluate := Machine.evaluate host steps limit } expression frame >>=
        Step.finish (Machine.evaluate host steps (limit + 1))) :
    IsRepeated computation fun steps =>
      Machine.evaluate host steps (limit + 1) expression frame := by
  refine hstep.later fun steps store hfinished => ?_
  let context : Context := { host, limit, evaluate := Machine.evaluate host steps limit }
  have hcontext : context.IsSimulated .zero fun _ => Machine.evaluate host (steps + 1) limit :=
    simulates_evaluate host steps (fun _ => Nat.le_succ steps) limit
  -- the step more is one more on every level inside, too, and changes nothing there
  have hiterate := simulates_iterate hcontext (steps + 1) (fun _ => Nat.le_refl (steps + 1))
    expression frame
  rw [Datum.relabel_zero, iterate_succ] at hiterate
  obtain ⟨least, hrun⟩ := hiterate.eq_of_isFinished hfinished
  exact hrun least (Nat.le_refl least)

theorem isRepeated_clauses {evaluation : Datum → FrameId → Machine Datum}
    (hexpands : Expands clauses expansion)
    (hinner : ∀ expression frame, IsRepeated (context.evaluate expression frame) fun steps =>
      Machine.evaluate context.host steps context.limit expression frame)
    (hlast : ∀ expression frame, IsRepeated (evaluation expression frame) fun steps =>
      Machine.evaluate context.host steps (context.limit + 1) expression frame) :
    IsRepeated (evaluateClauses context evaluation frame clauses) fun steps =>
      Machine.evaluate context.host steps (context.limit + 1) expansion frame := by
  induction hexpands with
  | nil =>
    refine isRepeated_of_step frame ?_
    exact .pure Datum.unspecified
  | last helse =>
    simp only [evaluateClauses, helse, if_true]
    exact hlast _ frame
  | @cons label test alternative body rest helse _ ih =>
    refine isRepeated_of_step frame ?_
    simp only [step_keyword]
    change IsRepeated _ fun steps => Machine.evaluateBranch
      { context with evaluate := Machine.evaluate context.host steps context.limit } frame
      [test, .ofBody body, alternative] >>=
        Step.finish (Machine.evaluate context.host steps (context.limit + 1))
    simp only [← evaluateBranch_eq, evaluateClauses, helse]
    refine (hinner test frame).bind fun value => ?_
    rw [Datum.relabel_zero]
    cases value.isTrue with
    | true => exact hlast _ frame
    | false => exact ih

theorem isRepeated_by_steps (host : Host) (fuel limit : Nat) (expression : Datum) :
    IsRepeated (evaluate host fuel limit expression frame) fun steps =>
      Machine.evaluate host steps limit expression frame := by
  induction fuel generalizing limit expression frame with
  | zero => exact .outOfSteps
  | succ fuel ih =>
    cases limit with
    | zero => exact isRepeated_throw .tooDeep
    | succ limit =>
      refine isRepeated_of_step frame ?_
      -- the fuel bounds what is inside and what comes last alike, whatever their limits
      have hinner := fun expression frame => ih frame limit expression
      have hlast := fun expression frame => ih frame (limit + 1) expression
      rw [evaluate]
      rcases evaluateExpression_eq_or expression with ⟨label, head, operands, rfl, hcond⟩ | heq
      · simp only [step_conditional _ _ frame hcond]
        rw [evaluateExpression_conditional _ _ frame hcond, evaluateConditional]
        cases hexpand : expandConditional limit operands with
        | error interrupt => exact isRepeated_throw interrupt
        | ok expansion =>
          exact isRepeated_clauses frame (expands_of_expandClauses hexpand) hinner hlast
      · rw [heq]
        exact isRepeated_step frame hinner hlast expression

end Reference

/-- The computation ends with the outcome if it is given enough of what bounds it. -/
def Machine.EndsWith {α : Type} (family : Nat → Machine α) (store : Store) (outcome : Outcome α) :
    Prop :=
  Outcome.IsFinished outcome ∧ ∃ bound, family bound store = outcome

theorem Machine.EndsWith.of_isRepeated {family later : Nat → Machine Datum} {store : Store}
    {outcome : Outcome Datum} (hrepeated : ∀ bound, Reference.IsRepeated (family bound) later)
    (hends : EndsWith family store outcome) : EndsWith later store outcome := by
  obtain ⟨hfinished, bound, rfl⟩ := hends
  obtain ⟨least, hrun⟩ := (hrepeated bound).eq_of_isFinished hfinished
  exact ⟨hfinished, least, hrun least (Nat.le_refl least)⟩

/-- Whatever is evaluated, in whatever store and frame, the loop of steps ends with an outcome
exactly if plain recursion does. -/
theorem Machine.endsWith_evaluate_iff_reference (host : Host) (limit : Nat) (expression : Datum)
    (frame : FrameId) (store : Store) (outcome : Outcome Datum) :
    EndsWith (fun steps => evaluate host steps limit expression frame) store outcome ↔
      EndsWith (fun fuel => Reference.evaluate host fuel limit expression frame) store outcome := by
  constructor
  · intro hends
    exact hends.of_isRepeated fun steps =>
      Reference.isRepeated_by_recursion frame host steps limit expression
  · intro hends
    exact hends.of_isRepeated fun fuel =>
      Reference.isRepeated_by_steps frame host fuel limit expression

end SmallScheme
