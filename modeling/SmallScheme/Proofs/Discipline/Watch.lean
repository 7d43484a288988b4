import SmallScheme.Proofs.Discipline.Forms
import SmallScheme.Proofs.Evaluator.Reference
/-!
# Evaluation under watch

Some calls of procedures and some loadings of files may be under watch. Under watch an evaluation
does what it does anyway, but stops right before the first of them, as if it had run out of steps.
So an evaluation that ends, but does not end under watch, has come to something that is watched; and
rules that nothing is against but what is watched are obeyed under watch.
-/

namespace SmallScheme

open Machine

/-- What may be under watch: a call with evaluated arguments, and the loading of a name. -/
inductive Event where
  | call (callee : Datum) (arguments : List Datum)
  | load (name : String)

abbrev Watch := Event → Store → Bool

namespace Watched

def notice (watch : Watch) (event : Event) : Machine Unit := do
  if watch event (← get) then throw .outOfSteps

theorem notice_bind_eq {α : Type} (watch : Watch) (event : Event) (computation : Machine α)
    (store : Store) :
    (notice watch event >>= fun _ => computation) store =
      if watch event store then .error .outOfSteps store else computation store := by
  change ((if watch event store then throw .outOfSteps else pure PUnit.unit) >>=
    fun _ => computation) store = _
  cases watch event store <;> rfl

/-! ### The evaluator -/

variable (watch : Watch) (context : Context) (frame : FrameId)

def loadLeniently (name : String) : Machine Unit := do
  notice watch (.load name)
  Machine.loadLeniently context frame name

def loadTarget : Nat → Datum → Machine Unit
  | 0, _ => throw .tooDeep
  | limit + 1, datum =>
    match datum with
    | .str name | .quoted name => loadLeniently watch context frame name
    | .empty => return
    | _ =>
      if datum.isPair && datum.isList then datum.items.forM (loadTarget limit)
      else failPrinting limit datum (.notLoadable datum)

def evaluateLoad (operands : List Datum) : Machine Datum :=
  match operands with
  | [operand] => do
    let target ← context.evaluate operand frame
    loadTarget watch context frame context.limit target
    return .unspecified
  | _ => fail (.operandCount .load)

def evaluateSpecial (operands : List Datum) (form : SpecialForm) : Machine Step :=
  if form = .load then .done <$> evaluateLoad watch context frame operands
  else Machine.evaluateSpecial context frame operands form

def evaluateApplication (operator : Datum) (operands : List Datum) : Machine Step := do
  let callee ← context.evaluate operator frame
  let arguments ← operands.mapM fun operand => context.evaluate operand frame
  notice watch (.call callee arguments)
  applyProcedure context callee arguments

def step (expression : Datum) (frame : FrameId) : Machine Step :=
  match expression with
  | .form _ (head :: operands) =>
    match head.specialForm? with
    | some form => evaluateSpecial watch context frame operands form
    | none => evaluateApplication watch context frame head operands
  | expression => Machine.step context expression frame

theorem step_form (label : Option Label) (head : Datum) (operands : List Datum) :
    step watch context (.form label (head :: operands)) frame =
      match head.specialForm? with
      | some form => evaluateSpecial watch context frame operands form
      | none => evaluateApplication watch context frame head operands := rfl

/-- Evaluate an expression as without a watch, up to the first event that is watched. -/
def evaluate (host : Host) (steps : Nat) : Nat → Datum → FrameId → Machine Datum
  | 0, _, _ => throw .tooDeep
  | limit + 1, expression, frame =>
    iterate (step watch { host, limit, evaluate := evaluate host steps limit }) steps expression
      frame

/-- The surroundings of an interpreter in which every evaluation is under watch. -/
def contextWithin (host : Host) (steps limit : Nat) : Context where
  host := host
  limit := limit
  evaluate := evaluate watch host steps limit

/-! ### Erasure -/

/-- The first computation does what the second one does, or is stopped. -/
def Cuts {α : Type} (watched computation : Machine α) : Prop :=
  ∀ store : Store, Outcome.IsFinished (watched store) → computation store = watched store

namespace Cuts

variable {α β : Type} {watched computation : Machine α}

theorem refl (computation : Machine α) : Cuts computation computation := fun _ _ => rfl

theorem notice_bind (event : Event) (computation : Machine α) :
    Cuts (notice watch event >>= fun _ => computation) computation := by
  intro store hfinished
  rw [notice_bind_eq] at hfinished ⊢
  split at hfinished
  · exact absurd rfl hfinished
  · next hpasses => rw [if_neg hpasses]

theorem bind_first {next : α → Machine β} (hfirst : Cuts watched computation) :
    Cuts (watched >>= next) (computation >>= next) := by
  intro store hfinished
  cases hwatched : watched store with
  | ok value between =>
    have heq := hfirst store (hwatched ▸ trivial)
    rw [bind_of_ok hwatched, bind_of_ok (heq.trans hwatched)]
  | error interrupt between =>
    rw [bind_of_error hwatched] at hfinished ⊢
    have heq := hfirst store (hwatched ▸ hfinished)
    rw [bind_of_error (heq.trans hwatched)]

theorem bind_next {next next' : α → Machine β} (hnext : ∀ value, Cuts (next value) (next' value)) :
    Cuts (computation >>= next) (computation >>= next') := by
  intro store hfinished
  cases hfirst : computation store with
  | ok value between =>
    rw [bind_of_ok hfirst] at hfinished ⊢
    rw [bind_of_ok hfirst]
    exact hnext value between hfinished
  | error interrupt between => rw [bind_of_error hfirst, bind_of_error hfirst]

theorem map {function : α → β} (hfirst : Cuts watched computation) :
    Cuts (function <$> watched) (function <$> computation) := by
  simp only [map_eq_pure_bind]
  exact hfirst.bind_first

theorem forM {each each' : α → Machine PUnit} (heach : ∀ item, Cuts (each item) (each' item))
    (items : List α) : Cuts (items.forM each) (items.forM each') := by
  induction items with
  | nil => exact refl _
  | cons item rest ih =>
    intro store hfinished
    have hrest : Cuts (each item >>= fun _ => rest.forM each)
        (each item >>= fun _ => rest.forM each') := bind_next fun _ => ih
    have hfirst : Cuts (each item >>= fun _ => rest.forM each')
        (each' item >>= fun _ => rest.forM each') := (heach item).bind_first
    have heq := hrest store hfinished
    exact (hfirst store (heq ▸ hfinished)).trans heq

/-- What does as a computation does that is not cut, does as the one that is. -/
theorem isRepeated {watched computation : Machine Datum} {family : Nat → Machine Datum}
    (hcuts : Cuts watched computation) (hrepeated : Reference.IsRepeated computation family) :
    Reference.IsRepeated watched family where
  run := by
    intro store hstart hfinished
    have heq := hcuts store hfinished
    rw [← heq] at hfinished ⊢
    exact hrepeated.run hstart hfinished

end Cuts

theorem cuts_of_isRepeated {watched computation : Machine Datum}
    (hrepeated : Reference.IsRepeated watched fun _ => computation) : Cuts watched computation := by
  intro store hfinished
  obtain ⟨least, hrun⟩ := hrepeated.eq_of_isFinished hfinished
  exact hrun least (Nat.le_refl least)

theorem cuts_loadTarget (limit : Nat) (target : Datum) :
    Cuts (loadTarget watch context frame limit target)
      (Machine.loadTarget context frame limit target) := by
  induction limit generalizing target with
  | zero => exact .refl _
  | succ limit ih =>
    cases target with
    | str name => exact .notice_bind watch _ _
    | quoted name => exact .notice_bind watch _ _
    | pair label head tail =>
      unfold loadTarget Machine.loadTarget
      simp only
      split
      · exact .forM ih _
      · exact .refl _
    | _ => exact .refl _

theorem cuts_evaluateLoad (operands : List Datum) :
    Cuts (evaluateLoad watch context frame operands)
      (Machine.evaluateLoad context frame operands) := by
  match operands with
  | [operand] =>
    refine .bind_next fun target => ?_
    exact (cuts_loadTarget watch context frame context.limit target).bind_first
  | [] | _ :: _ :: _ => exact .refl _

theorem cuts_evaluateSpecial (operands : List Datum) (form : SpecialForm) :
    Cuts (evaluateSpecial watch context frame operands form)
      (Machine.evaluateSpecial context frame operands form) := by
  rw [evaluateSpecial]
  split
  · next hload =>
    subst hload
    exact (cuts_evaluateLoad watch context frame operands).map
  · exact .refl _

theorem cuts_step (expression : Datum) :
    Cuts (step watch context expression frame) (Machine.step context expression frame) := by
  cases expression with
  | form label items =>
    cases items with
    | nil => exact .refl _
    | cons head operands =>
      rw [step_form, Machine.step_form]
      cases head.specialForm? with
      | some form => exact cuts_evaluateSpecial watch context frame operands form
      | none =>
        refine .bind_next fun callee => .bind_next fun arguments => ?_
        exact .notice_bind watch _ _
  | _ => exact .refl _

variable {watch context}

theorem isRepeated_iterate {family : Nat → Datum → FrameId → Machine Datum}
    (hinner : ∀ expression frame, Reference.IsRepeated (context.evaluate expression frame)
      fun number => family number expression frame) (steps : Nat) (expression : Datum)
    (frame : FrameId) :
    Reference.IsRepeated (iterate (step watch context) steps expression frame) fun number =>
      iterate (Machine.step { context with evaluate := family number }) steps expression frame := by
  induction steps generalizing expression frame with
  | zero => exact .outOfSteps
  | succ steps ih =>
    simp only [iterate_succ]
    refine (cuts_step watch context frame expression).bind_first.isRepeated ?_
    exact Reference.isRepeated_step frame hinner ih expression

theorem isRepeated_evaluate (host : Host) (steps limit : Nat) (expression : Datum)
    (frame : FrameId) :
    Reference.IsRepeated (evaluate watch host steps limit expression frame) fun _ =>
      Machine.evaluate host steps limit expression frame := by
  induction limit generalizing expression frame with
  | zero => exact Reference.isRepeated_throw .tooDeep
  | succ limit ih => exact isRepeated_iterate ih steps expression frame

theorem cuts_evaluate (host : Host) (steps limit : Nat) (expression : Datum) (frame : FrameId) :
    Cuts (evaluate watch host steps limit expression frame)
      (Machine.evaluate host steps limit expression frame) :=
  cuts_of_isRepeated (isRepeated_evaluate host steps limit expression frame)

/-- The computation comes to something that is watched: it ends, but under watch it is stopped. -/
def Stops {α : Type} (watched family : Nat → Machine α) (store : Store) : Prop :=
  ∃ steps, Outcome.IsFinished (family steps store) ∧ ¬ Outcome.IsFinished (watched steps store)

/-- A computation that comes to nothing that is watched ends with the same outcome under watch. -/
theorem endsWith_of_not_stops {α : Type} {watched family : Nat → Machine α} {store : Store}
    {outcome : Outcome α} (hcuts : ∀ steps, Cuts (watched steps) (family steps))
    (hends : EndsWith family store outcome) (hunstopped : ¬ Stops watched family store) :
    EndsWith watched store outcome := by
  obtain ⟨hfinished, steps, rfl⟩ := hends
  have hwatched : Outcome.IsFinished (watched steps store) := by
    by_contra hstopped
    exact hunstopped ⟨steps, hfinished, hstopped⟩
  exact ⟨hfinished, steps, (hcuts steps store hwatched).symm⟩

/-- The evaluation comes to something that is watched. -/
def Meets (watch : Watch) (host : Host) (limit : Nat) (expression : Datum) (frame : FrameId) :
    Store → Prop :=
  Stops (fun steps => evaluate watch host steps limit expression frame)
    fun steps => Machine.evaluate host steps limit expression frame

/-! ### Nothing else is changed -/

section Unwatched

variable (hunwatched : ∀ event store, watch event store = false)

include hunwatched

theorem notice_bind_of_unwatched {α : Type} (event : Event) (computation : Machine α) :
    (notice watch event >>= fun _ => computation) = computation := by
  funext store
  rw [notice_bind_eq, hunwatched]
  rfl

theorem loadTarget_of_unwatched (limit : Nat) (target : Datum) :
    loadTarget watch context frame limit target =
      Machine.loadTarget context frame limit target := by
  induction limit generalizing target with
  | zero => rfl
  | succ limit ih =>
    cases target with
    | str name => exact notice_bind_of_unwatched hunwatched _ _
    | quoted name => exact notice_bind_of_unwatched hunwatched _ _
    | pair label head tail =>
      unfold loadTarget Machine.loadTarget
      rw [funext ih]
    | _ => rfl

theorem step_of_unwatched (expression : Datum) :
    step watch context expression frame = Machine.step context expression frame := by
  have hload : ∀ operands : List Datum, evaluateLoad watch context frame operands =
      Machine.evaluateLoad context frame operands := by
    intro operands
    match operands with
    | [operand] =>
      simp only [evaluateLoad, Machine.evaluateLoad, loadTarget_of_unwatched frame hunwatched]
    | [] | _ :: _ :: _ => rfl
  have happlication : ∀ (operator : Datum) (operands : List Datum),
      evaluateApplication watch context frame operator operands =
        Machine.evaluateApplication context frame operator operands := by
    intro operator operands
    unfold evaluateApplication Machine.evaluateApplication
    simp only [notice_bind_of_unwatched hunwatched]
  cases expression with
  | form label items =>
    cases items with
    | nil => rfl
    | cons head operands =>
      rw [step_form, Machine.step_form]
      cases head.specialForm? with
      | some form =>
        simp only [evaluateSpecial, hload]
        split
        · next heq =>
          subst heq
          rfl
        · rfl
      | none => exact happlication head operands
  | _ => rfl

/-- Where nothing is watched, a watch changes nothing. -/
theorem evaluate_of_unwatched (host : Host) (steps limit : Nat) :
    evaluate watch host steps limit = Machine.evaluate host steps limit := by
  induction limit with
  | zero => rfl
  | succ limit ih =>
    funext expression frame
    rw [evaluate, Machine.evaluate, ih]
    congr
    funext expression frame
    exact step_of_unwatched frame hunwatched expression

end Unwatched

end Watched

/-! ### Rules that are obeyed under watch -/

/-- The rules are not against an event in a store. -/
def Discipline.Allows (rules : Discipline) (host : Host) (store : Store) : Event → Prop
  | .call callee arguments => rules.AllowsCall store callee arguments
  | .load name => rules.AllowsLoad host name

/-- The rules are against nothing but what is watched. -/
def Watch.Guards (watch : Watch) (rules : Discipline) (host : Host) : Prop :=
  ∀ ⦃event : Event⦄ ⦃store : Store⦄, rules.holds store → watch event store = false →
    rules.Allows host store event

namespace Watched

variable {rules : Discipline} {watch : Watch} {context : Context} {store : Store} {frame : FrameId}

theorem obeys_notice_bind {α : Type} {computation : Machine α} {good : α → Prop} {host : Host}
    {event : Event} (hguards : watch.Guards rules host) (hholds : rules.holds store)
    (hcomputation : rules.Allows host store event → Obeys rules store computation good) :
    Obeys rules store (notice watch event >>= fun _ => computation) good := by
  cases hwatch : watch event store with
  | true =>
    have hstop : (notice watch event >>= fun _ => computation) store =
        .error .outOfSteps store := by
      rw [notice_bind_eq, if_pos hwatch]
    exact .of_error hstop hholds trivial
  | false =>
    refine (hcomputation (hguards hholds hwatch)).congr ?_
    rw [notice_bind_eq, hwatch]
    rfl

theorem obeys_loadTarget (hcontext : context.IsObedient rules)
    (hguards : watch.Guards rules context.host) (hholds : rules.holds store)
    (hframe : rules.mayUse frame) (limit : Nat) (target : Datum) :
    Obeys rules store (loadTarget watch context frame limit target) := by
  induction limit generalizing store target with
  | zero => exact .throw hholds trivial
  | succ limit ih =>
    unfold loadTarget
    split
    · exact obeys_notice_bind hguards hholds (obeys_loadLeniently hcontext hholds hframe)
    · exact obeys_notice_bind hguards hholds (obeys_loadLeniently hcontext hholds hframe)
    · exact .pure hholds trivial
    · split
      · exact .forM hholds _ fun _ item hholds => ih hholds item
      · exact obeys_failPrinting hholds _ _ _

theorem obeys_evaluateLoad (hcontext : context.IsObedient rules)
    (hguards : watch.Guards rules context.host) (hholds : rules.holds store)
    (hframe : rules.mayUse frame) (operands : List Datum) :
    Obeys rules store (evaluateLoad watch context frame operands) := by
  unfold evaluateLoad
  split
  · refine (hcontext hholds hframe _).bind fun _ target hholds _ => ?_
    exact (obeys_loadTarget hcontext hguards hholds hframe _ target).bind fun _ _ hholds _ =>
      .pure hholds trivial
  · exact .fail hholds _

theorem obeys_evaluateSpecial (hcontext : context.IsObedient rules)
    (hguards : watch.Guards rules context.host) (hholds : rules.holds store)
    (hframe : rules.mayUse frame) (operands : List Datum) (form : SpecialForm) :
    Obeys rules store (evaluateSpecial watch context frame operands form)
      (Step.IsAllowed rules) := by
  rw [evaluateSpecial]
  split
  · exact obeys_done (obeys_evaluateLoad hcontext hguards hholds hframe operands)
  · next hload => exact Machine.obeys_evaluateSpecial hcontext hholds hframe operands hload

theorem obeys_evaluateApplication (hcontext : context.IsObedient rules)
    (hguards : watch.Guards rules context.host) (hholds : rules.holds store)
    (hframe : rules.mayUse frame) (operator : Datum) (operands : List Datum) :
    Obeys rules store (evaluateApplication watch context frame operator operands)
      (Step.IsAllowed rules) := by
  refine (hcontext hholds hframe operator).bind fun _ callee hholds _ => ?_
  have harguments : Obeys rules _ (operands.mapM fun operand => context.evaluate operand frame) :=
    .mapM hholds operands fun _ operand hholds => hcontext hholds hframe operand
  refine harguments.bind fun _ arguments hholds _ => ?_
  exact obeys_notice_bind hguards hholds (obeys_applyProcedure hcontext hholds)

theorem obeys_step (hcontext : context.IsObedient rules)
    (hguards : watch.Guards rules context.host) (hholds : rules.holds store)
    (hframe : rules.mayUse frame) (expression : Datum) :
    Obeys rules store (step watch context expression frame) (Step.IsAllowed rules) := by
  cases expression with
  | absent | empty => exact .pure hholds trivial
  | int value =>
    exact (obeys_numberOfInteger hholds value).bind fun _ _ hholds _ => .pure hholds trivial
  | symbol name =>
    exact (obeys_lookup hholds frame name).bind fun _ _ hholds _ => .pure hholds trivial
  | form label items =>
    cases items with
    | nil => exact .pure hholds trivial
    | cons head operands =>
      rw [step_form]
      cases head.specialForm? with
      | some form => exact obeys_evaluateSpecial hcontext hguards hholds hframe operands form
      | none => exact obeys_evaluateApplication hcontext hguards hholds hframe head operands
  | _ => exact .pure hholds trivial

theorem obeys_iterate (hcontext : context.IsObedient rules)
    (hguards : watch.Guards rules context.host) (hholds : rules.holds store)
    (hframe : rules.mayUse frame) (steps : Nat) (expression : Datum) :
    Obeys rules store (iterate (step watch context) steps expression frame) := by
  induction steps generalizing store expression frame with
  | zero => exact .throw hholds trivial
  | succ steps ih =>
    rw [iterate_succ]
    refine (obeys_step hcontext hguards hholds hframe expression).bind ?_
    intro _ next hholds hnext
    cases next with
    | done value => exact .pure hholds trivial
    | proceed expression frame => exact ih hholds hnext expression

/-- Under watch, an evaluation in a frame that may be used obeys the rules. -/
theorem obeys_evaluate {host : Host} (hguards : watch.Guards rules host) (steps limit : Nat)
    (hholds : rules.holds store) (hframe : rules.mayUse frame) (expression : Datum) :
    Obeys rules store (evaluate watch host steps limit expression frame) := by
  induction limit generalizing store expression frame with
  | zero => exact .throw hholds trivial
  | succ limit ih =>
    let context : Context := { host, limit, evaluate := evaluate watch host steps limit }
    have hcontext : context.IsObedient rules := fun _ _ hholds hframe expression =>
      ih hholds hframe expression
    exact obeys_iterate hcontext hguards hholds hframe steps expression

end Watched

end SmallScheme
