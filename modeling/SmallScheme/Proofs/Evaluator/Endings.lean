import SmallScheme.Proofs.Evaluator.TailCalls
import SmallScheme.Proofs.Soundness.Reachable
/-!
# How composed evaluations end

An evaluation ends with an outcome if it does so once it has steps enough. For what is composed of
evaluations, this is a matter of how the parts end: each of them may need steps of its own, and more
steps do no harm. Here it is for a step and what comes after it, for parts one after the other, and
for the expressions of a body.
-/

namespace SmallScheme

open Machine

namespace Machine

section

variable {α β : Type} {family first : Nat → Machine α} {next : Nat → α → Machine β} {store : Store}

/-- Once a member of the family has steps enough to end, those with more steps end as it does. -/
def Steady (family : Nat → Machine α) : Prop :=
  ∀ ⦃steps more : Nat⦄, steps ≤ more → ∀ store, Outcome.IsFinished (family steps store) →
    family more store = family steps store

theorem steady_const (computation : Machine α) : Steady fun _ => computation :=
  fun _ _ _ _ _ => rfl

/-- What only repeats the members with fewer steps is steady. -/
theorem steady_of_simulates {image : α → α} (himage : ∀ value, image value = value)
    (hsimulates : ∀ ⦃steps more : Nat⦄, steps ≤ more →
      Simulates .zero image (family steps) fun _ => family more) : Steady family := by
  intro steps more hle store hfinished
  obtain ⟨-, least, hrun⟩ := (hsimulates hle).run (Nat.zero_le store.nextLabel) hfinished
  have hmore := hrun least (Nat.le_refl least)
  rw [Store.relabel_zero] at hmore
  rw [hmore]
  cases family steps store with
  | ok value after => rw [Outcome.relabel, himage, Store.relabel_zero]
  | error interrupt after => rw [Outcome.relabel, Interrupt.relabel_zero, Store.relabel_zero]

theorem Steady.bind (hfirst : Steady first)
    (hnext : ∀ value, Steady fun steps => next steps value) :
    Steady fun steps => first steps >>= next steps := by
  intro steps more hle store hfinished
  dsimp only at hfinished ⊢
  cases hrun : first steps store with
  | ok value between =>
    rw [bind_of_ok hrun] at hfinished ⊢
    rw [bind_of_ok ((hfirst hle store (by rw [hrun]; trivial)).trans hrun)]
    exact hnext value hle between hfinished
  | error interrupt between =>
    rw [bind_of_error hrun] at hfinished ⊢
    exact bind_of_error ((hfirst hle store (by rw [hrun]; exact hfinished)).trans hrun)

theorem EndsWith.eventually (hsteady : Steady family) {outcome : Outcome α}
    (hends : EndsWith family store outcome) :
    ∃ least, ∀ steps ≥ least, family steps store = outcome := by
  obtain ⟨hfinished, least, rfl⟩ := hends
  exact ⟨least, fun steps hle => hsteady hle store hfinished⟩

theorem EndsWith.unique (hsteady : Steady family) {left right : Outcome α}
    (hleft : EndsWith family store left) (hright : EndsWith family store right) : left = right := by
  obtain ⟨leftLeast, hleft⟩ := hleft.eventually hsteady
  obtain ⟨rightLeast, hright⟩ := hright.eventually hsteady
  exact (hleft _ (Nat.le_max_left ..)).symm.trans (hright _ (Nat.le_max_right ..))

/-- What comes to the same outcome with any number of steps. -/
theorem endsWith_iff_of_forall_eq (result : Outcome α) (hfinished : Outcome.IsFinished result)
    (hrun : ∀ steps, family steps store = result) {outcome : Outcome α} :
    EndsWith family store outcome ↔ outcome = result := by
  constructor
  · rintro ⟨-, steps, heq⟩
    exact heq.symm.trans (hrun steps)
  · rintro rfl
    exact ⟨hfinished, 0, hrun 0⟩

theorem endsWith_pure_iff {value : α} {outcome : Outcome α} :
    EndsWith (fun _ => pure value) store outcome ↔ outcome = .ok value store :=
  endsWith_iff_of_forall_eq (.ok value store) trivial fun _ => rfl

theorem endsWith_throw_iff {interrupt : Interrupt} (hfinished : interrupt ≠ .outOfSteps)
    {outcome : Outcome α} :
    EndsWith (fun _ => throw interrupt) store outcome ↔ outcome = .error interrupt store :=
  endsWith_iff_of_forall_eq (.error interrupt store) hfinished fun _ => rfl

/-- Two parts, one after the other, end as the second one does in the store that the first one
leaves, or as the first one does if it is interrupted. -/
theorem endsWith_bind_iff (hfirst : Steady first)
    (hnext : ∀ value, Steady fun steps => next steps value) {outcome : Outcome β} :
    EndsWith (fun steps => first steps >>= next steps) store outcome ↔
      (∃ value between, EndsWith first store (.ok value between) ∧
        EndsWith (fun steps => next steps value) between outcome) ∨
      ∃ interrupt after, EndsWith first store (.error interrupt after) ∧
        outcome = .error interrupt after := by
  constructor
  · rintro ⟨hfinished, steps, rfl⟩
    dsimp only at hfinished ⊢
    cases hrun : first steps store with
    | ok value between =>
      rw [bind_of_ok hrun] at hfinished ⊢
      exact .inl ⟨value, between, ⟨trivial, steps, hrun⟩, hfinished, steps, rfl⟩
    | error interrupt after =>
      rw [bind_of_error hrun] at hfinished ⊢
      exact .inr ⟨interrupt, after, ⟨hfinished, steps, hrun⟩, rfl⟩
  · rintro (⟨value, between, hvalue, hrest⟩ | ⟨interrupt, after, ⟨hfinished, steps, hrun⟩, rfl⟩)
    · obtain ⟨firstLeast, hrun⟩ := hvalue.eventually hfirst
      obtain ⟨restLeast, hothers⟩ := hrest.eventually (hnext value)
      refine ⟨hrest.1, max firstLeast restLeast, ?_⟩
      exact (bind_of_ok (hrun _ (Nat.le_max_left ..))).trans (hothers _ (Nat.le_max_right ..))
    · exact ⟨hfinished, steps, bind_of_error hrun⟩

/-- What comes after a first part that is known to have a value. -/
theorem endsWith_bind_of_ok (hfirst : Steady first)
    (hnext : ∀ value, Steady fun steps => next steps value) {value : α} {between : Store}
    (hvalue : EndsWith first store (.ok value between)) {outcome : Outcome β} :
    EndsWith (fun steps => first steps >>= next steps) store outcome ↔
      EndsWith (fun steps => next steps value) between outcome := by
  rw [endsWith_bind_iff hfirst hnext]
  constructor
  · rintro (⟨other, after, hother, hrest⟩ | ⟨interrupt, after, hother, -⟩)
    · cases hother.unique hfirst hvalue
      exact hrest
    · cases hother.unique hfirst hvalue
  · exact fun hrest => .inl ⟨value, between, hvalue, hrest⟩

/-- A part whose value is made into another one. -/
theorem endsWith_map_iff (hfirst : Steady first) (function : α → β) {outcome : Outcome β} :
    EndsWith (fun steps => first steps >>= fun value => pure (function value)) store outcome ↔
      (∃ value after, EndsWith first store (.ok value after) ∧
        outcome = .ok (function value) after) ∨
      ∃ interrupt after, EndsWith first store (.error interrupt after) ∧
        outcome = .error interrupt after := by
  refine (endsWith_bind_iff hfirst fun value => steady_const (pure (function value))).trans
    (or_congr_left ?_)
  refine exists_congr fun value => exists_congr fun after => and_congr_right fun _ => ?_
  exact endsWith_pure_iff

end

/-! ### Evaluations -/

variable {host : Host} {limit : Nat} {frame : FrameId} {store : Store} {outcome : Outcome Datum}

theorem isSimulated_contextWithin (host : Host) (limit : Nat) {steps more : Nat}
    (hle : steps ≤ more) :
    (Interpreter.contextWithin host steps limit).IsSimulated .zero fun _ =>
      evaluate host more limit :=
  simulates_evaluate host steps (fun _ => hle) limit

theorem steady_evaluate (host : Host) (limit : Nat) (expression : Datum) (frame : FrameId) :
    Steady fun steps => evaluate host steps limit expression frame :=
  fun _ _ hle _ hfinished => evaluate_of_le hle hfinished

/-- An evaluation ends as its first step and what comes after that. -/
theorem endsWith_evaluate_iff {expression : Datum} :
    EndsWith (fun steps => evaluate host steps (limit + 1) expression frame) store outcome ↔
      EndsWith (fun steps => step (Interpreter.contextWithin host steps limit) expression frame >>=
        Step.finish (evaluate host steps (limit + 1))) store outcome := by
  constructor
  · rintro ⟨hfinished, steps, rfl⟩
    cases steps with
    | zero => exact absurd rfl hfinished
    | succ count =>
      let context := Interpreter.contextWithin host (count + 1) limit
      -- what comes after the step has one step less than it may have
      have hlater : ∀ expression frame, Reference.IsRepeated
          (iterate (step context) count expression frame) fun _ =>
            evaluate host (count + 1) (limit + 1) expression frame := by
        intro expression frame
        have hcontext : context.IsSimulated .zero fun _ => evaluate host (count + 1) limit :=
          isSimulated_contextWithin host limit (Nat.le_refl _)
        have hiterate := simulates_iterate hcontext count (fun _ => Nat.le_succ count) expression
          frame
        rwa [Datum.relabel_zero] at hiterate
      have hrepeated : Reference.IsRepeated
          (step context expression frame >>= Step.finish (iterate (step context) count))
          fun _ => step context expression frame >>=
            Step.finish (evaluate host (count + 1) (limit + 1)) :=
        Reference.isRepeated_step frame
          (fun expression frame => Reference.isRepeated_refl (context.evaluate expression frame))
          hlater expression
      obtain ⟨least, hrun⟩ := hrepeated.eq_of_isFinished hfinished
      exact ⟨hfinished, count + 1, hrun least (Nat.le_refl least)⟩
  · rintro ⟨hfinished, steps, rfl⟩
    let context := Interpreter.contextWithin host steps limit
    have hrepeated : Reference.IsRepeated
        (step context expression frame >>= Step.finish (evaluate host steps (limit + 1)))
        fun more => evaluate host more (limit + 1) expression frame :=
      Reference.isRepeated_of_step frame (Reference.isRepeated_step frame
        (Configuration.isRepeated_with_steps host steps limit)
        (Configuration.isRepeated_with_steps host steps (limit + 1)) expression)
    obtain ⟨least, hrun⟩ := hrepeated.eq_of_isFinished hfinished
    exact ⟨hfinished, least, hrun least (Nat.le_refl least)⟩

end Machine

/-! ### Bodies -/

namespace Configuration

/-- The expressions of a body are evaluated in turn, the last one in the place of all of them. -/
inductive EvaluatesBody (host : Host) (limit : Nat) (frame : FrameId) :
    List Datum → Store → Outcome Datum → Prop where
  | nil {store : Store} : EvaluatesBody host limit frame [] store (.ok .unspecified store)
  | last {expression : Datum} {store : Store} {outcome : Outcome Datum}
    (hlast : EndsWith host (limit + 1) ⟨expression, frame, store⟩ outcome) :
    EvaluatesBody host limit frame [expression] store outcome
  | cons {expression next value : Datum} {rest : List Datum} {store between : Store}
    {outcome : Outcome Datum}
    (hfirst : EndsWith host limit ⟨expression, frame, store⟩ (.ok value between))
    (hrest : EvaluatesBody host limit frame (next :: rest) between outcome) :
    EvaluatesBody host limit frame (expression :: next :: rest) store outcome
  | interrupted {expression next : Datum} {rest : List Datum} {store after : Store}
    {interrupt : Interrupt}
    (hfirst : EndsWith host limit ⟨expression, frame, store⟩ (.error interrupt after)) :
    EvaluatesBody host limit frame (expression :: next :: rest) store (.error interrupt after)

end Configuration

namespace Reference

theorem evaluateBegin_cons (context : Context) (last : Datum → FrameId → Machine Datum)
    (frame : FrameId) (expression next : Datum) (rest : List Datum) :
    evaluateBegin context last frame (expression :: next :: rest) =
      context.evaluate expression frame >>= fun _ =>
        evaluateBegin context last frame (next :: rest) := by
  rw [evaluateBegin]
  · simp only [discard, LawfulFunctor.map_const, Function.comp_apply, Function.const,
      map_eq_pure_bind, bind_assoc, pure_bind]
  · rintro ⟨⟩

end Reference

namespace Configuration

variable {host : Host} {limit : Nat} {frame : FrameId} {store : Store} {outcome : Outcome Datum}

theorem steady_evaluateBegin (host : Host) (limit : Nat) (frame : FrameId)
    (expressions : List Datum) :
    Steady fun steps => Reference.evaluateBegin (Interpreter.contextWithin host steps limit)
      (evaluate host steps (limit + 1)) frame expressions := by
  induction expressions with
  | nil => exact steady_const _
  | cons expression rest ih =>
    cases rest with
    | nil => exact steady_evaluate host (limit + 1) expression frame
    | cons next rest =>
      simp only [Reference.evaluateBegin_cons]
      exact (steady_evaluate host limit expression frame).bind fun _ => ih

theorem endsWith_evaluateBegin_iff {expressions : List Datum} :
    Machine.EndsWith (fun steps =>
      Reference.evaluateBegin (Interpreter.contextWithin host steps limit)
        (evaluate host steps (limit + 1)) frame expressions) store outcome ↔
      EvaluatesBody host limit frame expressions store outcome := by
  induction expressions generalizing store with
  | nil =>
    refine endsWith_pure_iff.trans ⟨?_, ?_⟩
    · rintro rfl
      exact .nil
    · rintro ⟨⟩
      rfl
  | cons expression rest ih =>
    cases rest with
    | nil =>
      refine ⟨.last, ?_⟩
      rintro ⟨⟩
      assumption
    | cons next rest =>
      simp only [Reference.evaluateBegin_cons]
      refine (endsWith_bind_iff (steady_evaluate host limit expression frame)
        fun _ => steady_evaluateBegin host limit frame (next :: rest)).trans ⟨?_, ?_⟩
      · rintro (⟨value, between, hfirst, hrest⟩ | ⟨interrupt, after, hfirst, rfl⟩)
        · exact .cons hfirst (ih.1 hrest)
        · exact .interrupted hfirst
      · rintro (_ | _ | ⟨hfirst, hrest⟩ | hfirst)
        · exact .inl ⟨_, _, hfirst, ih.2 hrest⟩
        · exact .inr ⟨_, _, hfirst, rfl⟩

/-- A special form that is evaluated at once ends as its rule does. -/
theorem endsWith_special_iff {label : Option Label} {form : SpecialForm} {operands : List Datum}
    (computation : Context → Machine Datum)
    (hrule : ∀ context,
      evaluateSpecial context frame operands form = .done <$> computation context) :
    EndsWith host (limit + 1) ⟨.form label (.keyword form :: operands), frame, store⟩ outcome ↔
      Machine.EndsWith (fun steps => computation (Interpreter.contextWithin host steps limit)) store
        outcome := by
  refine endsWith_evaluate_iff.trans ?_
  simp only [step_keyword, hrule, Step.done_map_finish]

/-- A sequence ends as its expressions do in turn. -/
theorem endsWith_begin_iff {label : Option Label} {expressions : List Datum} :
    EndsWith host (limit + 1) ⟨.form label (.keyword .begin :: expressions), frame, store⟩ outcome ↔
      EvaluatesBody host limit frame expressions store outcome := by
  refine endsWith_evaluate_iff.trans ?_
  simp only [step_keyword]
  change Machine.EndsWith (fun steps =>
    evaluateBegin (Interpreter.contextWithin host steps limit) frame expressions >>=
      Step.finish (evaluate host steps (limit + 1))) store outcome ↔ _
  simp only [← Reference.evaluateBegin_eq]
  exact endsWith_evaluateBegin_iff

/-- A body ends as its expressions do in turn. -/
theorem endsWith_ofBody_iff {body : List Datum} :
    EndsWith host (limit + 1) ⟨.ofBody body, frame, store⟩ outcome ↔
      EvaluatesBody host limit frame body store outcome := by
  cases body with
  | nil =>
    refine endsWith_evaluate_iff.trans (endsWith_pure_iff.trans ⟨?_, ?_⟩)
    · rintro rfl
      exact .nil
    · rintro ⟨⟩
      rfl
  | cons expression rest =>
    cases rest with
    | nil =>
      refine ⟨.last, ?_⟩
      rintro ⟨⟩
      assumption
    | cons next rest => exact endsWith_begin_iff

end Configuration

end SmallScheme
