import SmallScheme.Proofs.Comparison.Evaluator
import SmallScheme.Proofs.Evaluator.Reference
/-!
# Evaluation at different depth limits

Getting too deep is not always the end: it is a fault of a form for whoever runs several of them,
and that is reported, so a larger limit can change what comes after it. But an evaluation that never
gets too deep, at any point, does not show its limit: with every larger one it ends in the same way.
-/

namespace SmallScheme

open Machine

/-! ### Evaluation that never gets too deep -/

/-- The interrupt that nothing handles in place of the one for depth. -/
def Interrupt.givingUp : Interrupt → Interrupt
  | .tooDeep => .outOfSteps
  | interrupt => interrupt

/-- Give up on what gets too deep. -/
def Machine.unforgiving {α : Type} (computation : Machine α) : Machine α :=
  tryCatch computation fun interrupt => throw interrupt.givingUp

namespace Unforgiving

/-- Evaluate an expression; there is no outcome if anything in the evaluation gets too deep, be it
handled there or not. -/
def evaluate (host : Host) (steps : Nat) : Nat → Datum → FrameId → Machine Datum
  | 0, _, _ => throw .outOfSteps
  | limit + 1, expression, frame =>
    unforgiving (iterate (step { host, limit, evaluate := evaluate host steps limit }) steps
      expression frame)

/-- The surroundings of an interpreter that never gets too deep. -/
def contextWithin (host : Host) (steps limit : Nat) : Context where
  host := host
  limit := limit
  evaluate := evaluate host steps limit

def serve (host : Host) (steps limit : Nat) (request : Interpreter.Request) : Machine Datum :=
  unforgiving (request.serve (contextWithin host steps limit))

end Unforgiving

/-! ### The comparison with a larger limit -/

namespace Outcome

variable {α : Type}

/-- Neither depth nor steps are the end. -/
def IsUncut : Outcome α → Prop
  | .ok .. => True
  | .error interrupt _ => interrupt ≠ .tooDeep ∧ interrupt ≠ .outOfSteps

end Outcome

namespace Machine

variable {α β : Type} {good : α → Prop} {left right : Machine α}

/-- Unless the first computation is cut off, the second one does the same. -/
def Outlasts (good : α → Prop) (left right : Machine α) : Prop :=
  ∀ store, Outcome.IsUncut (left store) → right store = left store ∧
    ∀ value after, left store = .ok value after → good value

theorem Outlasts.refl {computation : Machine α}
    (hgood : ∀ store value after, computation store = .ok value after → good value) :
    Outlasts good computation computation :=
  fun store _ => ⟨rfl, hgood store⟩

theorem outlasts_throw (interrupt : Interrupt) :
    Outlasts good (throw interrupt) (throw interrupt) :=
  .refl fun _ _ _ hrun => by cases hrun

theorem Outlasts.bind {post : β → Prop} {next next' : α → Machine β}
    (hfirst : Outlasts good left right)
    (hnext : ∀ value, good value → Outlasts post (next value) (next' value)) :
    Outlasts post (left >>= next) (right >>= next') := by
  intro store huncut
  cases hleft : left store with
  | ok value between =>
    obtain ⟨heq, hgood⟩ := hfirst store (by rw [hleft]; trivial)
    rw [bind_of_ok hleft] at huncut ⊢
    rw [bind_of_ok (heq.trans hleft)]
    exact hnext value (hgood value between hleft) between huncut
  | error interrupt between =>
    rw [bind_of_error hleft] at huncut ⊢
    obtain ⟨heq, -⟩ := hfirst store (by rw [hleft]; exact huncut)
    rw [bind_of_error (heq.trans hleft)]
    exact ⟨rfl, by rintro _ _ ⟨⟩⟩

/-- A handler must not hide that the first computation is cut off. -/
theorem Outlasts.tryCatch {handler : Interrupt → Machine α} (hfirst : Outlasts good left right)
    (hhandler : ∀ interrupt, interrupt ≠ .tooDeep ∧ interrupt ≠ .outOfSteps →
      Outlasts good (handler interrupt) (handler interrupt))
    (hcut : ∀ interrupt store after, left store = .error interrupt after →
      ¬ (interrupt ≠ .tooDeep ∧ interrupt ≠ .outOfSteps) →
        ¬ Outcome.IsUncut (handler interrupt after)) :
    Outlasts good (tryCatch left handler) (MonadExcept.tryCatch right handler) := by
  intro store huncut
  cases hleft : left store with
  | ok value between =>
    obtain ⟨heq, hgood⟩ := hfirst store (by rw [hleft]; trivial)
    rw [tryCatch_of_ok hleft, tryCatch_of_ok (heq.trans hleft)]
    refine ⟨rfl, ?_⟩
    rintro _ _ ⟨⟩
    exact hgood value between hleft
  | error interrupt between =>
    rw [tryCatch_of_error hleft] at huncut ⊢
    by_cases hinterrupt : interrupt ≠ .tooDeep ∧ interrupt ≠ .outOfSteps
    · obtain ⟨heq, -⟩ := hfirst store (by rw [hleft]; exact hinterrupt)
      rw [tryCatch_of_error (heq.trans hleft)]
      exact hhandler interrupt hinterrupt between huncut
    · exact absurd huncut (hcut interrupt store between hleft hinterrupt)

theorem isFinished_unforgiving_iff {computation : Machine α} {store : Store} :
    Outcome.IsFinished (unforgiving computation store) ↔
      Outcome.IsUncut (computation store) := by
  cases hrun : computation store with
  | ok value after => rw [unforgiving, tryCatch_of_ok hrun]; exact Iff.rfl
  | error interrupt after =>
    rw [unforgiving, tryCatch_of_error hrun]
    change interrupt.givingUp ≠ .outOfSteps ↔ interrupt ≠ .tooDeep ∧ interrupt ≠ .outOfSteps
    cases interrupt <;> simp [Interrupt.givingUp]

theorem unforgiving_of_isUncut {computation : Machine α} {store : Store}
    (huncut : Outcome.IsUncut (computation store)) :
    unforgiving computation store = computation store := by
  cases hrun : computation store with
  | ok value after => exact tryCatch_of_ok hrun
  | error interrupt after =>
    rw [hrun] at huncut
    refine (tryCatch_of_error hrun).trans ?_
    cases interrupt with
    | tooDeep => exact absurd rfl huncut.1
    | _ => rfl

theorem unforgiving_ne_tooDeep (computation : Machine α) (store after : Store) :
    unforgiving computation store ≠ .error .tooDeep after := by
  intro hend
  have huncut : Outcome.IsUncut (computation store) := by
    rw [← isFinished_unforgiving_iff, hend]
    rintro ⟨⟩
  rw [unforgiving_of_isUncut huncut] at hend
  rw [hend] at huncut
  exact huncut.1 rfl

/-- What gives up is outlasted by what does not. -/
theorem Outlasts.unforgiving (hfirst : Outlasts good left right) :
    Outlasts good (unforgiving left) right := by
  intro store huncut
  have hfinished : Outcome.IsFinished (Machine.unforgiving left store) := by
    cases hend : Machine.unforgiving left store with
    | ok => trivial
    | error =>
      rw [hend] at huncut
      exact huncut.2
  rw [isFinished_unforgiving_iff] at hfinished
  rw [unforgiving_of_isUncut hfinished]
  exact hfirst store hfinished

end Machine

/-- Computations that never get too deep, and what they are with a larger limit. -/
def Comparison.deepening (slack : Nat) : Comparison where
  scope := fun _ => True
  slack := slack
  forgives := True
  slack_eq_zero_or_forgives := .inr trivial
  Relates := Outlasts
  pure := fun hgood => .refl fun _ _ _ hrun => by cases hrun; exact hgood
  throw := outlasts_throw
  tooDeep := fun _ _ huncut => absurd rfl huncut.1
  bind := .bind
  tryCatch := by
    intro α good left right handler hfirst hfault hrethrow
    refine hfirst.tryCatch (fun interrupt _ => ?_) fun interrupt store after _ hcut => ?_
    · exact relates_handler hfault hrethrow outlasts_throw interrupt
    · rw [hrethrow interrupt (by rintro fault rfl; exact hcut ⟨by rintro ⟨⟩, by rintro ⟨⟩⟩)]
      exact hcut
  guarded := by
    intro good left right hfirst hmild
    refine hfirst.tryCatch (fun interrupt hinterrupt => ?_)
      fun interrupt store after hleft hcut => ?_
    · cases interrupt with
      | tooDeep => exact absurd rfl hinterrupt.1
      | _ => exact outlasts_throw _
    · cases interrupt with
      | tooDeep => exact absurd hleft (hmild trivial store after)
      | _ => exact hcut
  freshLabels := fun _ => .refl fun _ _ _ _ => trivial
  newFrame := fun _ _ => .refl fun _ _ _ _ => trivial
  define := fun _ _ => .refl fun _ _ _ _ => trivial
  lookup := fun _ => .refl fun _ _ _ _ _ _ => trivial
  newPromise := fun _ _ => .refl fun _ _ _ _ _ _ => trivial
  promise? := fun _ => .refl fun _ _ _ _ promise _ => promise.inScope_everything
  write := fun _ => .refl fun _ _ _ _ => trivial
  record := fun _ _ _ => .refl fun _ _ _ _ => trivial
  noteOpened := fun _ => .refl fun _ _ _ _ => trivial

namespace Unforgiving

open Interpreter

theorem evaluate_ne_tooDeep (host : Host) (steps limit : Nat) (expression : Datum)
    (frame : FrameId) (store after : Store) :
    evaluate host steps limit expression frame store ≠ .error .tooDeep after := by
  cases limit with
  | zero => rintro ⟨⟩
  | succ limit => exact unforgiving_ne_tooDeep _ store after

theorem matches_contextWithin {host : Host} {steps limit slack : Nat}
    (hevaluate : ∀ expression frame, (Comparison.deepening slack).RelatesData
      (evaluate host steps limit expression frame)
      (Machine.evaluate host steps (limit + slack) expression frame)) :
    (Comparison.deepening slack).Matches (contextWithin host steps limit)
      (Interpreter.contextWithin host steps (limit + slack)) where
  host := rfl
  limit := rfl
  evaluate := fun _ _ => hevaluate _ _
  neverTooDeep := fun _ => evaluate_ne_tooDeep host steps limit

theorem outlasts_evaluate (host : Host) (steps limit slack : Nat) (expression : Datum)
    (frame : FrameId) :
    (Comparison.deepening slack).RelatesData (evaluate host steps limit expression frame)
      (Machine.evaluate host steps (limit + slack) expression frame) := by
  -- the induction is on the smaller limit; what is inside has one level less on both sides
  induction limit generalizing expression frame with
  | zero => exact fun _ huncut => absurd rfl huncut.2
  | succ limit ih =>
    have hcontexts := matches_contextWithin ih
    rw [Nat.add_right_comm]
    exact Outlasts.unforgiving (Comparison.iterate_step hcontexts
      (fun _ _ => .refl fun _ _ _ _ _ _ => trivial) steps (fun _ _ => trivial) trivial)

theorem outlasts_serve (host : Host) (steps limit slack : Nat) (request : Request) :
    (Comparison.deepening slack).RelatesData (serve host steps limit request)
      (request.serve (Interpreter.contextWithin host steps (limit + slack))) := by
  have hcontexts := matches_contextWithin (outlasts_evaluate host steps limit slack)
  exact Outlasts.unforgiving (Comparison.perform hcontexts (.serve request) trivial)

/-- A computation that outlasts one that never gets too deep ends with the same outcome. -/
theorem endsWith_of_outlasts {unforgiving family : Nat → Machine Datum} {good : Datum → Prop}
    {store : Store} {outcome : Outcome Datum}
    (houtlasts : ∀ steps, Outlasts good (unforgiving steps) (family steps))
    (hne : ∀ steps after, unforgiving steps store ≠ .error .tooDeep after)
    (hends : EndsWith unforgiving store outcome) : EndsWith family store outcome := by
  obtain ⟨hfinished, steps, hrun⟩ := hends
  have huncut : Outcome.IsUncut (unforgiving steps store) := by
    cases outcome with
    | ok => rw [hrun]; trivial
    | error interrupt after =>
      rw [hrun]
      refine ⟨?_, hfinished⟩
      rintro rfl
      exact hne steps after hrun
  exact ⟨hfinished, steps, (houtlasts steps store huncut).1.trans hrun⟩

/-- What outlasts it at its own limit and at every larger one ends with the same outcome there. -/
theorem endsWith_of_le {unforgiving : Nat → Machine Datum} (family : Nat → Nat → Machine Datum)
    {store : Store} {outcome : Outcome Datum} {limit more : Nat}
    (houtlasts : ∀ slack steps, (Comparison.deepening slack).RelatesData (unforgiving steps)
      (family (limit + slack) steps))
    (hne : ∀ steps after, unforgiving steps store ≠ .error .tooDeep after) (hle : limit ≤ more)
    (hends : EndsWith unforgiving store outcome) :
    EndsWith (family limit) store outcome ∧ EndsWith (family more) store outcome := by
  have hlater : ∀ slack, EndsWith (family (limit + slack)) store outcome :=
    fun slack => endsWith_of_outlasts (houtlasts slack) hne hends
  exact ⟨hlater 0, Nat.add_sub_cancel' hle ▸ hlater (more - limit)⟩

end Unforgiving

/-- The depth limit does not show until it is hit. An evaluation that never gets too deep, not even
where that would be handled and reported, ends with the same outcome at every larger limit, and so
does what a host asks for; and what is read, printed, tested for proper lists or compared is cut off
by its limit or has the same result at every larger one. -/
theorem Interpreter.endsWith_of_unforgiving :
    (∀ {host : Host} {limit more : Nat}, limit ≤ more →
      (∀ {expression : Datum} {frame : FrameId} {store : Store} {outcome : Outcome Datum},
        EndsWith (fun steps => Unforgiving.evaluate host steps limit expression frame) store
          outcome →
        EndsWith (fun steps => evaluate host steps limit expression frame) store outcome ∧
          EndsWith (fun steps => evaluate host steps more expression frame) store outcome) ∧
      ∀ {request : Request} {store : Store} {outcome : Outcome Datum},
        EndsWith (fun steps => Unforgiving.serve host steps limit request) store outcome →
        EndsWith (fun steps => request.serve (contextWithin host steps limit)) store outcome ∧
          EndsWith (fun steps => request.serve (contextWithin host steps more)) store outcome) ∧
    (∀ stream : TokenStream, StableUnless (·.1 = .error .tooDeep) fun limit =>
      stream.readForm limit) ∧
    (∀ text, StableUnless (· = .error .tooDeep) fun limit => readSource limit text) ∧
    (∀ datum : Datum, StableUnless (· = some .tooDeep) fun limit => datum.printObstacle? limit) ∧
    (∀ datum : Datum, StableUnless (· = true) fun limit => datum.isTooDeepToDiagnose limit) ∧
    (∀ datum : Datum, StableUnless (· = none) fun limit => datum.wellFormed? limit) ∧
    ∀ left right : Datum, StableUnless (· = none) fun limit => left.isAlike? limit right := by
  refine ⟨fun {host limit more} hle => ⟨?_, ?_⟩, TokenStream.stable_readForm, stable_readSource,
    Datum.stable_printObstacle?, Datum.stable_isTooDeepToDiagnose, Datum.stable_wellFormed?,
    Datum.stable_isAlike?⟩
  · intro expression frame store outcome
    exact Unforgiving.endsWith_of_le
      (fun limit steps => evaluate host steps limit expression frame)
      (fun slack steps => Unforgiving.outlasts_evaluate host steps limit slack expression frame)
      (fun steps => Unforgiving.evaluate_ne_tooDeep host steps limit expression frame store) hle
  · intro request store outcome
    exact Unforgiving.endsWith_of_le
      (fun limit steps => request.serve (contextWithin host steps limit))
      (fun slack steps => Unforgiving.outlasts_serve host steps limit slack request)
      (fun steps => unforgiving_ne_tooDeep _ store) hle

/-- The head of a pair is taken without getting too deep for a limit of two, and an empty text is
run with whatever limit; the pair is shown in the same way with more room. -/
theorem Interpreter.endsWith_of_unforgiving_car :
    let host : Host := { settings := .ofVariables ⟨none, none, none⟩, files := .catalogue [] }
    let pair : Datum := .pair 0 (.bool true) .empty
    EndsWith (fun steps => evaluate host steps 5 (.form none [.builtin .car, pair]) rootFrame)
        initialStore (.ok (.bool true) initialStore) ∧
      EndsWith (fun steps => (Request.run "").serve (contextWithin host steps 5)) initialStore
        (.ok .unspecified initialStore) ∧
      pair.printObstacle? 5 = pair.printObstacle? 2 := by
  intro host pair
  have hread : (TokenStream.ofText "").readForm 2 = (.ok none, ⟨.finished, []⟩) := by
    rw [TokenStream.readForm, TokenStream.readInside]
    rfl
  have hrun : ∀ steps, Unforgiving.serve host steps 2 (.run "") initialStore =
      .ok .unspecified initialStore := by
    intro steps
    refine tryCatch_of_ok ?_
    rw [Request.serve, runStream_of_end hread]
    rfl
  have hcar : EndsWith (fun steps => Unforgiving.evaluate host steps 2
      (.form none [.builtin .car, pair]) rootFrame) initialStore
      (.ok (.bool true) initialStore) := ⟨trivial, 1, rfl⟩
  have hempty : EndsWith (fun steps => Unforgiving.serve host steps 2 (.run "")) initialStore
      (.ok .unspecified initialStore) := ⟨trivial, 0, hrun 0⟩
  have hle : 2 ≤ 5 := by decide
  refine ⟨((endsWith_of_unforgiving.1 hle).1 hcar).2,
    ((endsWith_of_unforgiving.1 hle).2 hempty).2, ?_⟩
  exact endsWith_of_unforgiving.2.2.2.1 pair hle (by rintro ⟨⟩)

end SmallScheme
