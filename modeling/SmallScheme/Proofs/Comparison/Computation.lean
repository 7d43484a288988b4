import SmallScheme.Proofs.Comparison.Scope
import SmallScheme.Proofs.Depth.Reading
/-!
# Comparing computations

A comparison relates computations in pairs: the same evaluation in two stores, at two depth limits,
or with and without something that interferes with it. It has a clause for each step that
computations are made of, and one for each way to put them together; so whatever is made of these
steps is related to itself, and no function of the evaluator has to be looked at for a new
comparison. What goes into the compared computations stays in a scope.
-/

namespace SmallScheme

/-- Look at a promise, if there is one of the number. -/
def Machine.promise? (id : PromiseId) : Machine (Option Promise) := do
  return (← get).promises[id]?

/-- How a check ends that finds an obstacle, or none. -/
def PrintObstacle.ending : Option PrintObstacle → Except Interrupt Unit
  | none => .ok ()
  | some .tooDeep => .error .tooDeep
  | some .integerTooLarge => .error (.breakdown .integerTooLarge)

/-- A handler that handles faults only is related to itself if it is so for every fault. -/
theorem Machine.relates_handler {α : Type} {Relates : Machine α → Machine α → Prop}
    {handler : Interrupt → Machine α}
    (hfault : ∀ fault, Relates (handler (.fault fault)) (handler (.fault fault)))
    (hrethrow : ∀ interrupt, (∀ fault, interrupt ≠ .fault fault) →
      handler interrupt = MonadExcept.throw interrupt)
    (hthrow : ∀ interrupt : Interrupt,
      Relates (MonadExcept.throw interrupt) (MonadExcept.throw interrupt))
    (interrupt : Interrupt) : Relates (handler interrupt) (handler interrupt) := by
  cases interrupt with
  | fault fault => exact hfault fault
  | _ =>
    rw [hrethrow _ (by rintro fault ⟨⟩)]
    exact hthrow _

/-- A relation of computations that steps on the store and composition keep. The result is a good
one on both sides, if there is one. -/
structure Comparison where
  /-- The frames and promises that the computations have to do with. -/
  scope : Reference → Prop
  /-- How much deeper the second computation may nest than the first one. -/
  slack : Nat
  /-- A first computation that gets too deep is related to anything. -/
  forgives : Prop
  slack_eq_zero_or_forgives : slack = 0 ∨ forgives
  Relates : {α : Type} → (α → Prop) → Machine α → Machine α → Prop
  pure : ∀ {α : Type} {good : α → Prop} {value : α}, good value →
    Relates good (pure value) (pure value)
  throw : ∀ {α : Type} {good : α → Prop} (interrupt : Interrupt),
    Relates good (throw interrupt) (throw interrupt)
  tooDeep : ∀ {α : Type} {good : α → Prop} {other : Machine α}, forgives →
    Relates good (MonadExcept.throw .tooDeep) other
  bind : ∀ {α β : Type} {good : α → Prop} {post : β → Prop} {left right : Machine α}
    {next next' : α → Machine β}, Relates good left right →
    (∀ value, good value → Relates post (next value) (next' value)) →
    Relates post (left >>= next) (right >>= next')
  /-- Only faults can be handled. -/
  tryCatch : ∀ {α : Type} {good : α → Prop} {left right : Machine α}
    {handler : Interrupt → Machine α}, Relates good left right →
    (∀ fault, Relates good (handler (.fault fault)) (handler (.fault fault))) →
    (∀ interrupt, (∀ fault, interrupt ≠ .fault fault) →
      handler interrupt = MonadExcept.throw interrupt) →
    Relates good (tryCatch left handler) (tryCatch right handler)
  guarded : ∀ {good : Datum → Prop} {left right : Machine Datum}, Relates good left right →
    (forgives → ∀ store after, left store ≠ .error .tooDeep after) →
    Relates good (Machine.guarded left) (Machine.guarded right)
  freshLabels : ∀ count, Relates (fun _ => True) (Machine.freshLabels count)
    (Machine.freshLabels count)
  newFrame : ∀ {bindings : Bindings} {outer : FrameId}, bindings.InScope scope →
    scope (.frame outer) → Relates (fun frame => scope (.frame frame))
      (Machine.newFrame bindings (some outer)) (Machine.newFrame bindings (some outer))
  define : ∀ {frame : FrameId} {name : String} {value : Datum}, scope (.frame frame) →
    value.InScope scope → Relates (fun _ => True) (Machine.define frame name value)
      (Machine.define frame name value)
  lookup : ∀ {frame : FrameId} {name : String}, scope (.frame frame) →
    Relates (Datum.InScope scope) (Machine.lookup frame name) (Machine.lookup frame name)
  newPromise : ∀ {expression : Datum} {frame : FrameId}, expression.InScope scope →
    scope (.frame frame) → Relates (Datum.InScope scope) (Machine.newPromise expression frame)
      (Machine.newPromise expression frame)
  promise? : ∀ {id : PromiseId}, scope (.promise id) →
    Relates (fun found => ∀ promise ∈ found, promise.InScope scope) (Machine.promise? id)
      (Machine.promise? id)
  write : ∀ text, Relates (fun _ => True) (Machine.write text) (Machine.write text)
  record : ∀ level logger message, Relates (fun _ => True) (Machine.record level logger message)
    (Machine.record level logger message)
  noteOpened : ∀ path, Relates (fun _ => True) (Machine.noteOpened path) (Machine.noteOpened path)

namespace Comparison

/-- Nothing has to be forgiven if both computations nest equally deep. -/
theorem slack_zero_or (forgives : Prop) : 0 = 0 ∨ forgives := .inl rfl

/-- The two computations are related, and what they end with is in scope. -/
abbrev RelatesData (comparison : Comparison) (left right : Machine Datum) : Prop :=
  comparison.Relates (Datum.InScope comparison.scope) left right

variable {α β : Type} (comparison : Comparison)

section Composition

variable {comparison} {good better : α → Prop} {post : β → Prop} {left right : Machine α}

theorem mono (hfirst : comparison.Relates better left right)
    (himplies : ∀ value, better value → good value) : comparison.Relates good left right := by
  rw [← bind_pure left, ← bind_pure right]
  exact comparison.bind hfirst fun value hvalue => comparison.pure (himplies value hvalue)

theorem map {function : α → β} (hfirst : comparison.Relates good left right)
    (himplies : ∀ value, good value → post (function value)) :
    comparison.Relates post (function <$> left) (function <$> right) := by
  simp only [map_eq_pure_bind]
  exact comparison.bind hfirst fun value hvalue => comparison.pure (himplies value hvalue)

theorem discard (hfirst : comparison.Relates good left right) :
    comparison.Relates (fun _ => True) (discard left : Machine PUnit) (discard right) :=
  map hfirst fun _ _ => trivial

theorem mapM {items : List α} {each each' : α → Machine β}
    (heach : ∀ item ∈ items, comparison.Relates post (each item) (each' item)) :
    comparison.Relates (fun values => ∀ value ∈ values, post value) (items.mapM each)
      (items.mapM each') := by
  induction items with
  | nil => exact comparison.pure fun _ hmem => absurd hmem List.not_mem_nil
  | cons item rest ih =>
    rw [List.forall_mem_cons] at heach
    simp only [List.mapM_cons]
    refine comparison.bind heach.1 fun first hfirst => ?_
    refine comparison.bind (ih heach.2) fun others hothers => ?_
    exact comparison.pure (List.forall_mem_cons.2 ⟨hfirst, hothers⟩)

theorem forM {items : List α} {each each' : α → Machine PUnit}
    (heach : ∀ item ∈ items, comparison.Relates (fun _ => True) (each item) (each' item)) :
    comparison.Relates (fun _ => True) (items.forM each) (items.forM each') := by
  induction items with
  | nil => exact comparison.pure trivial
  | cons item rest ih =>
    rw [List.forall_mem_cons] at heach
    exact comparison.bind heach.1 fun _ _ => ih heach.2

theorem foldlM {items : List α} {each each' : β → α → Machine β} {start : β} (hstart : post start)
    (heach : ∀ previous, post previous → ∀ item ∈ items,
      comparison.Relates post (each previous item) (each' previous item)) :
    comparison.Relates post (items.foldlM each start) (items.foldlM each' start) := by
  induction items generalizing start with
  | nil => exact comparison.pure hstart
  | cons item rest ih =>
    simp only [List.foldlM_cons]
    refine comparison.bind (heach start hstart item List.mem_cons_self) fun next hnext => ?_
    exact ih hnext fun previous hprevious item hmem =>
      heach previous hprevious item (List.mem_cons_of_mem _ hmem)

end Composition

variable {good : α → Prop}

/-! ### Results that depend on a limit -/

theorem fail (fault : Fault) : comparison.Relates good (Machine.fail fault) (Machine.fail fault) :=
  comparison.throw _

/-- What is stable unless it is cut off is the same with the slack, or cut off and forgiven. -/
theorem eq_or_cut {cut : β → Prop} {result : Nat → β} (hstable : StableUnless cut result)
    (limit : Nat) :
    result (limit + comparison.slack) = result limit ∨
      comparison.forgives ∧ cut (result limit) := by
  rcases comparison.slack_eq_zero_or_forgives with hzero | hforgives
  · rw [hzero]
    exact .inl rfl
  · by_cases hcut : cut (result limit)
    · exact .inr ⟨hforgives, hcut⟩
    · exact .inl (hstable (Nat.le_add_right limit comparison.slack) hcut)

/-- With slack, a first computation that is cut off is forgiven. -/
theorem tooDeep_of_slack {other : Machine α}
    (hzero : comparison.slack = 0 → comparison.Relates good (MonadExcept.throw .tooDeep) other) :
    comparison.Relates good (MonadExcept.throw .tooDeep) other :=
  comparison.slack_eq_zero_or_forgives.elim hzero comparison.tooDeep

theorem ofExcept {result : Nat → Except Interrupt α}
    (hstable : StableUnless (· = .error .tooDeep) result) (limit : Nat)
    (hgood : ∀ value, result limit = .ok value → good value) :
    comparison.Relates good (Machine.ofExcept (result limit))
      (Machine.ofExcept (result (limit + comparison.slack))) := by
  rcases comparison.eq_or_cut hstable limit with heq | ⟨hforgives, hcut⟩
  · rw [heq]
    cases hresult : result limit with
    | ok value => exact comparison.pure (hgood value hresult)
    | error interrupt => exact comparison.throw interrupt
  · rw [hcut]
    exact comparison.tooDeep hforgives

theorem failDiagnosing (limit : Nat) (datum : Datum) (fault : Fault) :
    comparison.Relates good (Machine.failDiagnosing limit datum fault)
      (Machine.failDiagnosing (limit + comparison.slack) datum fault) := by
  have heq : ∀ limit, (Machine.failDiagnosing limit datum fault : Machine α) = Machine.ofExcept
      (if datum.isTooDeepToDiagnose limit then .error .tooDeep else .error (.fault fault)) := by
    intro limit
    rw [Machine.failDiagnosing]
    split <;> rfl
  rw [heq, heq]
  refine comparison.ofExcept (datum.stable_diagnosis (.error (.fault fault))) limit ?_
  intro value hvalue
  split at hvalue <;> cases hvalue

theorem checkPrintable (limit : Nat) (datum : Datum) :
    comparison.Relates (fun _ => True) (Machine.checkPrintable limit datum)
      (Machine.checkPrintable (limit + comparison.slack) datum) := by
  have heq : ∀ limit, Machine.checkPrintable limit datum =
      Machine.ofExcept (PrintObstacle.ending (datum.printObstacle? limit)) := by
    intro limit
    rw [Machine.checkPrintable]
    split <;> next hobstacle => rw [hobstacle]; rfl
  have hstable : StableUnless (· = .error .tooDeep) fun limit =>
      PrintObstacle.ending (datum.printObstacle? limit) :=
    datum.stable_printObstacle?.map (by rintro _ rfl; rfl)
  rw [heq, heq]
  exact comparison.ofExcept hstable limit fun _ _ => trivial

theorem failPrinting (limit : Nat) (datum : Datum) (fault : Fault) :
    comparison.Relates good (Machine.failPrinting limit datum fault)
      (Machine.failPrinting (limit + comparison.slack) datum fault) :=
  comparison.bind (comparison.checkPrintable limit datum) fun _ _ => comparison.fail fault

end Comparison

end SmallScheme
