import SmallScheme.Proofs.Machine.Outcome
import SmallScheme.Proofs.Relabelling.Store
/-!
# Simulation of computations

A family of computations, one for each number of steps, simulates a computation if it does the same
up to labels: whatever the computation ends with, other than a lack of steps, all members of the
family from some number of steps on end with it too, in the same store. This is kept by composition,
so it is enough to look at the steps that computations are made of. With labels that stay where they
are, simulation compares two ways to evaluate; with a constant family, two stores.
-/

namespace SmallScheme

/-- What a computation ends with, and the store that it leaves. -/
abbrev Outcome (α : Type) := EStateM.Result Interrupt Store α

namespace Outcome

variable {α β : Type}

/-- The computation did not run out of steps. -/
def IsFinished : Outcome α → Prop
  | .ok .. => True
  | .error interrupt _ => interrupt ≠ .outOfSteps

def store : Outcome α → Store
  | .ok _ after | .error _ after => after

/-- The outcome with all labels moved, for values in which the given function does so. -/
def relabel (shift : Shift) (image : α → β) : Outcome α → Outcome β
  | .ok value after => .ok (image value) (after.relabel shift)
  | .error interrupt after => .error (interrupt.relabel shift) (after.relabel shift)

theorem isFinished_relabel {shift : Shift} {image : α → β} {outcome : Outcome α}
    (hfinished : IsFinished outcome) : IsFinished (relabel shift image outcome) := by
  cases outcome with
  | ok => trivial
  | error interrupt =>
    cases interrupt with
    | outOfSteps => exact absurd rfl hfinished
    | _ => rintro ⟨⟩

theorem relabel_zero (outcome : Outcome Datum) :
    relabel .zero (Datum.relabel .zero) outcome = outcome := by
  cases outcome <;> simp [relabel]

end Outcome

namespace Machine

variable {α β γ δ : Type} {shift : Shift}

/-- From every store that reaches up to the labels that move, the family ends as the computation
does, if that has steps enough. -/
structure Simulates (shift : Shift) (image : α → β) (computation : Machine α)
    (family : Nat → Machine β) : Prop where
  run : ∀ {store : Store}, shift.start ≤ store.nextLabel →
    Outcome.IsFinished (computation store) →
      shift.start ≤ (Outcome.store (computation store)).nextLabel ∧
        ∃ least, ∀ steps ≥ least,
          family steps (store.relabel shift) = Outcome.relabel shift image (computation store)

namespace Simulates

variable {image : α → β} {computation : Machine α} {family : Nat → Machine β}

theorem pure (value : α) : Simulates shift image (pure value) fun _ => pure (image value) where
  run := fun hstart _ => ⟨hstart, 0, fun _ _ => rfl⟩

theorem throw (interrupt : Interrupt) :
    Simulates shift image (throw interrupt) fun _ => throw (interrupt.relabel shift) where
  run := fun hstart _ => ⟨hstart, 0, fun _ _ => rfl⟩

theorem fail (fault : Fault) :
    Simulates shift image (fail fault) fun _ => fail (fault.relabel shift) :=
  throw _

/-- Without steps there is nothing to repeat. -/
theorem outOfSteps : Simulates shift image (MonadExcept.throw .outOfSteps) family where
  run := fun _ hfinished => absurd rfl hfinished

theorem get : Simulates shift (Store.relabel shift) get fun _ => get where
  run := fun hstart _ => ⟨hstart, 0, fun _ _ => rfl⟩

theorem modifyGet {run : Store → α × Store} {run' : Store → β × Store}
    (hrun : ∀ store, shift.start ≤ store.nextLabel →
      shift.start ≤ (run store).2.nextLabel ∧
        run' (store.relabel shift) = (image (run store).1, (run store).2.relabel shift)) :
    Simulates shift image (modifyGet run) fun _ => modifyGet run' where
  run := by
    intro store hstart _
    obtain ⟨hafter, heq⟩ := hrun store hstart
    refine ⟨hafter, 0, fun _ _ => ?_⟩
    change EStateM.Result.ok (run' (store.relabel shift)).1 (run' (store.relabel shift)).2 = _
    rw [heq]
    rfl

theorem modify {update update' : Store → Store}
    (hupdate : ∀ store, (update store).nextLabel = store.nextLabel ∧
      update' (store.relabel shift) = (update store).relabel shift) :
    Simulates shift id (modify update : Machine PUnit) fun _ => modify update' :=
  modifyGet fun store hstart => by
    obtain ⟨hlabel, heq⟩ := hupdate store
    exact ⟨Nat.le_trans hstart (Nat.le_of_eq hlabel.symm), congrArg (Prod.mk PUnit.unit) heq⟩

/-- A family that takes up the outcomes of another one a step later simulates as much. -/
theorem later {later : Nat → Machine β} (hfamily : Simulates shift image computation family)
    (hlater : ∀ steps store, Outcome.IsFinished (family steps store) →
      later (steps + 1) store = family steps store) :
    Simulates shift image computation later where
  run := by
    intro store hstart hfinished
    obtain ⟨hafter, least, hrun⟩ := hfamily.run hstart hfinished
    refine ⟨hafter, least + 1, fun steps hsteps => ?_⟩
    obtain ⟨earlier, rfl⟩ :=
      Nat.exists_eq_add_of_le' (Nat.le_trans (Nat.le_add_left 1 least) hsteps)
    have heq := hrun earlier (Nat.le_of_succ_le_succ hsteps)
    rw [hlater earlier _ (heq ▸ Outcome.isFinished_relabel hfinished), heq]

/-- Where no label moves, the family does exactly what the computation does. -/
theorem eq_of_isFinished {computation : Machine Datum} {family : Nat → Machine Datum}
    (hfamily : Simulates .zero (Datum.relabel .zero) computation family) {store : Store}
    (hfinished : Outcome.IsFinished (computation store)) :
    ∃ least, ∀ steps ≥ least, family steps store = computation store := by
  obtain ⟨-, least, hrun⟩ := hfamily.run (Nat.zero_le store.nextLabel) hfinished
  rw [Store.relabel_zero, Outcome.relabel_zero] at hrun
  exact ⟨least, hrun⟩

theorem bind {image' : γ → δ} {next : α → Machine γ} {next' : Nat → β → Machine δ}
    (hfirst : Simulates shift image computation family)
    (hnext : ∀ value, Simulates shift image' (next value) fun steps => next' steps (image value)) :
    Simulates shift image' (computation >>= next) fun steps => family steps >>= next' steps where
  run := by
    intro store hstart hfinished
    have hrun := hfirst.run hstart
    cases hcomputation : computation store with
    | ok value between =>
      rw [bind_of_ok hcomputation] at hfinished ⊢
      rw [hcomputation] at hrun
      obtain ⟨hbetween, firstLeast, hfamily⟩ := hrun trivial
      obtain ⟨hafter, restLeast, hothers⟩ := (hnext value).run hbetween hfinished
      refine ⟨hafter, max firstLeast restLeast, fun steps hsteps => ?_⟩
      rw [bind_of_ok (hfamily steps (Nat.le_trans (Nat.le_max_left ..) hsteps))]
      exact hothers steps (Nat.le_trans (Nat.le_max_right ..) hsteps)
    | error interrupt between =>
      rw [bind_of_error hcomputation] at hfinished ⊢
      rw [hcomputation] at hrun
      obtain ⟨hafter, least, hfamily⟩ := hrun hfinished
      exact ⟨hafter, least, fun steps hsteps => bind_of_error (hfamily steps hsteps)⟩

theorem map {image' : γ → δ} {function : α → γ} {function' : β → δ}
    (hfirst : Simulates shift image computation family)
    (hfunction : ∀ value, image' (function value) = function' (image value)) :
    Simulates shift image' (function <$> computation) fun steps => function' <$> family steps := by
  simp only [map_eq_pure_bind]
  refine hfirst.bind fun value => ?_
  rw [← hfunction value]
  exact pure _

theorem discard (hfirst : Simulates shift image computation family) :
    Simulates shift id (discard computation) fun steps => discard (family steps) :=
  hfirst.map fun _ => rfl

/-- A handler has to pass a lack of steps on, as there is nothing for the family to repeat. -/
theorem tryCatch {handler : Interrupt → Machine α} {handler' : Nat → Interrupt → Machine β}
    (hfirst : Simulates shift image computation family)
    (hhandler : ∀ interrupt, interrupt ≠ .outOfSteps →
      Simulates shift image (handler interrupt) fun steps =>
        handler' steps (interrupt.relabel shift))
    (hpass : handler .outOfSteps = MonadExcept.throw .outOfSteps) :
    Simulates shift image (tryCatch computation handler) fun steps =>
      tryCatch (family steps) (handler' steps) where
  run := by
    intro store hstart hfinished
    have hrun := hfirst.run hstart
    cases hcomputation : computation store with
    | ok value between =>
      rw [tryCatch_of_ok hcomputation]
      rw [hcomputation] at hrun
      obtain ⟨hafter, least, hfamily⟩ := hrun trivial
      exact ⟨hafter, least, fun steps hsteps => tryCatch_of_ok (hfamily steps hsteps)⟩
    | error interrupt between =>
      rw [tryCatch_of_error hcomputation] at hfinished ⊢
      rw [hcomputation] at hrun
      have hne : interrupt ≠ .outOfSteps := by
        rintro rfl
        rw [hpass] at hfinished
        exact hfinished rfl
      obtain ⟨hbetween, firstLeast, hfamily⟩ := hrun hne
      obtain ⟨hafter, restLeast, hothers⟩ := (hhandler interrupt hne).run hbetween hfinished
      refine ⟨hafter, max firstLeast restLeast, fun steps hsteps => ?_⟩
      rw [tryCatch_of_error (hfamily steps (Nat.le_trans (Nat.le_max_left ..) hsteps))]
      exact hothers steps (Nat.le_trans (Nat.le_max_right ..) hsteps)

/-! ### Computations for each element of a list -/

variable {ι κ : Type} {place : ι → κ}

theorem mapM {each : ι → Machine α} {each' : Nat → κ → Machine β}
    (heach : ∀ item, Simulates shift image (each item) fun steps => each' steps (place item))
    (items : List ι) :
    Simulates shift (List.map image) (items.mapM each) fun steps =>
      (items.map place).mapM (each' steps) := by
  induction items with
  | nil => exact pure []
  | cons item rest ih =>
    simp only [List.map_cons, List.mapM_cons]
    exact (heach item).bind fun first => ih.bind fun others => pure (first :: others)

theorem forM {each : ι → Machine PUnit} {each' : Nat → κ → Machine PUnit}
    (heach : ∀ item, Simulates shift id (each item) fun steps => each' steps (place item))
    (items : List ι) :
    Simulates shift id (items.forM each) fun steps => (items.map place).forM (each' steps) := by
  induction items with
  | nil => exact pure PUnit.unit
  | cons item rest ih => exact (heach item).bind fun _ => ih

theorem foldlM {each : α → ι → Machine α} {each' : Nat → β → κ → Machine β}
    (heach : ∀ previous item, Simulates shift image (each previous item) fun steps =>
      each' steps (image previous) (place item))
    (items : List ι) (start : α) :
    Simulates shift image (items.foldlM each start) fun steps =>
      (items.map place).foldlM (each' steps) (image start) := by
  induction items generalizing start with
  | nil => exact pure start
  | cons item rest ih =>
    simp only [List.map_cons, List.foldlM_cons]
    exact (heach start item).bind fun next => ih next

end Simulates

/-! ### Steps on the store -/

variable {shift : Shift}

theorem simulates_freshLabels (count : Nat) :
    Simulates shift shift.apply (freshLabels count) fun _ => freshLabels count := by
  refine .modifyGet fun store hstart => ⟨Nat.le_add_right_of_le hstart, ?_⟩
  simp only [Store.relabel, Shift.apply_add hstart]

theorem simulates_cons (head tail : Datum) :
    Simulates shift (Datum.relabel shift) (cons head tail) fun _ =>
      cons (head.relabel shift) (tail.relabel shift) :=
  (simulates_freshLabels 1).bind fun _ => .pure _

/-- The labels of a chain follow each other, and so do they after they have been moved. -/
theorem simulates_listOf (heads : List Datum) (ending : Datum) :
    Simulates shift (Datum.relabel shift) (listOf heads ending) fun _ =>
      listOf (heads.map (Datum.relabel shift)) (ending.relabel shift) where
  run := by
    intro store hstart _
    refine ⟨Nat.le_add_right_of_le hstart, 0, fun _ _ => ?_⟩
    rw [listOf_eq, listOf_eq, Outcome.relabel, Datum.chain_relabel hstart, List.length_map]
    simp only [Store.relabel, Shift.apply_add hstart]

theorem simulates_closure (name : Option String) (formals : Formals) (body : List Datum)
    (frame : FrameId) :
    Simulates shift (Datum.relabel shift) (closure name formals body frame) fun _ =>
      closure name formals (body.map (Datum.relabel shift)) frame := by
  refine (simulates_freshLabels 1).bind fun label => ?_
  rw [← Datum.relabelAll_eq_map]
  exact .pure (Datum.closure label name formals body frame)

theorem simulates_newFrame (bindings : Bindings) (outer : Option FrameId) :
    Simulates shift id (newFrame bindings outer) fun _ =>
      newFrame (bindings.relabel shift) outer :=
  .modifyGet fun store hstart => ⟨hstart, store.pushFrame_relabel shift ⟨bindings, outer⟩⟩

theorem simulates_define (frame : FrameId) (name : String) (value : Datum) :
    Simulates shift id (define frame name value) fun _ =>
      define frame name (value.relabel shift) :=
  .modify fun store => ⟨rfl, (store.define_relabel shift frame name value).symm⟩

theorem simulates_lookup (frame : FrameId) (name : String) :
    Simulates shift (Datum.relabel shift) (lookup frame name) fun _ => lookup frame name := by
  refine Simulates.get.bind fun store => ?_
  rw [Store.lookup?_relabel]
  cases store.lookup? name frame with
  | some value => exact .pure value
  | none => exact .fail _

theorem simulates_newPromise (expression : Datum) (frame : FrameId) :
    Simulates shift (Datum.relabel shift) (newPromise expression frame) fun _ =>
      newPromise (expression.relabel shift) frame := by
  have hpush : Simulates shift id
      (modifyGet fun store => store.pushPromise (.pending expression frame) : Machine PromiseId)
      fun _ => modifyGet fun store =>
        store.pushPromise (.pending (expression.relabel shift) frame) :=
    .modifyGet fun store hstart =>
      ⟨hstart, store.pushPromise_relabel shift (.pending expression frame)⟩
  exact hpush.bind fun id => .pure (Datum.promise id)

theorem simulates_settlePromise (id : PromiseId) (value : Datum) :
    Simulates shift (fun done => done) (settlePromise id value) fun _ =>
      settlePromise id (value.relabel shift) :=
  .modify fun store => ⟨rfl, (store.settlePromise_relabel shift id value).symm⟩

theorem simulates_write (text : String) :
    Simulates shift id (write text) fun _ => write text :=
  .modify fun _ => ⟨rfl, rfl⟩

theorem simulates_record (level : LogLevel) (logger : Logger) (message : String) :
    Simulates shift id (record level logger message) fun _ => record level logger message :=
  .modify fun _ => ⟨rfl, rfl⟩

theorem simulates_noteOpened (path : String) :
    Simulates shift id (noteOpened path) fun _ => noteOpened path :=
  .modify fun _ => ⟨rfl, rfl⟩

/-! ### Failures -/

variable {α β : Type} {image : α → β}

theorem simulates_ofExcept (result : Except Interrupt α) :
    Simulates shift image (ofExcept result) fun _ =>
      ofExcept ((result.map image).mapError (Interrupt.relabel shift)) := by
  cases result with
  | ok value => exact .pure value
  | error interrupt => exact .throw interrupt

theorem simulates_checkPrintable (limit : Nat) (datum : Datum) :
    Simulates shift id (checkPrintable limit datum) fun _ =>
      checkPrintable limit (datum.relabel shift) := by
  simp only [checkPrintable, Datum.printObstacle?_relabel]
  cases datum.printObstacle? limit with
  | none => exact .pure PUnit.unit
  | some obstacle => cases obstacle <;> exact .throw _

theorem simulates_failPrinting (limit : Nat) (datum : Datum) (fault : Fault) :
    Simulates shift image (failPrinting limit datum fault) fun _ =>
      failPrinting limit (datum.relabel shift) (fault.relabel shift) :=
  (simulates_checkPrintable limit datum).bind fun _ => .fail fault

theorem simulates_failDiagnosing (limit : Nat) (datum : Datum) (fault : Fault) :
    Simulates shift image (failDiagnosing limit datum fault) fun _ =>
      failDiagnosing limit (datum.relabel shift) (fault.relabel shift) := by
  simp only [failDiagnosing, Datum.isTooDeepToDiagnose_relabel]
  cases datum.isTooDeepToDiagnose limit with
  | true => exact .throw _
  | false => exact .fail fault

theorem simulates_orBreakDown (breakdown : Breakdown) (result : Option α) :
    Simulates shift id (orBreakDown breakdown result) fun _ => orBreakDown breakdown result := by
  cases result with
  | some value => exact .pure value
  | none => exact .throw _

theorem simulates_numberOfInteger (value : Int) :
    Simulates shift id (numberOfInteger value) fun _ => numberOfInteger value :=
  simulates_orBreakDown _ _

end Machine

end SmallScheme
