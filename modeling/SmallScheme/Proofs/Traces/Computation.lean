import SmallScheme.Proofs.Relabelling.Simulation
/-!
# Traces that are there already

An evaluation adds to the traces but never looks at them. So whatever was displayed, logged and
opened before, it does the same, and what it adds stands behind that. This is kept by composition,
so it is enough to look at the steps that computations are made of.
-/

namespace SmallScheme

/-- What evaluations leave for their host. -/
structure Traces where
  output : String
  log : Array LogRecord
  opened : Array String

namespace Store

def traces (store : Store) : Traces :=
  { output := store.output, log := store.log, opened := store.opened }

/-- The store with traces in front of its own. -/
def behind (traces : Traces) (store : Store) : Store :=
  { store with
    output := traces.output ++ store.output
    log := traces.log ++ store.log
    opened := traces.opened ++ store.opened }

theorem behind_traces (store : Store) : store.withoutTraces.behind store.traces = store := by
  simp [behind, traces, withoutTraces]

variable (traces : Traces) (store : Store)

theorem find?_behind (name : String) (frame : FrameId) :
    (store.behind traces).find? name frame = store.find? name frame := by
  induction frame using Nat.strongRecOn with
  | ind frame ih =>
    have hbindings : (store.behind traces).bindings frame = store.bindings frame := rfl
    have houter : (store.behind traces).outer? frame = store.outer? frame := rfl
    rw [find?, find?, hbindings, houter]
    cases Bindings.get? name (store.bindings frame) with
    | some value => rfl
    | none =>
      cases store.outer? frame with
      | none => rfl
      | some outer =>
        by_cases hlt : outer < frame
        · exact (if_pos hlt).trans ((ih outer hlt).trans (if_pos hlt).symm)
        · exact (if_neg hlt).trans (if_neg hlt).symm

theorem lookup?_behind (name : String) (frame : FrameId) :
    (store.behind traces).lookup? name frame = store.lookup? name frame := by
  rw [lookup?, lookup?, find?_behind]
  rfl

end Store

/-- The outcome with traces in front of those that it leaves. -/
def Outcome.behind {α : Type} (traces : Traces) : Outcome α → Outcome α
  | .ok value after => .ok value (after.behind traces)
  | .error interrupt after => .error interrupt (after.behind traces)

namespace Machine

variable {α β : Type}

/-- The computation does the same whatever traces are there already. -/
def Oblivious (computation : Machine α) : Prop :=
  ∀ (traces : Traces) (store : Store),
    computation (store.behind traces) = Outcome.behind traces (computation store)

namespace Oblivious

variable {computation : Machine α}

theorem pure (value : α) : Oblivious (pure value) := fun _ _ => rfl

theorem throw (interrupt : Interrupt) : Oblivious (throw interrupt : Machine α) := fun _ _ => rfl

theorem fail (fault : Fault) : Oblivious (fail fault : Machine α) := throw _

theorem modifyGet {run : Store → α × Store}
    (hrun : ∀ traces store, run (store.behind traces) =
      ((run store).1, (run store).2.behind traces)) :
    Oblivious (modifyGet run : Machine α) := by
  intro traces store
  change EStateM.Result.ok (run (store.behind traces)).1 (run (store.behind traces)).2 = _
  rw [hrun]
  rfl

theorem modify {update : Store → Store}
    (hupdate : ∀ traces store, update (store.behind traces) = (update store).behind traces) :
    Oblivious (modify update : Machine PUnit) :=
  modifyGet fun traces store => congrArg (Prod.mk PUnit.unit) (hupdate traces store)

/-- What is looked up in the store must be no matter of traces. -/
theorem get_bind {next : Store → Machine β}
    (hsame : ∀ traces store, next (store.behind traces) = next store)
    (hnext : ∀ store, Oblivious (next store)) : Oblivious (get >>= next) := by
  intro traces store
  change next (store.behind traces) (store.behind traces) = _
  rw [hsame, hnext]
  rfl

theorem bind {next : α → Machine β} (hfirst : Oblivious computation)
    (hnext : ∀ value, Oblivious (next value)) : Oblivious (computation >>= next) := by
  intro traces store
  have hcomputation := hfirst traces store
  cases hrun : computation store with
  | ok value between =>
    rw [hrun] at hcomputation
    rw [bind_of_ok hcomputation, bind_of_ok hrun]
    exact hnext value traces between
  | error interrupt between =>
    rw [hrun] at hcomputation
    rw [bind_of_error hcomputation, bind_of_error hrun]
    rfl

theorem map (hfirst : Oblivious computation) (function : α → β) :
    Oblivious (function <$> computation) := by
  rw [map_eq_pure_bind]
  exact hfirst.bind fun value => pure (function value)

theorem discard (hfirst : Oblivious computation) :
    Oblivious (discard computation : Machine PUnit) :=
  hfirst.map _

theorem tryCatch {handler : Interrupt → Machine α} (hfirst : Oblivious computation)
    (hhandler : ∀ interrupt, Oblivious (handler interrupt)) :
    Oblivious (tryCatch computation handler) := by
  intro traces store
  have hcomputation := hfirst traces store
  cases hrun : computation store with
  | ok value between =>
    rw [hrun] at hcomputation
    rw [tryCatch_of_ok hcomputation, tryCatch_of_ok hrun]
    rfl
  | error interrupt between =>
    rw [hrun] at hcomputation
    rw [tryCatch_of_error hcomputation, tryCatch_of_error hrun]
    exact hhandler interrupt traces between

variable {ι : Type}

theorem mapM {each : ι → Machine β} (heach : ∀ item, Oblivious (each item)) (items : List ι) :
    Oblivious (items.mapM each) := by
  induction items with
  | nil => exact pure []
  | cons item rest ih =>
    rw [List.mapM_cons]
    exact (heach item).bind fun first => ih.bind fun others => pure (first :: others)

theorem forM {each : ι → Machine PUnit} (heach : ∀ item, Oblivious (each item))
    (items : List ι) : Oblivious (items.forM each) := by
  induction items with
  | nil => exact pure PUnit.unit
  | cons item rest ih => exact (heach item).bind fun _ => ih

theorem foldlM {each : β → ι → Machine β} (heach : ∀ previous item, Oblivious (each previous item))
    (items : List ι) (start : β) : Oblivious (items.foldlM each start) := by
  induction items generalizing start with
  | nil => exact pure start
  | cons item rest ih =>
    rw [List.foldlM_cons]
    exact (heach start item).bind fun next => ih next

end Oblivious

/-! ### Steps on the store -/

theorem oblivious_freshLabels (count : Nat) : Oblivious (freshLabels count) :=
  .modifyGet fun _ _ => rfl

theorem oblivious_cons (head tail : Datum) : Oblivious (cons head tail) :=
  (oblivious_freshLabels 1).bind fun _ => .pure _

theorem oblivious_listOf (heads : List Datum) (ending : Datum) : Oblivious (listOf heads ending) :=
  (oblivious_freshLabels heads.length).bind fun _ => .pure _

theorem oblivious_closure (name : Option String) (formals : Formals) (body : List Datum)
    (frame : FrameId) : Oblivious (closure name formals body frame) :=
  (oblivious_freshLabels 1).bind fun _ => .pure _

theorem oblivious_newFrame (bindings : Bindings) (outer : Option FrameId) :
    Oblivious (newFrame bindings outer) :=
  .modifyGet fun _ _ => rfl

theorem oblivious_define (frame : FrameId) (name : String) (value : Datum) :
    Oblivious (define frame name value) :=
  .modify fun _ _ => rfl

theorem oblivious_lookup (frame : FrameId) (name : String) : Oblivious (lookup frame name) := by
  refine .get_bind (fun traces store => ?_) fun store => ?_
  · rw [Store.lookup?_behind]
  · cases store.lookup? name frame with
    | some value => exact .pure value
    | none => exact .fail _

theorem oblivious_newPromise (expression : Datum) (frame : FrameId) :
    Oblivious (newPromise expression frame) := by
  have hpush : Oblivious
      (modifyGet fun store => store.pushPromise (.pending expression frame) : Machine PromiseId) :=
    .modifyGet fun _ _ => rfl
  exact hpush.bind fun id => .pure (Datum.promise id)

theorem oblivious_settlePromise (id : PromiseId) (value : Datum) :
    Oblivious (settlePromise id value) :=
  .modify fun _ _ => rfl

theorem oblivious_write (text : String) : Oblivious (write text) := by
  refine .modify fun traces store => ?_
  simp only [Store.behind, String.append_assoc]

theorem oblivious_record (level : LogLevel) (logger : Logger) (message : String) :
    Oblivious (record level logger message) := by
  refine .modify fun traces store => ?_
  simp only [Store.behind, Array.append_push]

theorem oblivious_noteOpened (path : String) : Oblivious (noteOpened path) := by
  refine .modify fun traces store => ?_
  simp only [Store.behind, Array.append_push]

/-! ### Failures -/

theorem oblivious_ofExcept (result : Except Interrupt α) : Oblivious (ofExcept result) := by
  cases result with
  | ok value => exact .pure value
  | error interrupt => exact .throw interrupt

theorem oblivious_orBreakDown (breakdown : Breakdown) (result : Option α) :
    Oblivious (orBreakDown breakdown result) := by
  cases result with
  | some value => exact .pure value
  | none => exact .throw _

theorem oblivious_numberOfInteger (value : Int) : Oblivious (numberOfInteger value) :=
  oblivious_orBreakDown _ _

theorem oblivious_checkPrintable (limit : Nat) (datum : Datum) :
    Oblivious (checkPrintable limit datum) := by
  rw [checkPrintable]
  split
  · exact .pure _
  · exact .throw _
  · exact .throw _

theorem oblivious_failPrinting (limit : Nat) (datum : Datum) (fault : Fault) :
    Oblivious (failPrinting limit datum fault : Machine α) :=
  (oblivious_checkPrintable limit datum).bind fun _ => .fail fault

theorem oblivious_failDiagnosing (limit : Nat) (datum : Datum) (fault : Fault) :
    Oblivious (failDiagnosing limit datum fault : Machine α) := by
  rw [failDiagnosing]
  split
  · exact .throw _
  · exact .fail fault

end Machine

end SmallScheme
