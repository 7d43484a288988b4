import SmallScheme.Proofs.Machine.Outcome
/-!
# Computations under rules

Rules say what has to hold of the store all the time, in which frames names may be bound, and which
breakdowns there may be. A computation obeys them from a store if they hold of whatever store it
leaves, with a value or not. Obedience is kept by composition, so it is enough to look at the steps
that computations are made of.
-/

namespace SmallScheme

/-- Rules that traces, labels and promises are no concern of. A frame that is new may be used. -/
structure Discipline where
  holds : Store → Prop
  mayUse : FrameId → Prop
  mayBreak : Breakdown → Prop
  holds_of_frames : ∀ {before after : Store}, holds before → after.frames = before.frames →
    holds after
  holds_define : ∀ {store : Store} {frame : FrameId}, holds store → mayUse frame →
    ∀ (name : String) (value : Datum), holds (store.define frame name value)
  holds_pushFrame : ∀ {store : Store}, holds store → ∀ frame : Frame,
    holds (store.pushFrame frame).2
  mayUse_size : ∀ {store : Store}, holds store → mayUse store.frames.size
  /-- Integers of the host are no concern either. -/
  mayBreak_integerTooLarge : mayBreak .integerTooLarge

def Discipline.mayEndWith (rules : Discipline) : Interrupt → Prop
  | .breakdown breakdown => rules.mayBreak breakdown
  | _ => True

namespace Machine

variable {α β : Type} {rules : Discipline} {store : Store}

/-- From the store, the computation leaves a store of which the rules hold. It ends with a good
value or with an interrupt that may be. -/
structure Obeys (rules : Discipline) (store : Store) (computation : Machine α)
    (good : α → Prop := fun _ => True) : Prop where
  ok : ∀ {value : α} {after : Store}, computation store = .ok value after →
    rules.holds after ∧ good value
  error : ∀ {interrupt : Interrupt} {after : Store}, computation store = .error interrupt after →
    rules.holds after ∧ rules.mayEndWith interrupt

namespace Obeys

variable {computation : Machine α} {good : α → Prop} {post : β → Prop}

theorem of_ok {value : α} {after : Store} (hrun : computation store = .ok value after)
    (hholds : rules.holds after) (hgood : good value) : Obeys rules store computation good where
  ok := by
    intro other final hother
    cases hrun.symm.trans hother
    exact ⟨hholds, hgood⟩
  error := fun hother => by cases hrun.symm.trans hother

theorem of_error {interrupt : Interrupt} {after : Store}
    (hrun : computation store = .error interrupt after) (hholds : rules.holds after)
    (hinterrupt : rules.mayEndWith interrupt) : Obeys rules store computation good where
  ok := fun hother => by cases hrun.symm.trans hother
  error := by
    intro other final hother
    cases hrun.symm.trans hother
    exact ⟨hholds, hinterrupt⟩

theorem congr {other : Machine α} {between : Store} (hother : Obeys rules between other good)
    (hrun : computation store = other between) : Obeys rules store computation good where
  ok := fun hok => hother.ok (hrun.symm.trans hok)
  error := fun herror => hother.error (hrun.symm.trans herror)

theorem pure (hholds : rules.holds store) {value : α} (hgood : good value) :
    Obeys rules store (pure value) good :=
  .of_ok rfl hholds hgood

theorem throw (hholds : rules.holds store) {interrupt : Interrupt}
    (hinterrupt : rules.mayEndWith interrupt) : Obeys rules store (throw interrupt) good :=
  .of_error rfl hholds hinterrupt

theorem fail (hholds : rules.holds store) (fault : Fault) : Obeys rules store (fail fault) good :=
  throw hholds trivial

/-- What reads the store starts in the very store that it reads. -/
theorem get_bind {next : Store → Machine β} (hnext : Obeys rules store (next store) post) :
    Obeys rules store (get >>= next) post :=
  hnext.congr rfl

theorem bind {next : α → Machine β} (hfirst : Obeys rules store computation good)
    (hnext : ∀ after value, rules.holds after → good value → Obeys rules after (next value) post) :
    Obeys rules store (computation >>= next) post := by
  cases hrun : computation store with
  | ok value between =>
    obtain ⟨hholds, hgood⟩ := hfirst.ok hrun
    exact (hnext between value hholds hgood).congr (bind_of_ok hrun)
  | error interrupt between =>
    obtain ⟨hholds, hinterrupt⟩ := hfirst.error hrun
    exact .of_error (bind_of_error hrun) hholds hinterrupt

theorem mono {better : α → Prop} (hfirst : Obeys rules store computation better)
    (himplies : ∀ value, better value → good value) : Obeys rules store computation good where
  ok := fun hok => ⟨(hfirst.ok hok).1, himplies _ (hfirst.ok hok).2⟩
  error := hfirst.error

theorem map {function : α → β} (hfirst : Obeys rules store computation good)
    (himplies : ∀ value, good value → post (function value)) :
    Obeys rules store (function <$> computation) post := by
  rw [map_eq_pure_bind]
  exact hfirst.bind fun _ value hholds hgood => pure hholds (himplies value hgood)

theorem discard (hfirst : Obeys rules store computation good) :
    Obeys rules store (discard computation) :=
  hfirst.map fun _ _ => trivial

theorem tryCatch {handler : Interrupt → Machine α} (hfirst : Obeys rules store computation good)
    (hhandler : ∀ after interrupt, rules.holds after → rules.mayEndWith interrupt →
      Obeys rules after (handler interrupt) good) :
    Obeys rules store (tryCatch computation handler) good := by
  cases hrun : computation store with
  | ok value between =>
    obtain ⟨hholds, hgood⟩ := hfirst.ok hrun
    exact .of_ok (tryCatch_of_ok hrun) hholds hgood
  | error interrupt between =>
    obtain ⟨hholds, hinterrupt⟩ := hfirst.error hrun
    exact (hhandler between interrupt hholds hinterrupt).congr (tryCatch_of_error hrun)

theorem mapM {each : α → Machine β} (hholds : rules.holds store) (items : List α)
    (heach : ∀ after item, rules.holds after → Obeys rules after (each item)) :
    Obeys rules store (items.mapM each) := by
  induction items generalizing store with
  | nil => exact pure hholds trivial
  | cons item rest ih =>
    rw [List.mapM_cons]
    refine (heach store item hholds).bind fun _ _ hholds _ => ?_
    exact (ih hholds).bind fun _ _ hholds _ => pure hholds trivial

theorem forM {each : α → Machine PUnit} (hholds : rules.holds store) (items : List α)
    (heach : ∀ after item, rules.holds after → Obeys rules after (each item)) :
    Obeys rules store (items.forM each) := by
  induction items generalizing store with
  | nil => exact pure hholds trivial
  | cons item rest ih => exact (heach store item hholds).bind fun _ _ hholds _ => ih hholds

theorem foldlM {each : β → α → Machine β} {start : β} (hholds : rules.holds store)
    (items : List α) (heach : ∀ after previous item, rules.holds after →
      Obeys rules after (each previous item)) :
    Obeys rules store (items.foldlM each start) := by
  induction items generalizing store start with
  | nil => exact pure hholds trivial
  | cons item rest ih =>
    rw [List.foldlM_cons]
    exact (heach store start item hholds).bind fun _ _ hholds _ => ih hholds

end Obeys

variable {good : α → Prop}

/-! ### Steps on the store -/

theorem obeys_freshLabels (hholds : rules.holds store) (count : Nat) :
    Obeys rules store (freshLabels count) :=
  .of_ok rfl (rules.holds_of_frames hholds rfl) trivial

theorem obeys_cons (hholds : rules.holds store) (head tail : Datum) :
    Obeys rules store (cons head tail) :=
  (obeys_freshLabels hholds 1).bind fun _ _ hholds _ => .pure hholds trivial

theorem obeys_listOf (hholds : rules.holds store) (heads : List Datum) (ending : Datum) :
    Obeys rules store (listOf heads ending) :=
  (obeys_freshLabels hholds heads.length).bind fun _ _ hholds _ => .pure hholds trivial

theorem obeys_closure (hholds : rules.holds store) (name : Option String) (formals : Formals)
    (body : List Datum) (frame : FrameId) :
    Obeys rules store (closure name formals body frame) :=
  (obeys_freshLabels hholds 1).bind fun _ _ hholds _ => .pure hholds trivial

theorem obeys_newFrame (hholds : rules.holds store) (bindings : Bindings)
    (outer : Option FrameId) : Obeys rules store (newFrame bindings outer) rules.mayUse :=
  .of_ok rfl (rules.holds_pushFrame hholds _) (rules.mayUse_size hholds)

theorem obeys_define (hholds : rules.holds store) {frame : FrameId} (hframe : rules.mayUse frame)
    (name : String) (value : Datum) : Obeys rules store (define frame name value) :=
  .of_ok rfl (rules.holds_define hholds hframe name value) trivial

theorem obeys_lookup (hholds : rules.holds store) (frame : FrameId) (name : String) :
    Obeys rules store (lookup frame name) := by
  refine .get_bind ?_
  split
  · exact .pure hholds trivial
  · exact .fail hholds _

theorem obeys_newPromise (hholds : rules.holds store) (expression : Datum) (frame : FrameId) :
    Obeys rules store (newPromise expression frame) :=
  .of_ok rfl (rules.holds_of_frames hholds rfl) trivial

theorem obeys_settlePromise (hholds : rules.holds store) (id : PromiseId) (value : Datum) :
    Obeys rules store (settlePromise id value) :=
  .of_ok rfl (rules.holds_of_frames hholds rfl) trivial

theorem obeys_write (hholds : rules.holds store) (text : String) :
    Obeys rules store (write text) :=
  .of_ok rfl (rules.holds_of_frames hholds rfl) trivial

theorem obeys_record (hholds : rules.holds store) (level : LogLevel) (logger : Logger)
    (message : String) : Obeys rules store (record level logger message) :=
  .of_ok rfl (rules.holds_of_frames hholds rfl) trivial

theorem obeys_noteOpened (hholds : rules.holds store) (path : String) :
    Obeys rules store (noteOpened path) :=
  .of_ok rfl (rules.holds_of_frames hholds rfl) trivial

/-! ### Failures -/

theorem obeys_numberOfInteger (hholds : rules.holds store) (value : Int) :
    Obeys rules store (numberOfInteger value) := by
  rw [numberOfInteger]
  cases Double.ofInt? value with
  | some number => exact .pure hholds trivial
  | none => exact .throw hholds rules.mayBreak_integerTooLarge

theorem obeys_checkPrintable (hholds : rules.holds store) (limit : Nat) (datum : Datum) :
    Obeys rules store (checkPrintable limit datum) := by
  rw [checkPrintable]
  split
  · exact .pure hholds trivial
  · exact .throw hholds trivial
  · exact .throw hholds rules.mayBreak_integerTooLarge

theorem obeys_failPrinting (hholds : rules.holds store) (limit : Nat) (datum : Datum)
    (fault : Fault) : Obeys rules store (failPrinting limit datum fault) good :=
  (obeys_checkPrintable hholds limit datum).bind fun _ _ hholds _ => .fail hholds fault

theorem obeys_failDiagnosing (hholds : rules.holds store) (limit : Nat) (datum : Datum)
    (fault : Fault) : Obeys rules store (failDiagnosing limit datum fault) good := by
  rw [failDiagnosing]
  split
  · exact .throw hholds trivial
  · exact .fail hholds fault

theorem obeys_ofExcept (hholds : rules.holds store) {result : Except Interrupt α}
    (hinterrupt : ∀ interrupt, result = .error interrupt → rules.mayEndWith interrupt) :
    Obeys rules store (ofExcept result) := by
  cases result with
  | ok value => exact .pure hholds trivial
  | error interrupt => exact .throw hholds (hinterrupt interrupt rfl)

end Machine

end SmallScheme
