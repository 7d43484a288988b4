import SmallScheme.Proofs.Machine.Outcome
import SmallScheme.Proofs.Sharing.Heap
/-!
# Computations on cells

A computation keeps cells if it leaves a store whose data live in a larger heap than before, with
whatever it ends. This is kept by composition, so it is enough to look at the steps that
computations are made of; only those that give out labels put new cells in the heap.
-/

namespace SmallScheme

namespace Machine

variable {α β : Type} {heap : Heap} {store : Store}

/-- The store that is left lives in a larger heap, in which the value, if there is one, is good. -/
inductive EndsIn (heap : Heap) (good : Heap → α → Prop) :
    EStateM.Result Interrupt Store α → Prop where
  | ok {value : α} {after : Store} {later : Heap} (hextends : heap.Extends later)
    (hlives : after.LivesIn later) (hgood : good later value) : EndsIn heap good (.ok value after)
  | error {interrupt : Interrupt} {after : Store} {later : Heap} (hextends : heap.Extends later)
    (hlives : after.LivesIn later) : EndsIn heap good (.error interrupt after)

/-- From the store, which lives in the heap, the computation keeps all cells and ends with a good
value, if it does not end with an interrupt. -/
def Keeps (heap : Heap) (store : Store) (computation : Machine α) (good : Heap → α → Prop) : Prop :=
  EndsIn heap good (computation store)

/-- What the computation ends with lives where the store does. -/
abbrev KeepsDatum (heap : Heap) (store : Store) (computation : Machine Datum) : Prop :=
  Keeps heap store computation fun later value => value.LivesIn later

theorem EndsIn.of_extends {good : Heap → α → Prop} {later : Heap}
    {outcome : EStateM.Result Interrupt Store α} (hextends : heap.Extends later)
    (hends : EndsIn later good outcome) : EndsIn heap good outcome := by
  cases hends with
  | ok hextends' hlives hgood => exact .ok (hextends.trans hextends') hlives hgood
  | error hextends' hlives => exact .error (hextends.trans hextends') hlives

namespace Keeps

variable {computation : Machine α} {good : Heap → α → Prop} {post : Heap → β → Prop}

theorem exists_of_ok (hkeeps : Keeps heap store computation good) {value : α} {after : Store}
    (hrun : computation store = .ok value after) :
    ∃ later, heap.Extends later ∧ after.LivesIn later ∧ good later value := by
  rw [Keeps, hrun] at hkeeps
  obtain ⟨hextends, hlives, hgood⟩ := hkeeps
  exact ⟨_, hextends, hlives, hgood⟩

theorem exists_of_error (hkeeps : Keeps heap store computation good) {interrupt : Interrupt}
    {after : Store} (hrun : computation store = .error interrupt after) :
    ∃ later, heap.Extends later ∧ after.LivesIn later := by
  rw [Keeps, hrun] at hkeeps
  obtain - | ⟨hextends, hlives⟩ := hkeeps
  exact ⟨_, hextends, hlives⟩

theorem pure (hlives : store.LivesIn heap) {value : α} (hgood : good heap value) :
    Keeps heap store (pure value) good :=
  .ok (.refl heap) hlives hgood

theorem throw (hlives : store.LivesIn heap) (interrupt : Interrupt) :
    Keeps heap store (throw interrupt) good :=
  .error (.refl heap) hlives

theorem fail (hlives : store.LivesIn heap) (fault : Fault) : Keeps heap store (fail fault) good :=
  throw hlives _

theorem get (hlives : store.LivesIn heap) :
    Keeps heap store (get : Machine Store) fun later found => found.LivesIn later :=
  .ok (.refl heap) hlives hlives

theorem bind {next : α → Machine β} (hfirst : Keeps heap store computation good)
    (hnext : ∀ later after value, heap.Extends later → after.LivesIn later → good later value →
      Keeps later after (next value) post) : Keeps heap store (computation >>= next) post := by
  unfold Keeps at hfirst ⊢
  cases hrun : computation store with
  | ok value after =>
    rw [hrun] at hfirst
    obtain ⟨hextends, hlives, hgood⟩ := hfirst
    rw [bind_of_ok hrun]
    exact .of_extends hextends (hnext _ after value hextends hlives hgood)
  | error interrupt after =>
    rw [hrun] at hfirst
    obtain - | ⟨hextends, hlives⟩ := hfirst
    rw [bind_of_error hrun]
    exact .error hextends hlives

/-- A handler keeps cells if it does so in whatever store it may find. -/
theorem tryCatch {handler : Interrupt → Machine α} (hfirst : Keeps heap store computation good)
    (hhandler : ∀ later after interrupt, heap.Extends later → after.LivesIn later →
      Keeps later after (handler interrupt) good) :
    Keeps heap store (tryCatch computation handler) good := by
  unfold Keeps at hfirst ⊢
  cases hrun : computation store with
  | ok value after =>
    rw [hrun] at hfirst
    rw [tryCatch_of_ok hrun]
    exact hfirst
  | error interrupt after =>
    rw [hrun] at hfirst
    obtain - | ⟨hextends, hlives⟩ := hfirst
    rw [tryCatch_of_error hrun]
    exact .of_extends hextends (hhandler _ after interrupt hextends hlives)

theorem map {function : α → β} (hfirst : Keeps heap store computation good)
    (himplies : ∀ later value, good later value → post later (function value)) :
    Keeps heap store (function <$> computation) post := by
  rw [map_eq_pure_bind]
  exact hfirst.bind fun later _ value _ hlives hgood => pure hlives (himplies later value hgood)

theorem mono {good' : Heap → α → Prop} (hfirst : Keeps heap store computation good)
    (himplies : ∀ later value, good later value → good' later value) :
    Keeps heap store computation good' := by
  have hmap : Keeps heap store (id <$> computation) good' := hfirst.map himplies
  rwa [id_map] at hmap

theorem discard (hfirst : Keeps heap store computation good) :
    Keeps heap store (discard computation) fun _ _ => True :=
  hfirst.map fun _ _ _ => trivial

/-! ### Computations for each element of a list -/

theorem mapM {items : List α} {each : α → Machine β}
    (hmono : ∀ before after value, before.Extends after → post before value → post after value)
    (hlives : store.LivesIn heap)
    (heach : ∀ later after, heap.Extends later → after.LivesIn later → ∀ item ∈ items,
      Keeps later after (each item) post) :
    Keeps heap store (items.mapM each) fun later values => ∀ value ∈ values, post later value := by
  induction items generalizing heap store with
  | nil => exact pure hlives fun _ hmem => absurd hmem List.not_mem_nil
  | cons item rest ih =>
    rw [List.mapM_cons]
    refine (heach heap store (.refl heap) hlives item List.mem_cons_self).bind ?_
    intro between middle first hextends hlives hfirst
    have hrest : ∀ later after, between.Extends later → after.LivesIn later → ∀ item ∈ rest,
        Keeps later after (each item) post :=
      fun later after hlater hlives item hmem =>
        heach later after (hextends.trans hlater) hlives item (List.mem_cons_of_mem _ hmem)
    refine (ih hlives hrest).bind fun later after others hextends hlives hothers => ?_
    exact pure hlives (List.forall_mem_cons.2 ⟨hmono _ _ _ hextends hfirst, hothers⟩)

theorem forM {items : List α} {each : α → Machine PUnit} (hlives : store.LivesIn heap)
    (heach : ∀ later after, after.LivesIn later → ∀ item ∈ items,
      Keeps later after (each item) fun _ _ => True) :
    Keeps heap store (items.forM each) fun _ _ => True := by
  induction items generalizing heap store with
  | nil => exact pure hlives trivial
  | cons item rest ih =>
    rw [List.forM]
    refine (heach heap store hlives item List.mem_cons_self).bind fun _ _ _ _ hlives _ => ?_
    exact ih hlives fun later after hlives item hmem =>
      heach later after hlives item (List.mem_cons_of_mem _ hmem)

theorem foldlM {items : List α} {each : β → α → Machine β} {start : β}
    (hlives : store.LivesIn heap) (hstart : post heap start)
    (heach : ∀ later after, heap.Extends later → after.LivesIn later → ∀ previous,
      post later previous → ∀ item ∈ items, Keeps later after (each previous item) post) :
    Keeps heap store (items.foldlM each start) post := by
  induction items generalizing heap store start with
  | nil => exact pure hlives hstart
  | cons item rest ih =>
    rw [List.foldlM_cons]
    refine (heach heap store (.refl heap) hlives start hstart item List.mem_cons_self).bind ?_
    intro between middle previous hextends hlives hprevious
    exact ih hlives hprevious fun later after hlater hlives previous hprevious item hmem =>
      heach later after (hextends.trans hlater) hlives previous hprevious item
        (List.mem_cons_of_mem _ hmem)

end Keeps

variable {good : Heap → α → Prop}

/-! ### Steps on the store -/

/-- New cells of a chain, of a single pair or of no pair at all. -/
theorem keepsDatum_listOf (hlives : store.LivesIn heap) {heads : List Datum} {ending : Datum}
    (hheads : ∀ head ∈ heads, head.LivesIn heap) (hending : ending.LivesIn heap) :
    KeepsDatum heap store (listOf heads ending) := by
  obtain ⟨later, hextends, -, hfresh, hchain⟩ :=
    Datum.exists_livesIn_chain hlives.fresh hheads hending
  exact .ok hextends (hlives.of_eq hextends hfresh rfl rfl) hchain

theorem keepsDatum_cons (hlives : store.LivesIn heap) {head tail : Datum}
    (hhead : head.LivesIn heap) (htail : tail.LivesIn heap) :
    KeepsDatum heap store (cons head tail) := by
  have hheads : ∀ item ∈ [head], item.LivesIn heap := List.forall_mem_singleton.2 hhead
  exact keepsDatum_listOf hlives hheads htail

theorem keepsDatum_closure (hlives : store.LivesIn heap) (name : Option String)
    (formals : Formals) {body : List Datum} (frame : FrameId)
    (hbody : ∀ form ∈ body, form.LivesIn heap) :
    KeepsDatum heap store (closure name formals body frame) := by
  have hextends := Heap.extends_update (hlives.fresh _ (Nat.le_refl store.nextLabel))
    (.closure store.nextLabel name formals body frame)
  refine .ok hextends (hlives.of_eq hextends (fun label hle => ?_) rfl rfl) ?_
  · have hlt : store.nextLabel < label := hle
    rw [Function.update_of_ne (Nat.ne_of_gt hlt), hlives.fresh label (Nat.le_of_lt hlt)]
  · exact Datum.livesIn_closure.2 ⟨Function.update_self ..,
      fun form hmem => (hbody form hmem).mono hextends⟩

theorem keeps_newFrame (hlives : store.LivesIn heap) {bindings : Bindings}
    (hbindings : ∀ binding ∈ bindings, binding.2.LivesIn heap) (outer : Option FrameId) :
    Keeps heap store (newFrame bindings outer) fun _ _ => True :=
  .ok (.refl heap) (hlives.pushFrame hbindings) trivial

theorem keeps_define (hlives : store.LivesIn heap) (frame : FrameId) (name : String)
    {value : Datum} (hvalue : value.LivesIn heap) :
    Keeps heap store (define frame name value) fun _ _ => True :=
  .ok (.refl heap) (hlives.define frame name hvalue) trivial

theorem keepsDatum_lookup (hlives : store.LivesIn heap) (frame : FrameId) (name : String) :
    KeepsDatum heap store (lookup frame name) := by
  refine (Keeps.get hlives).bind fun _ _ found _ hlives hfound => ?_
  split
  · next hlookup => exact .pure hlives (hfound.of_lookup? hlookup)
  · exact .fail hlives _

theorem keepsDatum_newPromise (hlives : store.LivesIn heap) {expression : Datum}
    (frame : FrameId) (hexpression : expression.LivesIn heap) :
    KeepsDatum heap store (newPromise expression frame) := by
  have hpromise : (Promise.pending expression frame).LivesIn heap := hexpression
  exact .ok (.refl heap) (hlives.pushPromise hpromise) (Datum.livesIn_of_cells_eq_nil rfl)

theorem keeps_settlePromise (hlives : store.LivesIn heap) (id : PromiseId) {value : Datum}
    (hvalue : value.LivesIn heap) :
    Keeps heap store (settlePromise id value) fun _ _ => True :=
  .ok (.refl heap) (hlives.settlePromise id hvalue) trivial

/-- A step that only leaves traces. -/
theorem keeps_modify (hlives : store.LivesIn heap) {change : Store → Store}
    (hlabels : (change store).nextLabel = store.nextLabel)
    (hframes : (change store).frames = store.frames)
    (hpromises : (change store).promises = store.promises) :
    Keeps heap store (modify change) fun _ _ => True :=
  .ok (.refl heap) (hlives.of_eq (.refl heap) (hlabels ▸ hlives.fresh) hframes hpromises) trivial

theorem keeps_write (hlives : store.LivesIn heap) (text : String) :
    Keeps heap store (write text) fun _ _ => True :=
  keeps_modify hlives rfl rfl rfl

theorem keeps_record (hlives : store.LivesIn heap) (level : LogLevel) (logger : Logger)
    (message : String) : Keeps heap store (record level logger message) fun _ _ => True :=
  keeps_modify hlives rfl rfl rfl

theorem keeps_noteOpened (hlives : store.LivesIn heap) (path : String) :
    Keeps heap store (noteOpened path) fun _ _ => True :=
  keeps_modify hlives rfl rfl rfl

theorem keeps_checkPrintable (hlives : store.LivesIn heap) (limit : Nat) (datum : Datum) :
    Keeps heap store (checkPrintable limit datum) fun _ _ => True := by
  rw [checkPrintable]
  split
  · exact .pure hlives trivial
  · exact .throw hlives _
  · exact .throw hlives _

theorem keeps_failPrinting (hlives : store.LivesIn heap) (limit : Nat) (datum : Datum)
    (fault : Fault) : Keeps heap store (failPrinting limit datum fault) good :=
  (keeps_checkPrintable hlives limit datum).bind fun _ _ _ _ hlives _ => .fail hlives fault

theorem keeps_failDiagnosing (hlives : store.LivesIn heap) (limit : Nat) (datum : Datum)
    (fault : Fault) : Keeps heap store (failDiagnosing limit datum fault) good := by
  rw [failDiagnosing]
  split
  · exact .throw hlives _
  · exact .fail hlives fault

theorem keeps_ofExcept (hlives : store.LivesIn heap) {result : Except Interrupt α}
    (hgood : ∀ value, result = .ok value → good heap value) :
    Keeps heap store (ofExcept result) good := by
  cases result with
  | ok value => exact .pure hlives (hgood value rfl)
  | error interrupt => exact .throw hlives interrupt

end Machine

end SmallScheme
