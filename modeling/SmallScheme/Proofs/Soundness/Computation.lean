import SmallScheme.Proofs.Machine.Outcome
import SmallScheme.Proofs.Soundness.Store
/-!
# Safe computations

A computation is safe in a sound store if it leaves a sound extension of it, whatever it ends with,
and if what it ends with is good there. Safety is kept by composition, and so it is enough to look
at the steps that computations are made of.
-/

namespace SmallScheme

/-- The interrupt does not come from data that only a host can bring in: integers that are too
large, forms as keys and levels of a log that do not exist. -/
def Interrupt.IsExpected : Interrupt → Prop
  | .breakdown .integerTooLarge | .breakdown .formAsKey | .breakdown (.unknownLevel _) => False
  | _ => True

namespace Machine

variable {α β : Type} {store : Store}

/-- From the store, the computation leaves a sound extension of it. It ends with a good value or
with an expected interrupt. -/
structure Safe (store : Store) (computation : Machine α) (good : Store → α → Prop) : Prop where
  ok : ∀ {value : α} {after : Store}, computation store = .ok value after →
    store.Extends after ∧ after.Sound ∧ good after value
  error : ∀ {interrupt : Interrupt} {after : Store}, computation store = .error interrupt after →
    store.Extends after ∧ after.Sound ∧ interrupt.IsExpected

namespace Safe

variable {computation : Machine α} {good : Store → α → Prop} {post : Store → β → Prop}

theorem of_ok {value : α} {after : Store} (hrun : computation store = .ok value after)
    (hextends : store.Extends after) (hsound : after.Sound) (hgood : good after value) :
    Safe store computation good where
  ok := by
    intro other final hother
    cases hrun.symm.trans hother
    exact ⟨hextends, hsound, hgood⟩
  error := fun hother => by cases hrun.symm.trans hother

theorem of_error {interrupt : Interrupt} {after : Store}
    (hrun : computation store = .error interrupt after) (hextends : store.Extends after)
    (hsound : after.Sound) (hexpected : interrupt.IsExpected) : Safe store computation good where
  ok := fun hother => by cases hrun.symm.trans hother
  error := by
    intro other final hother
    cases hrun.symm.trans hother
    exact ⟨hextends, hsound, hexpected⟩

theorem pure (hsound : store.Sound) {value : α} (hgood : good store value) :
    Safe store (pure value) good :=
  .of_ok rfl (.refl store) hsound hgood

theorem throw (hsound : store.Sound) {interrupt : Interrupt} (hexpected : interrupt.IsExpected) :
    Safe store (throw interrupt) good :=
  .of_error rfl (.refl store) hsound hexpected

theorem fail (hsound : store.Sound) (fault : Fault) : Safe store (fail fault) good :=
  throw hsound trivial

theorem get (hsound : store.Sound) :
    Safe store (get : Machine Store) fun after found => found = after :=
  .of_ok rfl (.refl store) hsound rfl

/-- Safety after a computation that is safe itself. -/
theorem after {computation : Machine β} {between : Store} (hextends : store.Extends between)
    (hsecond : Safe between computation post) {result : Machine β}
    (hrun : result store = computation between) : Safe store result post where
  ok := by
    intro value after hok
    obtain ⟨hextends', hrest⟩ := hsecond.ok (hrun.symm.trans hok)
    exact ⟨hextends.trans hextends', hrest⟩
  error := by
    intro interrupt after herror
    obtain ⟨hextends', hrest⟩ := hsecond.error (hrun.symm.trans herror)
    exact ⟨hextends.trans hextends', hrest⟩

theorem bind {next : α → Machine β} (hfirst : Safe store computation good)
    (hnext : ∀ after value, store.Extends after → after.Sound → good after value →
      Safe after (next value) post) : Safe store (computation >>= next) post := by
  cases hrun : computation store with
  | ok value between =>
    obtain ⟨hextends, hsound, hgood⟩ := hfirst.ok hrun
    exact .after hextends (hnext between value hextends hsound hgood) (bind_of_ok hrun)
  | error interrupt between =>
    obtain ⟨hextends, hsound, hexpected⟩ := hfirst.error hrun
    exact .of_error (bind_of_error hrun) hextends hsound hexpected

theorem mono {better : Store → α → Prop} (hfirst : Safe store computation better)
    (himplies : ∀ after value, store.Extends after → better after value → good after value) :
    Safe store computation good where
  ok := fun hok =>
    have hall := hfirst.ok hok
    ⟨hall.1, hall.2.1, himplies _ _ hall.1 hall.2.2⟩
  error := hfirst.error

theorem map {function : α → β} (hfirst : Safe store computation good)
    (himplies : ∀ after value, good after value → post after (function value)) :
    Safe store (function <$> computation) post := by
  rw [map_eq_pure_bind]
  exact hfirst.bind fun after value _ hsound hgood => pure hsound (himplies after value hgood)

theorem discard (hfirst : Safe store computation good) :
    Safe store (discard computation) fun _ _ => True :=
  hfirst.map fun _ _ _ => trivial

/-- A handler is safe if it is so in whatever store it may find. -/
theorem tryCatch {handler : Interrupt → Machine α} (hfirst : Safe store computation good)
    (hhandler : ∀ after interrupt, store.Extends after → after.Sound → interrupt.IsExpected →
      Safe after (handler interrupt) good) : Safe store (tryCatch computation handler) good := by
  cases hrun : computation store with
  | ok value between =>
    obtain ⟨hextends, hsound, hgood⟩ := hfirst.ok hrun
    exact .of_ok (tryCatch_of_ok hrun) hextends hsound hgood
  | error interrupt between =>
    obtain ⟨hextends, hsound, hexpected⟩ := hfirst.error hrun
    exact .after hextends (hhandler between interrupt hextends hsound hexpected)
      (tryCatch_of_error hrun)

/-! ### Computations for each element of a list -/

theorem mapM {items : List α} {each : α → Machine β}
    (hmono : ∀ before after value, before.Extends after → post before value → post after value)
    (hsound : store.Sound)
    (heach : ∀ after, store.Extends after → after.Sound → ∀ item ∈ items,
      Safe after (each item) post) :
    Safe store (items.mapM each) (fun after values => ∀ value ∈ values, post after value) := by
  induction items generalizing store with
  | nil => exact pure hsound fun _ hmem => absurd hmem List.not_mem_nil
  | cons item rest ih =>
    rw [List.mapM_cons]
    refine (heach store (.refl store) hsound item List.mem_cons_self).bind ?_
    intro between first hextends hsound hfirst
    have hrest : ∀ after, between.Extends after → after.Sound → ∀ item ∈ rest,
        Safe after (each item) post :=
      fun after hafter hsound item hmem =>
        heach after (hextends.trans hafter) hsound item (List.mem_cons_of_mem _ hmem)
    refine (ih hsound hrest).bind fun after others hextends hsound hothers => ?_
    exact pure hsound (List.forall_mem_cons.2 ⟨hmono _ _ _ hextends hfirst, hothers⟩)

theorem forM {items : List α} {each : α → Machine PUnit} (hsound : store.Sound)
    (heach : ∀ after, store.Extends after → after.Sound → ∀ item ∈ items,
      Safe after (each item) fun _ _ => True) :
    Safe store (items.forM each) fun _ _ => True := by
  induction items generalizing store with
  | nil => exact pure hsound trivial
  | cons item rest ih =>
    rw [List.forM]
    refine (heach store (.refl store) hsound item List.mem_cons_self).bind ?_
    intro between _ hextends hsound _
    exact ih hsound fun after hafter hsound item hmem =>
      heach after (hextends.trans hafter) hsound item (List.mem_cons_of_mem _ hmem)

theorem foldlM {items : List α} {each : β → α → Machine β} {start : β} (hsound : store.Sound)
    (hstart : post store start)
    (heach : ∀ after, store.Extends after → after.Sound → ∀ previous, post after previous →
      ∀ item ∈ items, Safe after (each previous item) post) :
    Safe store (items.foldlM each start) post := by
  induction items generalizing store start with
  | nil => exact pure hsound hstart
  | cons item rest ih =>
    rw [List.foldlM_cons]
    refine (heach store (.refl store) hsound start hstart item List.mem_cons_self).bind ?_
    intro between previous hextends hsound hprevious
    exact ih hsound hprevious fun after hafter hsound previous hprevious item hmem =>
      heach after (hextends.trans hafter) hsound previous hprevious item
        (List.mem_cons_of_mem _ hmem)

end Safe

/-- The computation is safe, and what it ends with is a value. -/
abbrev GivesValue (store : Store) (computation : Machine Datum) : Prop :=
  Safe store computation fun after value => value.IsValue after

end Machine

/-! ### Data for steps -/

namespace Datum

theorem isValue_chain {store : Store} {label : Label} {heads : List Datum} {ending : Datum}
    (hheads : ∀ head ∈ heads, head.IsValue store) (hending : ending.IsValue store)
    (hlabel : label + heads.length ≤ store.nextLabel) :
    (chain label heads ending).IsValue store := by
  induction heads generalizing label with
  | nil => exact hending
  | cons head heads ih =>
    rw [List.forall_mem_cons] at hheads
    rw [List.length_cons, Nat.add_comm heads.length, ← Nat.add_assoc] at hlabel
    have hlt : label < store.nextLabel := Nat.le_trans (Nat.le_add_right _ _) hlabel
    exact .pair hlt hheads.1 (ih hheads.2 hlabel)

/-- No value holds an integer of the host. -/
theorem IsValue.obstacle_ne {store : Store} {datum : Datum} (hvalue : datum.IsValue store)
    (limit : Nat) : datum.printObstacle? limit ≠ some .integerTooLarge ∧
      datum.tailObstacle? limit ≠ some .integerTooLarge := by
  induction hvalue generalizing limit with
  | @pair label head tail _ _ _ ihhead ihtail =>
    have hrest : ∀ limit, (head.printObstacle? limit <|> tail.tailObstacle? limit) ≠
        some PrintObstacle.integerTooLarge := by
      intro limit heq
      rw [Option.orElse_eq_orElse, Option.orElse_eq_or, Option.or_eq_some_iff] at heq
      rcases heq with heq | ⟨-, heq⟩
      · exact (ihhead limit).1 heq
      · exact (ihtail limit).2 heq
    rw [printObstacle?, tailObstacle?]
    refine ⟨?_, hrest limit⟩
    split
    · rintro ⟨⟩
    · exact hrest (limit - 1)
  | empty =>
    rw [printObstacle?, tailObstacle?]
    · refine ⟨?_, by rintro ⟨⟩⟩
      split <;> rintro ⟨⟩
    all_goals simp
  | _ =>
    rw [printObstacle?, tailObstacle?]
    · refine ⟨?_, ?_⟩ <;> split <;> rintro ⟨⟩
    all_goals simp

end Datum

namespace Machine

variable {α : Type} {store : Store} {good : Store → α → Prop}

/-! ### Steps on the store -/

theorem safe_freshLabels (hsound : store.Sound) (count : Nat) :
    Safe store (freshLabels count) fun after label => label + count ≤ after.nextLabel :=
  .of_ok rfl (store.extends_of_eq (Nat.le_add_right _ _) rfl rfl)
    (hsound.of_eq (Nat.le_add_right _ _) rfl rfl) (Nat.le_refl _)

theorem givesValue_cons (hsound : store.Sound) {head tail : Datum} (hhead : head.IsValue store)
    (htail : tail.IsValue store) : GivesValue store (cons head tail) :=
  (safe_freshLabels hsound 1).bind fun _ _ hextends hsound hlabel =>
    .pure hsound (.pair hlabel (hhead.mono hextends) (htail.mono hextends))

theorem givesValue_listOf (hsound : store.Sound) {heads : List Datum} {ending : Datum}
    (hheads : ∀ head ∈ heads, head.IsValue store) (hending : ending.IsValue store) :
    GivesValue store (listOf heads ending) :=
  (safe_freshLabels hsound heads.length).bind fun _ _ hextends hsound hlabel =>
    .pure hsound (Datum.isValue_chain (fun head hmem => (hheads head hmem).mono hextends)
      (hending.mono hextends) hlabel)

theorem givesValue_closure (hsound : store.Sound) {name : Option String} {formals : Formals}
    {body : List Datum} {frame : FrameId} (hname : ∀ text ∈ name, IsIdentifier text)
    (hformals : ∀ formal ∈ formals.names, IsIdentifier formal)
    (hbody : ∀ form ∈ body, form.IsSyntax) (hframe : frame < store.frames.size) :
    GivesValue store (closure name formals body frame) :=
  (safe_freshLabels hsound 1).bind fun _ _ hextends hsound hlabel =>
    .pure hsound (.closure hlabel hname hformals hbody (hextends.frame_lt hframe))

theorem safe_newFrame (hsound : store.Sound) {bindings : Bindings} {outer : FrameId}
    (hbindings : ∀ binding ∈ bindings, binding.2.IsValue store)
    (houter : outer < store.frames.size) :
    Safe store (newFrame bindings (some outer)) fun after frame => frame < after.frames.size := by
  refine .of_ok rfl (store.extends_pushFrame _) (hsound.pushFrame ⟨hbindings, ?_⟩) ?_
  · rintro other ⟨⟩
    exact houter
  · exact Nat.lt_of_lt_of_eq (Nat.lt_succ_self _) (Array.size_push _).symm

theorem safe_define (hsound : store.Sound) (frame : FrameId) (name : String) {value : Datum}
    (hvalue : value.IsValue store) : Safe store (define frame name value) fun _ _ => True :=
  .of_ok rfl (store.extends_define frame name value) (hsound.define frame name hvalue) trivial

theorem givesValue_lookup (hsound : store.Sound) (frame : FrameId) (name : String) :
    GivesValue store (lookup frame name) := by
  refine (Safe.get hsound).bind fun after _ _ hsound heq => ?_
  subst heq
  split
  · next hlookup => exact .pure hsound (hsound.isValue_of_lookup? hlookup)
  · exact .fail hsound _

theorem givesValue_newPromise (hsound : store.Sound) {expression : Datum} {frame : FrameId}
    (hexpression : expression.IsSyntax) (hframe : frame < store.frames.size) :
    GivesValue store (newPromise expression frame) := by
  refine .of_ok rfl (store.extends_pushPromise _) (hsound.pushPromise ⟨hexpression, hframe⟩)
    (.promise ?_)
  exact Nat.lt_of_lt_of_eq (Nat.lt_succ_self _) (Array.size_push _).symm

/-- A promise is settled only if it has no value yet. -/
theorem safe_settlePromise (hsound : store.Sound) {id : PromiseId}
    (hpending : ∀ earlier, store.promises[id]? ≠ some (.forced earlier)) {value : Datum}
    (hvalue : value.IsValue store) : Safe store (settlePromise id value) fun _ _ => True :=
  .of_ok rfl (store.extends_settlePromise hpending value) (hsound.settlePromise hpending hvalue)
    trivial

theorem safe_write (hsound : store.Sound) (text : String) :
    Safe store (write text) fun _ _ => True :=
  .of_ok rfl (store.extends_of_eq (Nat.le_refl _) rfl rfl) (hsound.of_eq (Nat.le_refl _) rfl rfl)
    trivial

theorem safe_record (hsound : store.Sound) (level : LogLevel) (logger : Logger)
    (message : String) : Safe store (record level logger message) fun _ _ => True :=
  .of_ok rfl (store.extends_of_eq (Nat.le_refl _) rfl rfl) (hsound.of_eq (Nat.le_refl _) rfl rfl)
    trivial

theorem safe_noteOpened (hsound : store.Sound) (path : String) :
    Safe store (noteOpened path) fun _ _ => True :=
  .of_ok rfl (store.extends_of_eq (Nat.le_refl _) rfl rfl) (hsound.of_eq (Nat.le_refl _) rfl rfl)
    trivial

theorem safe_checkPrintable (hsound : store.Sound) {datum : Datum} (hvalue : datum.IsValue store)
    (limit : Nat) : Safe store (checkPrintable limit datum) fun _ _ => True := by
  rw [checkPrintable]
  split
  · exact .pure hsound trivial
  · exact .throw hsound trivial
  · next hobstacle => exact absurd hobstacle (hvalue.obstacle_ne limit).1

theorem safe_failPrinting (hsound : store.Sound) {datum : Datum} (hvalue : datum.IsValue store)
    (limit : Nat) (fault : Fault) : Safe store (failPrinting limit datum fault) good :=
  (safe_checkPrintable hsound hvalue limit).bind fun _ _ _ hsound _ => .fail hsound fault

theorem safe_failDiagnosing (hsound : store.Sound) (limit : Nat) (datum : Datum) (fault : Fault) :
    Safe store (failDiagnosing limit datum fault) good := by
  rw [failDiagnosing]
  split
  · exact .throw hsound trivial
  · exact .fail hsound fault

theorem safe_ofExcept (hsound : store.Sound) {result : Except Interrupt α}
    (hgood : ∀ value, result = .ok value → good store value)
    (hexpected : ∀ interrupt, result = .error interrupt → interrupt.IsExpected) :
    Safe store (ofExcept result) good := by
  cases result with
  | ok value => exact .pure hsound (hgood value rfl)
  | error interrupt => exact .throw hsound (hexpected interrupt rfl)

end Machine

end SmallScheme
