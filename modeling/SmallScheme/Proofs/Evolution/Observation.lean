import SmallScheme.Proofs.Comparison.Evaluator
import SmallScheme.Proofs.Evolution.Store
/-!
# Evaluation under observation

An observer looks at the calls of procedures, before each of them and after each that returns, and
may stop the evaluation there. So what an evaluation comes to is what some observer stops it at, and
in which order it comes to two things shows in which of the two is stopped at first. Observed or
not, whatever is run evolves the store, and it evolves from one stop to the next.
-/

namespace SmallScheme

open Machine Interpreter

/-- What may be observed: a call with evaluated arguments, and the return of one with its value. -/
inductive Moment where
  | called (callee : Datum) (arguments : List Datum)
  | returned (callee : Datum) (arguments : List Datum) (value : Datum)

abbrev Observer := Moment → Store → Bool

namespace Observed

/-- The interrupt of an observer: one that nothing handles, and that no evaluation from a sound
store ends with by itself. -/
abbrev stop : Interrupt := .breakdown .formAsKey

def notice (observer : Observer) (moment : Moment) : Machine Unit := do
  if observer moment (← get) then throw stop

/-! ### The evaluator -/

variable (observer : Observer)

/-- A call of a closure does not return, but proceeds with the body. -/
def finish (callee : Datum) (arguments : List Datum) : Step → Machine Step
  | .done value => do
    notice observer (.returned callee arguments value)
    return .done value
  | .proceed expression frame => return .proceed expression frame

def apply (context : Context) (callee : Datum) (arguments : List Datum) : Machine Step := do
  notice observer (.called callee arguments)
  let step ← applyProcedure context callee arguments
  finish observer callee arguments step

/-- Evaluate an expression as without an observer, up to what the observer stops at. -/
def evaluate (host : Host) (steps : Nat) : Nat → Datum → FrameId → Machine Datum
  | 0, _, _ => throw .tooDeep
  | limit + 1, expression, frame =>
    let context : Context := { host, limit, evaluate := evaluate host steps limit }
    iterate (stepWith (apply observer context) context) steps expression frame

/-- The surroundings of an interpreter in which every evaluation is observed. -/
def contextWithin (host : Host) (steps limit : Nat) : Context where
  host := host
  limit := limit
  evaluate := evaluate observer host steps limit

end Observed

/-- The force of a promise returns a value that the promise has from then on. -/
def Moment.Fits (store : Store) : Moment → Prop
  | .called .. => True
  | .returned callee arguments value => ∀ id : PromiseId, callee = .builtin .force →
    arguments = [.promise id] → ∀ promise ∈ store.promises[id]?, promise = .forced value

/-- The early observer notices whatever the late one does. -/
def Observer.Covers (early late : Observer) : Prop :=
  ∀ moment store, late moment store = true → early moment store = true

/-- Not every return of a force of the promise is noticed. -/
def Observer.MayMiss (observer : Observer) (id : PromiseId) : Prop :=
  ∃ value store, observer (.returned (.builtin .force) [.promise id] value) store = false

/-! ### Two observers -/

namespace Observed

variable {α β : Type} {early late : Observer} {good : α → Prop}

/-- Under the early observer there is the same outcome as under the late one, and promises are
forced only where their return may be missed; or it stops, and what the late one sees comes after.
If the late one notices the same, it stops there as well. -/
inductive Accords (early late : Observer) (good : α → Prop) (store : Store) :
    Outcome α → Outcome α → Prop where
  | together {outcome : Outcome α} (hevolves : store.Evolves early.MayMiss (Outcome.store outcome))
    (hgood : ∀ value after, outcome = .ok value after → good value) :
    Accords early late good store outcome outcome
  | stopped {moment : Moment} {between : Store} {outcome : Outcome α}
    (hearly : early moment between = true) (hfits : moment.Fits between)
    (hlate : late moment between = true → outcome = .error stop between)
    (hbefore : store.Evolves (fun _ => True) between)
    (hafter : between.Evolves (fun _ => True) (Outcome.store outcome))
    (hgood : ∀ value after, outcome = .ok value after → good value) :
    Accords early late good store (.error stop between) outcome

namespace Accords

variable {store between : Store} {left right : Outcome α}

theorem evolves (haccords : Accords early late good store left right) :
    store.Evolves (fun _ => True) (Outcome.store right) := by
  cases haccords with
  | together hevolves _ => exact hevolves.mono fun _ _ => trivial
  | stopped _ _ _ hbefore hafter _ => exact hbefore.trans hafter

theorem good_of_ok (haccords : Accords early late good store left right) {value : α} {after : Store}
    (hright : right = .ok value after) : good value := by
  cases haccords with
  | together _ hgood => exact hgood value after hright
  | stopped _ _ _ _ _ hgood => exact hgood value after hright

/-- What accords after an evolution accords with it. -/
theorem after (hevolves : store.Evolves early.MayMiss between)
    (haccords : Accords early late good between left right) :
    Accords early late good store left right := by
  cases haccords with
  | together hevolves' hgood => exact .together (hevolves.trans hevolves') hgood
  | stopped hearly hfits hlate hbefore hafter hgood =>
    exact .stopped hearly hfits hlate ((hevolves.mono fun _ _ => trivial).trans hbefore) hafter
      hgood

/-- What forces nothing accords with itself. -/
theorem refl {computation : Machine α} (store : Store)
    (hevolves : store.Evolves (fun _ => False) (Outcome.store (computation store)))
    (hgood : ∀ value after, computation store = .ok value after → good value) :
    Accords early late good store (computation store) (computation store) :=
  .together (hevolves.mono fun _ hfalse => hfalse.elim) hgood

end Accords

/-- The computations accord in every store. -/
def Follows (early late : Observer) (good : α → Prop) (left right : Machine α) : Prop :=
  ∀ store, Accords early late good store (left store) (right store)

theorem Accords.bind {post : β → Prop} {store start : Store} {left right : Machine α}
    {next next' : α → Machine β} (hfirst : Accords early late good store (left start) (right start))
    (hnext : ∀ value, good value → Follows early late post (next value) (next' value)) :
    Accords early late post store ((left >>= next) start) ((right >>= next') start) := by
  generalize hleft : left start = leftOutcome at hfirst
  generalize hright : right start = rightOutcome at hfirst
  cases hfirst with
  | together hevolves hgood =>
    cases leftOutcome with
    | ok value between =>
      rw [bind_of_ok hleft, bind_of_ok hright]
      exact (hnext value (hgood value between rfl) between).after hevolves
    | error interrupt between =>
      rw [bind_of_error hleft, bind_of_error hright]
      exact .together hevolves (by rintro _ _ ⟨⟩)
  | stopped hearly hfits hlate hbefore hafter hgood =>
    rw [bind_of_error hleft]
    cases rightOutcome with
    | ok value between =>
      rw [bind_of_ok hright]
      have hrest := hnext value (hgood value between rfl) between
      exact .stopped hearly hfits (fun hnoticed => by cases hlate hnoticed) hbefore
        (hafter.trans hrest.evolves) fun _ _ => hrest.good_of_ok
    | error interrupt between =>
      rw [bind_of_error hright]
      refine .stopped hearly hfits (fun hnoticed => ?_) hbefore hafter (by rintro _ _ ⟨⟩)
      cases hlate hnoticed
      rfl

theorem Follows.bind {post : β → Prop} {left right : Machine α} {next next' : α → Machine β}
    (hfirst : Follows early late good left right)
    (hnext : ∀ value, good value → Follows early late post (next value) (next' value)) :
    Follows early late post (left >>= next) (right >>= next') :=
  fun store => (hfirst store).bind hnext

theorem Follows.tryCatch {left right : Machine α} {handler : Interrupt → Machine α}
    (hfirst : Follows early late good left right)
    (hhandler : ∀ interrupt, Follows early late good (handler interrupt) (handler interrupt))
    (hstop : handler stop = throw stop) :
    Follows early late good (tryCatch left handler) (MonadExcept.tryCatch right handler) := by
  intro store
  have haccords := hfirst store
  generalize hleft : left store = leftOutcome at haccords
  generalize hright : right store = rightOutcome at haccords
  cases haccords with
  | together hevolves hgood =>
    cases leftOutcome with
    | ok value between =>
      rw [tryCatch_of_ok hleft, tryCatch_of_ok hright]
      exact .together hevolves hgood
    | error interrupt between =>
      rw [tryCatch_of_error hleft, tryCatch_of_error hright]
      exact (hhandler interrupt between).after hevolves
  | @stopped _ between _ hearly hfits hlate hbefore hafter hgood =>
    have hhandled : MonadExcept.tryCatch left handler store = .error stop between := by
      rw [tryCatch_of_error hleft, hstop]
      rfl
    rw [hhandled]
    cases rightOutcome with
    | ok value final =>
      rw [tryCatch_of_ok hright]
      exact .stopped hearly hfits hlate hbefore hafter hgood
    | error interrupt final =>
      rw [tryCatch_of_error hright]
      have hrest := hhandler interrupt final
      refine .stopped hearly hfits (fun hnoticed => ?_) hbefore (hafter.trans hrest.evolves)
        fun _ _ => hrest.good_of_ok
      cases hlate hnoticed
      rw [hstop]
      rfl

/-! ### The comparison -/

theorem follows_of_change {computation : Machine α}
    (hchange : ∀ store, ∃ value after, computation store = .ok value after ∧
      Store.Change (fun _ => False) store after ∧ good value) :
    Follows early late good computation computation := by
  intro store
  obtain ⟨value, after, hrun, hchange, hgood⟩ := hchange store
  refine .refl store (hrun ▸ .of_change hchange) fun other final hother => ?_
  cases hrun.symm.trans hother
  exact hgood

theorem follows_throw (interrupt : Interrupt) :
    Follows early late good (throw interrupt) (throw interrupt) :=
  fun store => .refl store (.refl store) fun _ _ hrun => by cases hrun

end Observed

/-- Computations under an early and under a late observer. -/
def Comparison.observing (early late : Observer) : Comparison where
  scope := fun _ => True
  slack := 0
  forgives := False
  slack_eq_zero_or_forgives := Comparison.slack_zero_or False
  Relates := Observed.Follows early late
  pure := fun hgood store => .refl store (.refl store) fun _ _ hrun => by cases hrun; exact hgood
  throw := Observed.follows_throw
  tooDeep := fun hfalse => hfalse.elim
  bind := .bind
  tryCatch := by
    intro α good left right handler hfirst hfault hrethrow
    exact hfirst.tryCatch (relates_handler hfault hrethrow Observed.follows_throw)
      (hrethrow _ (by rintro fault ⟨⟩))
  guarded := by
    intro good left right hfirst _
    refine hfirst.tryCatch (fun interrupt => ?_) rfl
    cases interrupt <;> exact Observed.follows_throw _
  freshLabels := fun count => Observed.follows_of_change fun store =>
    ⟨_, _, rfl, .around (Nat.le_add_right _ _) rfl rfl, trivial⟩
  newFrame := fun _ _ => Observed.follows_of_change fun store =>
    ⟨_, _, rfl, .frame store _ _, trivial⟩
  define := fun _ _ => Observed.follows_of_change fun store =>
    ⟨_, _, rfl, .binding store _ _ _, trivial⟩
  lookup := by
    intro frame name _ store
    refine .refl store ?_ fun _ _ _ _ _ => trivial
    rw [lookup_eq]
    cases store.lookup? name frame <;> exact .refl store
  newPromise := fun _ _ => Observed.follows_of_change fun store =>
    ⟨_, _, rfl, .promise store _ _, fun _ _ => trivial⟩
  promise? := fun _ => Observed.follows_of_change fun store =>
    ⟨_, _, rfl, .around (Nat.le_refl _) rfl rfl, fun promise _ => promise.inScope_everything⟩
  write := fun _ => Observed.follows_of_change fun store =>
    ⟨_, _, rfl, .around (Nat.le_refl _) rfl rfl, trivial⟩
  record := fun _ _ _ => Observed.follows_of_change fun store =>
    ⟨_, _, rfl, .around (Nat.le_refl _) rfl rfl, trivial⟩
  noteOpened := fun _ => Observed.follows_of_change fun store =>
    ⟨_, _, rfl, .around (Nat.le_refl _) rfl rfl, trivial⟩

namespace Observed

variable {early late : Observer} {store after : Store}

theorem notice_eq (observer : Observer) (moment : Moment) (store : Store) :
    notice observer moment store =
      if observer moment store then .error stop store else .ok () store := by
  change (if observer moment store then throw stop else pure PUnit.unit : Machine PUnit) store = _
  cases observer moment store <;> rfl

/-- A moment that both may notice comes after an evolution, in which promises are forced that the
early observer would not miss only if it notices the moment. -/
theorem accords_notice (hcovers : early.Covers late) {moment : Moment}
    (hfits : moment.Fits after) (hbefore : store.Evolves (fun _ => True) after)
    (hmissed : early moment after = false → store.Evolves early.MayMiss after) :
    Accords early late (fun _ => True) store (notice early moment after)
      (notice late moment after) := by
  rw [notice_eq, notice_eq]
  cases hearly : early moment after with
  | true =>
    refine .stopped hearly hfits (fun hlate => by rw [hlate]; rfl) hbefore ?_ fun _ _ _ => trivial
    split <;> exact .refl after
  | false =>
    have hlate : late moment after = false := by
      cases hlate : late moment after with
      | true => rw [hcovers moment after hlate] at hearly; cases hearly
      | false => rfl
    rw [hlate]
    exact .together (hmissed hearly) fun _ _ _ => trivial

end Observed

end SmallScheme
