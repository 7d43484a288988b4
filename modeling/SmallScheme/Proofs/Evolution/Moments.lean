import SmallScheme.Proofs.Evolution.Observation
/-!
# The moments of a run

A run is a task performed from a store. The moments that it has are what an observer can stop it at,
and one moment comes before another one if an observer of both stops at the first. From each moment
on the store only evolves, and in a sound store nothing but values is called and returned.
-/

namespace SmallScheme

open Machine Interpreter

/-! ### Observed evaluation -/

namespace Observed

variable {early late : Observer} {left right : Context}

theorem follows_notice (hcovers : early.Covers late) {moment : Moment}
    (hfits : ∀ store, moment.Fits store) :
    Follows early late (fun _ => True) (notice early moment) (notice late moment) :=
  fun store => accords_notice hcovers (hfits store) (.refl store) fun _ => .refl store

section Forcing

variable {id : PromiseId} {store : Store}

/-- A force that returns what the promise holds. -/
theorem accords_finish {after : Store} (hcovers : early.Covers late)
    (hbefore : store.Evolves (Eq id) after) {value : Datum}
    (hholds : ∀ promise ∈ after.promises[id]?, promise = .forced value) :
    Accords early late (Step.InScope fun _ => True) store
      (finish early (.builtin .force) [.promise id] (.done value) after)
      (finish late (.builtin .force) [.promise id] (.done value) after) := by
  have hfits : Moment.Fits after (.returned (.builtin .force) [.promise id] value) := by
    rintro _ - ⟨⟩
    exact hholds
  refine (accords_notice hcovers hfits (hbefore.mono fun _ _ => trivial) fun hmissed => ?_).bind
    fun _ _ => (Comparison.observing early late).pure fun _ _ => trivial
  exact hbefore.mono fun _ heq => heq ▸ ⟨value, after, hmissed⟩

/-- The value kept is the one that the promise holds then. -/
theorem evolves_keepFirst (id : PromiseId) (value : Datum) (store : Store) :
    ∃ kept after, keepFirst id value store = .ok kept after ∧ store.Evolves (Eq id) after ∧
      ∀ promise ∈ after.promises[id]?, promise = .forced kept := by
  by_cases hforced : ∃ earlier, store.promises[id]? = some (.forced earlier)
  · obtain ⟨earlier, hforced⟩ := hforced
    refine ⟨earlier, store, keepFirst_of_forced hforced value, .refl store, ?_⟩
    rintro promise hpromise
    exact Option.some.inj (hpromise.symm.trans hforced)
  · have hunforced : ∀ earlier, store.promises[id]? ≠ some (.forced earlier) :=
      fun earlier heq => hforced ⟨earlier, heq⟩
    refine ⟨value, store.settlePromise id value, keepFirst_of_unforced hunforced value,
      .of_change (.value rfl hunforced value), ?_⟩
    intro promise hpromise
    rw [Store.settlePromise, Array.getElem?_modify, if_pos rfl] at hpromise
    obtain ⟨_, -, rfl⟩ := Option.map_eq_some_iff.1 hpromise
    rfl

theorem follows_force (hcovers : early.Covers late)
    (hcontexts : (Comparison.observing early late).Matches left right) (id : PromiseId) :
    Follows early late (Step.InScope fun _ => True)
      (forcePromise left id >>= fun value =>
        finish early (.builtin .force) [.promise id] (.done value))
      (forcePromise right id >>= fun value =>
        finish late (.builtin .force) [.promise id] (.done value)) := by
  intro store
  cases hfound : store.promises[id]? with
  | none =>
    rw [bind_of_ok (forcePromise_of_none hfound), bind_of_ok (forcePromise_of_none hfound)]
    exact accords_finish hcovers (.refl store) (by rw [hfound]; rintro _ ⟨⟩)
  | some promise =>
    cases promise with
    | forced value =>
      rw [bind_of_ok (forcePromise_of_forced hfound), bind_of_ok (forcePromise_of_forced hfound)]
      exact accords_finish hcovers (.refl store) (by rw [hfound]; rintro _ ⟨⟩; rfl)
    | pending expression frame =>
      rw [bind_congr_of_eq (forcePromise_of_pending hfound),
        bind_congr_of_eq (forcePromise_of_pending hfound), bind_assoc, bind_assoc]
      have hvalue : (Comparison.observing early late).RelatesData
          (left.evaluate expression frame) (right.evaluate expression frame) :=
        hcontexts.evaluate (fun _ _ => trivial) trivial
      refine Follows.bind hvalue (fun value _ store => ?_) store
      obtain ⟨kept, after, hkeep, hevolves, hholds⟩ := evolves_keepFirst id value store
      rw [bind_of_ok hkeep, bind_of_ok hkeep]
      exact accords_finish hcovers hevolves hholds

end Forcing

theorem follows_apply (hcovers : early.Covers late)
    (hcontexts : (Comparison.observing early late).Matches left right) (callee : Datum)
    (arguments : List Datum) :
    Follows early late (Step.InScope fun _ => True) (apply early left callee arguments)
      (apply late right callee arguments) := by
  have hfits : ∀ store, Moment.Fits store (.called callee arguments) := fun _ => trivial
  refine (follows_notice hcovers hfits).bind fun _ _ => ?_
  by_cases hforce : ∃ id, callee = .builtin .force ∧ arguments = [.promise id]
  · obtain ⟨id, rfl, rfl⟩ := hforce
    rw [applyProcedure_force, applyProcedure_force, bind_assoc, bind_assoc]
    simp only [pure_bind]
    exact follows_force hcovers hcontexts id
  · have happly : Follows early late (Step.InScope fun _ => True)
        (applyProcedure left callee arguments) (applyProcedure right callee arguments) :=
      Comparison.applyProcedure hcontexts (fun _ _ => trivial) (fun _ _ _ _ => trivial)
        fun hcallee harguments => absurd ⟨_, hcallee, harguments⟩ hforce
    refine Follows.bind happly fun step hstep => ?_
    cases step with
    | done value =>
      have hfits : ∀ store, Moment.Fits store (.returned callee arguments value) :=
        fun _ id hcallee harguments => absurd ⟨id, hcallee, harguments⟩ hforce
      exact (follows_notice hcovers hfits).bind fun _ _ =>
        (Comparison.observing early late).pure hstep
    | proceed expression frame => exact (Comparison.observing early late).pure hstep

theorem matches_contextWithin {host : Host} {steps limit : Nat}
    (hevaluate : ∀ expression frame, (Comparison.observing early late).RelatesData
      (evaluate early host steps limit expression frame)
      (evaluate late host steps limit expression frame)) :
    (Comparison.observing early late).Matches (contextWithin early host steps limit)
      (contextWithin late host steps limit) where
  host := rfl
  limit := rfl
  evaluate := fun _ _ => hevaluate _ _
  neverTooDeep := fun hfalse => hfalse.elim

theorem follows_evaluate (hcovers : early.Covers late) (host : Host) (steps limit : Nat)
    (expression : Datum) (frame : FrameId) :
    (Comparison.observing early late).RelatesData (evaluate early host steps limit expression frame)
      (evaluate late host steps limit expression frame) := by
  induction limit generalizing expression frame with
  | zero => exact follows_throw .tooDeep
  | succ limit ih =>
    have hcontexts := matches_contextWithin ih
    refine Comparison.iterate (fun hexpression hframe => ?_) steps (fun _ _ => trivial) trivial
    exact Comparison.stepWith hcontexts (fun _ _ => follows_apply hcovers hcontexts _ _) hframe
      hexpression

theorem follows_perform (hcovers : early.Covers late) (host : Host) (steps limit : Nat)
    (task : Task) :
    (Comparison.observing early late).RelatesData
      (task.perform (contextWithin early host steps limit))
      (task.perform (contextWithin late host steps limit)) := by
  refine Comparison.perform (matches_contextWithin (follows_evaluate hcovers host steps limit)) _ ?_
  cases task with
  | evaluate expression frame => exact ⟨fun _ _ => trivial, trivial⟩
  | serve request => trivial

end Observed

/-! ### An observer of nothing -/

def Observer.blind : Observer := fun _ _ => false

namespace Observed

theorem notice_blind (moment : Moment) : notice .blind moment = pure () :=
  funext fun store => notice_eq .blind moment store

theorem apply_blind (context : Context) : apply .blind context = applyProcedure context := by
  funext callee arguments
  rw [apply, notice_blind, pure_bind]
  refine (bind_congr fun step => ?_).trans (bind_pure _)
  cases step with
  | done value => rw [finish, notice_blind, pure_bind]
  | proceed expression frame => rfl

theorem evaluate_blind (host : Host) (steps limit : Nat) :
    evaluate .blind host steps limit = Machine.evaluate host steps limit := by
  induction limit with
  | zero => rfl
  | succ limit ih =>
    funext expression frame
    rw [evaluate, Machine.evaluate, ih, apply_blind, stepWith_applyProcedure]

theorem contextWithin_blind (host : Host) (steps limit : Nat) :
    contextWithin .blind host steps limit = Interpreter.contextWithin host steps limit := by
  rw [contextWithin, evaluate_blind]
  rfl

end Observed

end SmallScheme
