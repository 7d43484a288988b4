import SmallScheme.Proofs.Evolution.Moments
/-!
# Runs

A run is a task performed from a store. The moments that it has are those at which an observer can
stop it, and one of them comes before another one if an observer of both stops at the first. The
store evolves to each moment of a run and from there to its end, and in a run from a sound store
nothing but values is called and returned.
-/

namespace SmallScheme

open Machine Interpreter

/-! ### Sound moments -/

/-- The procedure, its arguments and what it returns are values. -/
def Moment.IsSound (store : Store) : Moment → Prop
  | .called callee arguments =>
    callee.IsValue store ∧ ∀ argument ∈ arguments, argument.IsValue store
  | .returned callee arguments value =>
    (callee.IsValue store ∧ ∀ argument ∈ arguments, argument.IsValue store) ∧ value.IsValue store

/-- The observer notices nothing but unsound moments and moments in unsound stores. -/
def Observer.Overlooks (observer : Observer) : Prop :=
  ∀ moment store, store.Sound → moment.IsSound store → observer moment store = false

namespace Observed

variable {observer : Observer} {context : Context} {store : Store} {callee : Datum}
  {arguments : List Datum}

theorem safe_notice (hoverlooks : observer.Overlooks) (hsound : store.Sound) {moment : Moment}
    (hmoment : moment.IsSound store) :
    Safe store (notice observer moment) fun after _ => after = store := by
  have hnotice : notice observer moment store = .ok () store := by
    rw [notice_eq, hoverlooks moment store hsound hmoment]
    rfl
  exact .of_ok hnotice (.refl store) hsound rfl

theorem safe_finish (hoverlooks : observer.Overlooks) (hsound : store.Sound)
    (hcallee : callee.IsValue store) (harguments : ∀ argument ∈ arguments, argument.IsValue store)
    {step : Step} (hstep : step.IsSound store) :
    Safe store (finish observer callee arguments step) fun after step => step.IsSound after := by
  cases step with
  | done value =>
    have hmoment : Moment.IsSound store (.returned callee arguments value) :=
      ⟨⟨hcallee, harguments⟩, hstep⟩
    refine (safe_notice hoverlooks hsound hmoment).bind ?_
    rintro after - - hsound rfl
    exact .pure hsound hstep
  | proceed expression frame => exact .pure hsound hstep

theorem safe_apply (hoverlooks : observer.Overlooks) (hcontext : context.IsSafe)
    (hsound : store.Sound) (hcallee : callee.IsValue store)
    (harguments : ∀ argument ∈ arguments, argument.IsValue store) :
    Safe store (apply observer context callee arguments) fun after step => step.IsSound after := by
  have hmoment : Moment.IsSound store (.called callee arguments) := ⟨hcallee, harguments⟩
  refine (safe_notice hoverlooks hsound hmoment).bind ?_
  rintro after - - hsound rfl
  refine (safe_applyProcedure hcontext hsound hcallee harguments).bind ?_
  intro after step hextends hsound hstep
  exact safe_finish hoverlooks hsound (hcallee.mono hextends)
    (fun argument hmem => (harguments argument hmem).mono hextends) hstep

theorem isSafe_contextWithin (hoverlooks : observer.Overlooks) (host : Host) (steps limit : Nat) :
    (contextWithin observer host steps limit).IsSafe := by
  induction limit with
  | zero => exact fun _ _ _ hsound _ _ => .throw hsound trivial
  | succ limit ih =>
    intro store expression frame hsound hexpression hframe
    exact givesValue_iterate ih (safe_apply hoverlooks ih) hsound hframe hexpression steps

end Observed

namespace Interpreter

/-- The expression can be evaluated in the frame. -/
def Task.IsSound (store : Store) : Task → Prop
  | .evaluate expression frame => expression.IsExpression store ∧ frame < store.frames.size
  | .serve _ => True

theorem Task.givesValue_perform {context : Context} (hcontext : context.IsSafe) {store : Store}
    (hsound : store.Sound) {task : Task} (htask : task.IsSound store) :
    GivesValue store (task.perform context) := by
  cases task with
  | evaluate expression frame => exact hcontext hsound htask.1 htask.2
  | serve request => exact request.givesValue_serve hcontext hsound

/-! ### The moments of a run -/

structure Run where
  host : Host
  /-- The number of steps on each level. -/
  steps : Nat
  /-- How deep evaluations may nest. -/
  limit : Nat
  task : Task
  store : Store

end Interpreter

/-- What either of the two notices. -/
def Observer.either (first second : Observer) : Observer := fun moment store =>
  first moment store || second moment store

/-- The observer notices nothing but this moment. -/
def Observer.WatchesFor (observer : Observer) (moment : Moment) : Prop :=
  ∀ ⦃other : Moment⦄ ⦃store : Store⦄, observer other store = true → other = moment

theorem Observer.either_covers_right (first second : Observer) :
    (first.either second).Covers second :=
  fun _ _ hsecond => Bool.or_eq_true_iff.2 (.inr hsecond)

theorem Observer.covers_blind (observer : Observer) : observer.Covers .blind :=
  fun _ _ hblind => by cases hblind

open Classical in
/-- What the observer notices, unless it is sound. -/
noncomputable def Observer.suspecting (observer : Observer) : Observer := fun moment store =>
  observer moment store && decide ¬ (store.Sound ∧ moment.IsSound store)

namespace Interpreter.Run

variable (run : Run)

def outcome : Outcome Datum :=
  run.task.perform (contextWithin run.host run.steps run.limit) run.store

/-- The store that the run leaves. -/
def final : Store := Outcome.store run.outcome

def IsSound : Prop := run.store.Sound ∧ run.task.IsSound run.store

/-- The observer stops the run in the store. -/
def ComesTo (observer : Observer) (between : Store) : Prop :=
  run.task.perform (Observed.contextWithin observer run.host run.steps run.limit) run.store =
    .error Observed.stop between

/-- The run has the moment, and in it the store. -/
def Has (moment : Moment) (between : Store) : Prop :=
  ∃ observer : Observer, observer.WatchesFor moment ∧ run.ComesTo observer between

/-- The run has both moments, and the second one does not come before the first. -/
def HasThen (moment : Moment) (between : Store) (later : Moment) (after : Store) : Prop :=
  ∃ first second : Observer, first.WatchesFor moment ∧ second.WatchesFor later ∧
    run.ComesTo first between ∧ run.ComesTo second after ∧
      run.ComesTo (first.either second) between

/-- Any number of runs, one after the other, lead from the store to the other one. -/
inductive Leads (store : Store) : Store → Prop where
  | refl : Leads store store
  | run {run : Run} (hleads : Leads store run.store) (htask : run.task.IsSound run.store) :
    Leads store run.final

variable {run} {observer early late : Observer} {between after : Store}

theorem ComesTo.eq (hfirst : run.ComesTo observer between) (hsecond : run.ComesTo observer after) :
    between = after := by
  have heq := hfirst.symm.trans hsecond
  cases heq
  rfl

theorem ComesTo.accords (hcovers : observer.Covers late) (hcomes : run.ComesTo observer between) :
    Observed.Accords observer late (Datum.InScope fun _ => True) run.store
      (.error Observed.stop between)
      (run.task.perform (Observed.contextWithin late run.host run.steps run.limit) run.store) :=
  hcomes ▸ Observed.follows_perform hcovers run.host run.steps run.limit run.task run.store

theorem evolves (run : Run) : run.store.Evolves (fun _ => True) run.final := by
  have hfollows := Observed.follows_perform Observer.blind.covers_blind run.host run.steps run.limit
    run.task
  rw [Observed.contextWithin_blind] at hfollows
  exact (hfollows run.store).evolves

theorem sound_final (hrun : run.IsSound) : run.final.Sound := by
  have hsafe := run.task.givesValue_perform (isSafe_contextWithin run.host run.steps run.limit)
    hrun.1 hrun.2
  rw [final]
  cases houtcome : run.outcome with
  | ok value after => exact (hsafe.ok houtcome).2.1
  | error interrupt after => exact (hsafe.error houtcome).2.1

theorem Leads.evolves {store : Store} (hleads : Leads store after) :
    store.Evolves (fun _ => True) after := by
  induction hleads with
  | refl => exact .refl store
  | run _ _ ih => exact ih.trans (Run.evolves _)

theorem Leads.sound {store : Store} (hleads : Leads store after) (hsound : store.Sound) :
    after.Sound := by
  induction hleads with
  | refl => exact hsound
  | run _ htask ih => exact sound_final ⟨ih, htask⟩

theorem ne_stop_of_isSound {context : Context} (hrun : run.IsSound) (hcontext : context.IsSafe) :
    run.task.perform context run.store ≠ .error Observed.stop after :=
  fun hstop => ((run.task.givesValue_perform hcontext hrun.1 hrun.2).error hstop).2.2

theorem ComesTo.evolves (hrun : run.IsSound) (hcomes : run.ComesTo observer between) :
    run.store.Evolves (fun _ => True) between ∧ between.Evolves (fun _ => True) run.final := by
  have haccords := hcomes.accords observer.covers_blind
  rw [Observed.contextWithin_blind] at haccords
  generalize hright : run.task.perform _ run.store = right at haccords
  cases haccords with
  | together => exact absurd hright (ne_stop_of_isSound hrun (isSafe_contextWithin _ _ _))
  | stopped _ _ _ hbefore hafter _ =>
    rw [← hright] at hafter
    exact ⟨hbefore, hafter⟩

/-- A run from a sound store comes to sound moments only. -/
theorem ComesTo.exists_moment (hrun : run.IsSound) (hcomes : run.ComesTo observer between) :
    ∃ moment, observer moment between = true ∧ moment.Fits between ∧ between.Sound ∧
      moment.IsSound between := by
  have hcovers : observer.Covers observer.suspecting :=
    fun _ _ hnoticed => (Bool.and_eq_true_iff.1 hnoticed).1
  have hoverlooks : observer.suspecting.Overlooks := by
    intro moment store hsound hmoment
    simp [Observer.suspecting, hsound, hmoment]
  have hsafe := Observed.isSafe_contextWithin hoverlooks run.host run.steps run.limit
  have haccords := hcomes.accords hcovers
  generalize hright : run.task.perform _ run.store = right at haccords
  cases haccords with
  | together => exact absurd hright (ne_stop_of_isSound hrun hsafe)
  | @stopped moment _ _ hearly hfits hlate _ _ _ =>
    by_cases hsound : between.Sound ∧ moment.IsSound between
    · exact ⟨moment, hearly, hfits, hsound⟩
    · have hnoticed : observer.suspecting moment between = true := by
        simp [Observer.suspecting, hearly, hsound]
      exact absurd (hright.trans (hlate hnoticed)) (ne_stop_of_isSound hrun hsafe)

/-- An observer that covers another one stops the run no later. -/
theorem ComesTo.precedes (hcovers : early.Covers late) (hlate : run.ComesTo late after) :
    ∃ between, run.ComesTo early between ∧ between.Evolves (fun _ => True) after := by
  have haccords := Observed.follows_perform hcovers run.host run.steps run.limit run.task run.store
  rw [show run.task.perform _ run.store = _ from hlate] at haccords
  generalize hleft : run.task.perform _ run.store = left at haccords
  cases haccords with
  | together => exact ⟨after, hleft, .refl after⟩
  | @stopped _ between _ _ _ _ _ hafter _ => exact ⟨between, hleft, hafter⟩

variable {moment later : Moment}

theorem Has.evolves (hrun : run.IsSound) (hhas : run.Has moment between) :
    run.store.Evolves (fun _ => True) between ∧ between.Evolves (fun _ => True) run.final := by
  obtain ⟨observer, -, hcomes⟩ := hhas
  exact hcomes.evolves hrun

theorem Has.isSound (hrun : run.IsSound) (hhas : run.Has moment between) :
    moment.Fits between ∧ between.Sound ∧ moment.IsSound between := by
  obtain ⟨observer, hwatches, hcomes⟩ := hhas
  obtain ⟨other, hnoticed, hall⟩ := hcomes.exists_moment hrun
  exact hwatches hnoticed ▸ hall

theorem HasThen.evolves (hthen : run.HasThen moment between later after) :
    between.Evolves (fun _ => True) after := by
  obtain ⟨first, second, -, -, -, hsecond, heither⟩ := hthen
  obtain ⟨earliest, hcomes, hevolves⟩ := hsecond.precedes (first.either_covers_right second)
  rw [heither.eq hcomes]
  exact hevolves

end Interpreter.Run

end SmallScheme
