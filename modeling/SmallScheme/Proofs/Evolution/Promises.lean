import SmallScheme.Proofs.Evolution.Runs
/-!
# Promises are stable

All forces of a promise that return in a run return one value, however they are nested, and it is
the value of the promise from the first of them on. A force that fails leaves the promise as it was,
unless a force inside it has returned.
-/

namespace SmallScheme

open Machine Interpreter

/-- A force of the promise returns the value. -/
abbrev Moment.forced (id : PromiseId) (value : Datum) : Moment :=
  .returned (.builtin .force) [.promise id] value

/-- The promise has the value: whoever forces it gets the value, and nothing happens. -/
structure Store.Keeps (store : Store) (id : PromiseId) (value : Datum) : Prop where
  forced : store.promises[id]? = some (.forced value)
  force : ∀ context : Context,
    applyProcedure context (.builtin .force) [.promise id] store = .ok (.done value) store

theorem Store.keeps_of_forced {store : Store} {id : PromiseId} {value : Datum}
    (hforced : store.promises[id]? = some (.forced value)) : store.Keeps id value := by
  refine ⟨hforced, fun context => ?_⟩
  rw [applyProcedure_force, bind_of_ok (forcePromise_of_forced hforced)]
  rfl

/-- The promise has no value yet: whoever forces it has its expression evaluated in its frame, and
the value kept unless there is one by then. -/
structure Store.Defers (store : Store) (id : PromiseId) (expression : Datum) (frame : FrameId) :
    Prop where
  pending : store.promises[id]? = some (.pending expression frame)
  force : ∀ context : Context, applyProcedure context (.builtin .force) [.promise id] store =
    (context.evaluate expression frame >>= fun value => .done <$> keepFirst id value) store

theorem Store.defers_of_pending {store : Store} {id : PromiseId} {expression : Datum}
    {frame : FrameId} (hpending : store.promises[id]? = some (.pending expression frame)) :
    store.Defers id expression frame := by
  refine ⟨hpending, fun context => ?_⟩
  rw [applyProcedure_force, bind_congr_of_eq (forcePromise_of_pending hpending), bind_assoc]
  simp only [map_eq_pure_bind]

theorem Store.Keeps.evolves {mayForce : PromiseId → Prop} {store after : Store} {id : PromiseId}
    {value : Datum} (hkeeps : store.Keeps id value) (hevolves : store.Evolves mayForce after) :
    after.Keeps id value :=
  keeps_of_forced (hevolves.forced hkeeps.forced)

theorem Store.Keeps.value_eq {store : Store} {id : PromiseId} {value other : Datum}
    (hkeeps : store.Keeps id value) (hother : store.Keeps id other) : other = value := by
  cases hkeeps.forced.symm.trans hother.forced
  rfl

/-- The observer of all returns of a force of the promise. -/
def Observer.ofForces (id : PromiseId) : Observer
  | .returned (.builtin .force) [.promise other] _, _ => other == id
  | _, _ => false

theorem Observer.ofForces_eq_true {id : PromiseId} {moment : Moment} {store : Store} :
    ofForces id moment store = true ↔ ∃ value, moment = .forced id value := by
  constructor
  · intro hnoticed
    unfold ofForces at hnoticed
    split at hnoticed
    · exact ⟨_, by rw [beq_iff_eq.1 hnoticed]⟩
    · cases hnoticed
  · rintro ⟨value, rfl⟩
    exact beq_self_eq_true id

theorem Observer.not_mayMiss_ofForces (id : PromiseId) : ¬ (ofForces id).MayMiss id := by
  rintro ⟨value, store, hmissed⟩
  rw [ofForces_eq_true.2 ⟨value, rfl⟩] at hmissed
  cases hmissed

open Classical in
noncomputable def Observer.only (moment : Moment) : Observer := fun other _ =>
  decide (other = moment)

theorem Observer.only_eq_true {moment other : Moment} {store : Store} :
    only moment other store = true ↔ other = moment := by
  simp [only]

namespace Interpreter.Run

variable {run : Run} {id : PromiseId} {value other : Datum} {between after : Store}

/-- What a sound force returns is what the promise holds. -/
theorem keeps_of_fits {moment : Moment} (hmoment : moment = .forced id value)
    (hfits : moment.Fits between) (hsound : moment.IsSound between) : between.Keeps id value := by
  subst hmoment
  obtain ⟨⟨-, harguments⟩, -⟩ := hsound
  cases harguments (.promise id) List.mem_cons_self with
  | promise hid =>
    have hpromise := Array.getElem?_eq_getElem hid
    refine Store.keeps_of_forced ?_
    rw [hpromise, hfits id rfl rfl _ hpromise]

theorem Has.keeps (hrun : run.IsSound) (hhas : run.Has (.forced id value) between) :
    between.Keeps id value :=
  have hall := hhas.isSound hrun
  keeps_of_fits rfl hall.1 hall.2.2

/-- The first return of a force settles what all of them return. -/
theorem Has.exists_first (hrun : run.IsSound) (hhas : run.Has (.forced id value) between) :
    ∃ first, run.ComesTo (.ofForces id) first ∧ first.Keeps id value := by
  have ⟨observer, hwatches, hcomes⟩ := hhas
  have hcovers : (Observer.ofForces id).Covers observer :=
    fun _ _ hnoticed => Observer.ofForces_eq_true.2 ⟨value, hwatches hnoticed⟩
  obtain ⟨first, hfirst, hevolves⟩ := hcomes.precedes hcovers
  obtain ⟨moment, hnoticed, hfits, -, hsound⟩ := hfirst.exists_moment hrun
  obtain ⟨earliest, hmoment⟩ := Observer.ofForces_eq_true.1 hnoticed
  have hkeeps := keeps_of_fits hmoment hfits hsound
  cases (hhas.keeps hrun).value_eq (hkeeps.evolves hevolves)
  exact ⟨first, hfirst, hkeeps⟩

theorem Has.value_eq (hrun : run.IsSound) (hhas : run.Has (.forced id value) between)
    (hhas' : run.Has (.forced id other) after) : other = value := by
  obtain ⟨first, hfirst, hkeeps⟩ := hhas.exists_first hrun
  obtain ⟨first', hfirst', hkeeps'⟩ := hhas'.exists_first hrun
  cases hfirst.eq hfirst'
  exact hkeeps.value_eq hkeeps'

/-- Where a run comes to any force that returns, it comes to one with a value. -/
theorem ComesTo.exists_has (hrun : run.IsSound) (hcomes : run.ComesTo (.ofForces id) between) :
    ∃ value, run.Has (.forced id value) between := by
  obtain ⟨moment, hnoticed, hfits, -, hsound⟩ := hcomes.exists_moment hrun
  obtain ⟨value, hmoment⟩ := Observer.ofForces_eq_true.1 hnoticed
  have hforced := (keeps_of_fits hmoment hfits hsound).forced
  have hcovers : (Observer.ofForces id).Covers (.only (.forced id value)) :=
    fun _ _ hwatched => Observer.ofForces_eq_true.2 ⟨value, Observer.only_eq_true.1 hwatched⟩
  have haccords := hcomes.accords hcovers
  refine ⟨value, .only (.forced id value), fun _ _ => Observer.only_eq_true.1, ?_⟩
  unfold ComesTo
  generalize run.task.perform _ run.store = right at haccords
  cases haccords with
  | together => rfl
  | @stopped other _ _ hnoticed hfits hlate _ _ _ =>
    obtain ⟨value', rfl⟩ := Observer.ofForces_eq_true.1 hnoticed
    cases hfits id rfl rfl _ hforced
    exact hlate (Observer.only_eq_true.2 rfl)

/-- A run without a force of the promise that returns leaves the promise alone. -/
theorem promise_eq_of_not_has (hrun : run.IsSound) {promise : Promise}
    (hpromise : run.store.promises[id]? = some promise)
    (hnever : ∀ value between, ¬ run.Has (.forced id value) between) :
    run.final.promises[id]? = some promise := by
  have haccords := Observed.follows_perform (Observer.ofForces id).covers_blind run.host run.steps
    run.limit run.task run.store
  rw [Observed.contextWithin_blind] at haccords
  rw [final, outcome]
  generalize run.task.perform (contextWithin _ _ _) run.store = right at haccords
  generalize hleft : run.task.perform _ run.store = left at haccords
  cases haccords with
  | together hevolves _ => exact hevolves.promise_eq (Observer.not_mayMiss_ofForces id) hpromise
  | @stopped _ between _ _ _ _ _ _ _ =>
    obtain ⟨value, hhas⟩ := ComesTo.exists_has hrun hleft
    exact absurd hhas (hnever value between)

/-- A force that is interrupted, and none of the promise has returned inside it. -/
theorem defers_of_interrupted {expression : Datum} {frame : FrameId} {interrupt : Interrupt}
    (hrun : run.IsSound) (htask : run.task = .evaluate expression frame)
    (hdefers : run.store.Defers id expression frame)
    (houtcome : run.outcome = .error interrupt after)
    (hnever : ∀ value between, ¬ run.Has (.forced id value) between) :
    applyProcedure (contextWithin run.host run.steps run.limit) (.builtin .force) [.promise id]
        run.store = .error interrupt after ∧
      after.Defers id expression frame := by
  have hafter := promise_eq_of_not_has hrun hdefers.pending hnever
  rw [final, houtcome] at hafter
  refine ⟨?_, Store.defers_of_pending hafter⟩
  rw [outcome, htask] at houtcome
  rw [hdefers.force]
  exact bind_of_error houtcome

/-- Promises are stable. In a run from a sound store, as every reachable one is, all forces of a
promise that return do so with one value. From the first of them on, up to the end and in whatever
is run after it, whoever forces the promise gets this value and nothing happens; a promise that has
a value when a run begins keeps it in the same way. A force that is interrupted leaves the promise
with its expression and frame to be evaluated again, unless one of it has returned inside. -/
theorem stable_promises :
    (∀ {store : Store}, Reachable store → store.Sound) ∧
    (∀ {run : Run}, run.IsSound →
      (run.final.Sound ∧ ∀ {moment : Moment} {between : Store}, run.Has moment between →
        between.Sound ∧ moment.IsSound between) ∧
      ∀ {id : PromiseId} {value : Datum},
        (∀ {between : Store}, run.Has (.forced id value) between →
          (∀ {other : Datum} {after : Store}, run.Has (.forced id other) after → other = value) ∧
          (∀ {later : Moment} {after : Store},
            run.HasThen (.forced id value) between later after → after.Keeps id value) ∧
          ∀ {later : Store}, Leads run.final later → later.Keeps id value) ∧
        (run.store.Keeps id value →
          (∀ {moment : Moment} {between : Store}, run.Has moment between →
            between.Keeps id value) ∧
          (∀ {other : Datum} {between : Store}, run.Has (.forced id other) between →
            other = value) ∧
          run.final.Keeps id value)) ∧
    ∀ {run : Run} {id : PromiseId} {expression : Datum} {frame : FrameId} {interrupt : Interrupt}
      {after : Store}, run.IsSound → run.task = .evaluate expression frame →
      run.store.Defers id expression frame → run.outcome = .error interrupt after →
      (∀ value between, ¬ run.Has (.forced id value) between) →
        applyProcedure (contextWithin run.host run.steps run.limit) (.builtin .force)
            [.promise id] run.store = .error interrupt after ∧
          after.Defers id expression frame := by
  refine ⟨sound_of_reachable, fun {run} hrun => ?_, defers_of_interrupted⟩
  refine ⟨⟨sound_final hrun, fun hhas => (hhas.isSound hrun).2⟩, fun {id value} => ⟨?_, ?_⟩⟩
  · intro between hhas
    have hkeeps := hhas.keeps hrun
    refine ⟨hhas.value_eq hrun, fun hthen => hkeeps.evolves hthen.evolves, fun hleads => ?_⟩
    exact (hkeeps.evolves (hhas.evolves hrun).2).evolves hleads.evolves
  · intro hkeeps
    refine ⟨fun hhas => hkeeps.evolves (hhas.evolves hrun).1, fun hhas => ?_,
      hkeeps.evolves run.evolves⟩
    exact (hkeeps.evolves (hhas.evolves hrun).1).value_eq (hhas.keeps hrun)

/-! ### A promise that forces itself -/

/-- The first promise forces itself the first time it is evaluated, and is true then if it is not
forced yet; the second one cannot be evaluated. -/
def selfForcing : Store where
  frames := #[⟨[("force", .builtin .force), ("p", .promise 0), ("first", .bool true)], none⟩]
  promises := #[.pending (.form none [.keyword .branch, .symbol "first",
    .form none [.keyword .branch,
      .form none [.keyword .define, .symbol "first", .bool false],
      .form none [.keyword .branch, .form none [.symbol "force", .symbol "p"], .bool true,
        .bool true], .bool true], .bool false]) 0, .pending (.symbol "q") 0]
  nextLabel := 0
  output := ""
  log := #[]
  opened := #[]


theorem sound_selfForcing : selfForcing.Sound where
  root := Nat.one_pos
  frames := by
    intro id frame hframe
    cases Nat.lt_one_iff.1 (Array.getElem?_eq_some_iff.1 hframe).1
    cases hframe
    refine ⟨List.forall_mem_cons.2 ⟨.builtin .force, List.forall_mem_cons.2
      ⟨.promise Nat.two_pos, List.forall_mem_singleton.2 (.bool true)⟩⟩, by rintro _ ⟨⟩⟩
  promises := by
    have hname : ∀ name ∈ ["force", "first", "p", "q"], (Datum.symbol name).IsSyntax := by
      simp only [List.forall_mem_cons]
      refine ⟨?_, ?_, ?_, ?_, fun _ hmem => by cases hmem⟩ <;>
        exact Datum.isSyntax_symbol (by decide) (by decide) rfl
    have hkeyword : ∀ form, (Datum.keyword form).IsSyntax :=
      fun form => .symbol (isIdentifier_keyword form)
    have hbool : ∀ value, (Datum.bool value).IsSyntax := .bool
    simp only [List.forall_mem_cons] at hname
    intro id promise hpromise
    rcases id with _ | _ | id
    · cases hpromise
      refine ⟨?_, Nat.one_pos⟩
      simp [hname, hkeyword, hbool]
    · cases hpromise
      exact ⟨hname.2.2.2.1, Nat.one_pos⟩
    · cases hpromise

/-- The observer of the forces of the first promise that return false. -/
def falseForces : Observer
  | .returned (.builtin .force) [.promise 0] (.bool false), _ => true
  | _, _ => false

theorem watchesFor_falseForces : falseForces.WatchesFor (.forced 0 (.bool false)) := by
  intro moment store hnoticed
  unfold falseForces at hnoticed
  split at hnoticed
  · rfl
  · cases hnoticed

/-- The force inside returns false, and so does the other one, whose own evaluation is true in the
end. What cannot be evaluated is not forced. -/
theorem stable_promises_selfForcing :
    let host : Host := { settings := .ofVariables ⟨none, none, none⟩, files := .catalogue [] }
    let run : Run :=
      ⟨host, 9, 5, .evaluate (.form none [.builtin .force, .promise 0]) rootFrame, selfForcing⟩
    (∃ between, run.Has (.forced 0 (.bool false)) between) ∧ run.final.Keeps 0 (.bool false) ∧
      applyProcedure (contextWithin host 1 1) (.builtin .force) [.promise 1] selfForcing =
        .error (.fault (.unbound "q")) selfForcing := by
  intro host run
  have hrun : run.IsSound := by
    refine ⟨sound_selfForcing, .application ?_, Nat.one_pos⟩
    refine List.forall_mem_cons.2 ⟨.builtin .force, ?_⟩
    exact List.forall_mem_singleton.2 (.promise Nat.two_pos)
  let between : Store := { selfForcing with
    frames := #[⟨[("force", .builtin .force), ("p", .promise 0), ("first", .bool false)], none⟩]
    promises := #[.forced (.bool false), .pending (.symbol "q") 0] }
  -- the search for a name is by well-founded recursion, which only unfolds on request
  have hcomes : run.ComesTo falseForces between := by with_unfolding_all rfl
  have hhas : run.Has (.forced 0 (.bool false)) between := ⟨_, watchesFor_falseForces, hcomes⟩
  let failing : Run := ⟨host, 1, 1, .evaluate (.symbol "q") rootFrame, selfForcing⟩
  have hfailing : failing.IsSound :=
    ⟨sound_selfForcing, .source (Datum.isSyntax_symbol (by decide) (by decide) rfl), Nat.one_pos⟩
  have hdefers : failing.store.Defers 1 (.symbol "q") rootFrame := Store.defers_of_pending rfl
  have houtcome : failing.outcome = .error (.fault (.unbound "q")) selfForcing := by
    with_unfolding_all rfl
  have hnever : ∀ value between, ¬ failing.Has (.forced 1 value) between := by
    rintro value between ⟨observer, -, hcomes⟩
    have hend : failing.task.perform (Observed.contextWithin observer host 1 1) selfForcing =
        .error (.fault (.unbound "q")) selfForcing := by with_unfolding_all rfl
    cases hend.symm.trans hcomes
  have hkept := ((stable_promises.2.1 hrun).2.1 hhas).2.2 .refl
  exact ⟨⟨between, hhas⟩, hkept, (stable_promises.2.2 hfailing rfl hdefers houtcome hnever).1⟩

end Interpreter.Run

end SmallScheme
