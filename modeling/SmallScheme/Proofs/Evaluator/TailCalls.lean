import Mathlib.Logic.Relation
import SmallScheme.Proofs.Evaluator.Reference
/-!
# Expressions in tail position

Where the value of an expression is that of another one, the branch of a conditional, the last
expression of a sequence or the body of a closure, the evaluation goes on with that one in its
place. So it ends as that one does, under the same limit, and a chain of such expressions is nested
no deeper than what is evaluated on the way: the tests, the operators and operands, the expressions
that are not last.
-/

namespace SmallScheme

open Machine

/-- An expression that is evaluated in a frame, and the store at that point. -/
structure Configuration where
  expression : Datum
  frame : FrameId
  store : Store

namespace Configuration

variable (host : Host) (limit : Nat)

/-- The evaluation has the outcome, nested no deeper than the limit. -/
def EndsWith (configuration : Configuration) (outcome : Outcome Datum) : Prop :=
  Machine.EndsWith
    (fun steps => evaluate host steps limit configuration.expression configuration.frame)
    configuration.store outcome

/-- The expressions have the values if they are evaluated one after the other. -/
inductive GivesEach (frame : FrameId) : List Datum → Store → List Datum → Store → Prop where
  | nil {store : Store} : GivesEach frame [] store [] store
  | cons {expression value : Datum} {expressions values : List Datum}
    {store between after : Store}
    (hfirst : EndsWith host limit ⟨expression, frame, store⟩ (.ok value between))
    (hrest : GivesEach frame expressions between values after) :
    GivesEach frame (expression :: expressions) store (value :: values) after

/-- The value of the one expression is that of the other, as far as can be told by evaluating what
is not last, nested no deeper than the limit. -/
inductive Continues : Configuration → Configuration → Prop where
  | branch {label : Option Label} {head test consequent value expression : Datum}
    {alternative? : Option Datum} {frame : FrameId} {store after : Store}
    (hform : head.specialForm? = some .branch)
    (htest : EndsWith host limit ⟨test, frame, store⟩ (.ok value after))
    (hchosen : (if value.isTrue then some consequent else alternative?) = some expression) :
    Continues ⟨.form label (head :: test :: consequent :: alternative?.toList), frame, store⟩
      ⟨expression, frame, after⟩
  | cond {label : Option Label} {head expansion : Datum} {clauses : List Datum} {frame : FrameId}
    {store : Store} (hform : head.specialForm? = some .cond)
    (hexpand : expandConditional limit clauses = .ok expansion) :
    Continues ⟨.form label (head :: clauses), frame, store⟩ ⟨expansion, frame, store⟩
  | begin {label : Option Label} {head last : Datum} {earlier values : List Datum} {frame : FrameId}
    {store after : Store} (hform : head.specialForm? = some .begin)
    (hearlier : GivesEach host limit frame earlier store values after) :
    Continues ⟨.form label (head :: (earlier ++ [last])), frame, store⟩ ⟨last, frame, after⟩
  | call {label : Option Label} {operator : Datum} {operands arguments : List Datum}
    {closureLabel : Label} {name : Option String} {formals : Formals} {body : List Datum}
    {frame captured inner : FrameId} {store between ready after : Store}
    (hform : operator.specialForm? = none)
    (hoperator : EndsWith host limit ⟨operator, frame, store⟩
      (.ok (.closure closureLabel name formals body captured) between))
    (hoperands : GivesEach host limit frame operands between arguments ready)
    (henter : enterClosure (.closure closureLabel name formals body captured) formals captured
      arguments ready = .ok inner after) :
    Continues ⟨.form label (operator :: operands), frame, store⟩ ⟨.ofBody body, inner, after⟩

/-- Expressions that continue each other, for each of which what is evaluated on the way needs to be
nested no deeper than a depth of its own. -/
inductive Chain : List Nat → Configuration → Configuration → Prop where
  | nil {configuration : Configuration} : Chain [] configuration configuration
  | cons {depth : Nat} {depths : List Nat} {first next last : Configuration}
    (hfirst : ∀ limit ≥ depth, Continues host limit first next) (hrest : Chain depths next last) :
    Chain (depth :: depths) first last

end Configuration

/-! ### What is evaluated on the way -/

namespace Machine

theorem evaluateBranch_toList (context : Context) (frame : FrameId) (test consequent : Datum)
    (alternative? : Option Datum) :
    evaluateBranch context frame (test :: consequent :: alternative?.toList) = do
      let value ← context.evaluate test frame
      return match if value.isTrue then some consequent else alternative? with
        | some expression => .proceed expression frame
        | none => .done .unspecified := by
  cases alternative? with
  | none =>
    refine congrArg (context.evaluate test frame >>= ·) (funext fun value => ?_)
    cases value.isTrue <;> rfl
  | some alternative =>
    refine congrArg (context.evaluate test frame >>= ·) (funext fun value => ?_)
    cases value.isTrue <;> rfl

theorem evaluateBegin_concat (context : Context) (frame : FrameId) (earlier : List Datum)
    (last : Datum) :
    evaluateBegin context frame (earlier ++ [last]) = do
      let _ ← earlier.mapM fun expression => context.evaluate expression frame
      return .proceed last frame := by
  induction earlier with
  | nil => rfl
  | cons expression rest ih =>
    have hcons : evaluateBegin context frame (expression :: (rest ++ [last])) =
        discard (context.evaluate expression frame) >>= fun _ =>
          evaluateBegin context frame (rest ++ [last]) := by
      cases rest <;> rfl
    rw [List.cons_append, hcons, ih, List.mapM_cons]
    simp only [discard, LawfulFunctor.map_const, Function.comp_apply, Function.const,
      map_eq_pure_bind, bind_assoc, pure_bind]

/-- Only a closure leaves something to be evaluated, which is its body, in the frame of the call. -/
theorem enterClosure_of_applyProcedure {context : Context} {callee : Datum}
    {arguments : List Datum} {expression : Datum} {inner : FrameId} {store after : Store}
    (hcall : applyProcedure context callee arguments store =
      .ok (.proceed expression inner) after) :
    ∃ label name formals body frame, callee = .closure label name formals body frame ∧
      expression = .ofBody body ∧
      enterClosure callee formals frame arguments store = .ok inner after := by
  unfold applyProcedure at hcall
  split at hcall
  · obtain ⟨value, between, -, hreturn⟩ := bind_eq_ok.1 hcall
    cases hreturn
  · next label name formals body frame =>
    obtain ⟨found, between, henter, hreturn⟩ := bind_eq_ok.1 hcall
    cases hreturn
    exact ⟨label, name, formals, body, frame, rfl, rfl, henter⟩
  · obtain ⟨_, between, -, hfail⟩ := bind_eq_ok.1 hcall
    cases hfail

end Machine

namespace Configuration

variable {host : Host} {limit : Nat}

theorem EndsWith.eventually {configuration : Configuration} {outcome : Outcome Datum}
    (hends : configuration.EndsWith host limit outcome) :
    ∃ least, ∀ steps ≥ least,
      evaluate host steps limit configuration.expression configuration.frame configuration.store =
        outcome := by
  obtain ⟨hfinished, least, rfl⟩ := hends
  exact ⟨least, fun steps hle => evaluate_of_le hle hfinished⟩

theorem GivesEach.eventually {frame : FrameId} {expressions values : List Datum}
    {store after : Store} (hgives : GivesEach host limit frame expressions store values after) :
    ∃ least, ∀ steps ≥ least,
      (expressions.mapM fun expression => evaluate host steps limit expression frame) store =
        .ok values after := by
  induction hgives with
  | nil => exact ⟨0, fun _ _ => rfl⟩
  | cons hfirst _ ih =>
    obtain ⟨firstLeast, hfirst⟩ := hfirst.eventually
    obtain ⟨restLeast, hrest⟩ := ih
    refine ⟨max firstLeast restLeast, fun steps hsteps => ?_⟩
    rw [List.mapM_cons, bind_of_ok (hfirst steps (Nat.le_trans (Nat.le_max_left ..) hsteps)),
      bind_of_ok (hrest steps (Nat.le_trans (Nat.le_max_right ..) hsteps))]
    rfl

theorem givesEach_of_mapM {steps : Nat} {frame : FrameId} {expressions values : List Datum}
    {store after : Store}
    (hmapM : (expressions.mapM fun expression => evaluate host steps limit expression frame) store =
      .ok values after) : GivesEach host limit frame expressions store values after := by
  induction expressions generalizing store values with
  | nil =>
    cases hmapM
    exact .nil
  | cons expression rest ih =>
    rw [List.mapM_cons] at hmapM
    obtain ⟨value, between, hfirst, hothers⟩ := bind_eq_ok.1 hmapM
    obtain ⟨others, _, hrest, hreturn⟩ := bind_eq_ok.1 hothers
    cases hreturn
    exact .cons ⟨trivial, steps, hfirst⟩ (ih hrest)

/-! ### One step -/

theorem Continues.eventually {current next : Configuration}
    (hcontinues : Continues host limit current next) :
    ∃ least, ∀ steps ≥ least,
      step { host, limit, evaluate := evaluate host steps limit } current.expression current.frame
        current.store = .ok (.proceed next.expression next.frame) next.store := by
  cases hcontinues with
  | branch hform htest hchosen =>
    obtain ⟨least, htest⟩ := htest.eventually
    refine ⟨least, fun steps hsteps => ?_⟩
    rw [step_form, hform]
    change evaluateBranch _ _ _ _ = _
    rw [evaluateBranch_toList, bind_of_ok (htest steps hsteps), hchosen]
    rfl
  | cond hform hexpand =>
    refine ⟨0, fun steps _ => ?_⟩
    rw [step_form, hform]
    change (ofExcept (expandConditional limit _) >>= fun _ => _) _ = _
    rw [hexpand]
    rfl
  | begin hform hearlier =>
    obtain ⟨least, hearlier⟩ := hearlier.eventually
    refine ⟨least, fun steps hsteps => ?_⟩
    rw [step_form, hform]
    change evaluateBegin _ _ _ _ = _
    rw [evaluateBegin_concat, bind_of_ok (hearlier steps hsteps)]
    rfl
  | call hform hoperator hoperands henter =>
    obtain ⟨operatorLeast, hoperator⟩ := hoperator.eventually
    obtain ⟨operandsLeast, hoperands⟩ := hoperands.eventually
    refine ⟨max operatorLeast operandsLeast, fun steps hsteps => ?_⟩
    rw [step_form, hform]
    change evaluateApplication _ _ _ _ _ = _
    rw [evaluateApplication,
      bind_of_ok (hoperator steps (Nat.le_trans (Nat.le_max_left ..) hsteps)),
      bind_of_ok (hoperands steps (Nat.le_trans (Nat.le_max_right ..) hsteps)), applyProcedure,
      bind_of_ok henter]
    rfl

theorem continues_of_evaluateSpecial {steps : Nat} {label : Option Label} {head : Datum}
    {operands : List Datum} {frame : FrameId} {store : Store} {form : SpecialForm}
    (hform : head.specialForm? = some form) {next : Configuration}
    (hspecial : evaluateSpecial { host, limit, evaluate := evaluate host steps limit } frame
      operands form store = .ok (.proceed next.expression next.frame) next.store) :
    Continues host limit ⟨.form label (head :: operands), frame, store⟩ next := by
  obtain ⟨expression, frame', after⟩ := next
  have hdone : ∀ computation : Machine Datum,
      (Step.done <$> computation) store ≠ .ok (.proceed expression frame') after := by
    intro computation hproceeds
    rw [map_eq_pure_bind] at hproceeds
    obtain ⟨value, between, -, hreturn⟩ := bind_eq_ok.1 hproceeds
    cases hreturn
  cases form with
  | branch =>
    have hbranch : ∀ (test consequent : Datum) (alternative? : Option Datum),
        operands = test :: consequent :: alternative?.toList →
          Continues host limit ⟨.form label (head :: operands), frame, store⟩
            ⟨expression, frame', after⟩ := by
      rintro test consequent alternative? rfl
      change evaluateBranch _ _ _ _ = _ at hspecial
      rw [evaluateBranch_toList] at hspecial
      obtain ⟨value, between, htest, hreturn⟩ := bind_eq_ok.1 hspecial
      cases hchosen : if value.isTrue then some consequent else alternative? with
      | none =>
        rw [hchosen] at hreturn
        cases hreturn
      | some chosen =>
        rw [hchosen] at hreturn
        cases hreturn
        exact .branch hform ⟨trivial, steps, htest⟩ hchosen
    match operands with
    | [test, consequent] => exact hbranch test consequent none rfl
    | [test, consequent, alternative] => exact hbranch test consequent (some alternative) rfl
    | [] | [_] | _ :: _ :: _ :: _ :: _ => cases hspecial
  | cond =>
    obtain ⟨expansion, between, hexpand, hreturn⟩ := bind_eq_ok.1 hspecial
    cases hreturn
    change ofExcept (expandConditional limit operands) store = _ at hexpand
    cases hexpansion : expandConditional limit operands with
    | error interrupt =>
      rw [hexpansion] at hexpand
      cases hexpand
    | ok found =>
      rw [hexpansion] at hexpand
      cases hexpand
      exact .cond hform hexpansion
  | begin =>
    change evaluateBegin _ _ _ _ = _ at hspecial
    rcases List.eq_nil_or_concat operands with rfl | ⟨earlier, last, hoperands⟩
    · cases hspecial
    · rw [List.concat_eq_append] at hoperands
      subst hoperands
      rw [evaluateBegin_concat] at hspecial
      obtain ⟨values, between, hearlier, hreturn⟩ := bind_eq_ok.1 hspecial
      cases hreturn
      exact .begin hform (givesEach_of_mapM hearlier)
  | _ => exact absurd hspecial (hdone _)

theorem continues_of_step {steps : Nat} {current next : Configuration}
    (hstep : step { host, limit, evaluate := evaluate host steps limit } current.expression
      current.frame current.store = .ok (.proceed next.expression next.frame) next.store) :
    Continues host limit current next := by
  obtain ⟨expression, frame, store⟩ := current
  cases expression with
  | form label items =>
    cases items with
    | nil => cases hstep
    | cons head operands =>
      rw [step_form] at hstep
      cases hform : head.specialForm? with
      | some form =>
        rw [hform] at hstep
        exact continues_of_evaluateSpecial hform hstep
      | none =>
        rw [hform] at hstep
        obtain ⟨callee, between, hoperator, happly⟩ := bind_eq_ok.1 hstep
        obtain ⟨arguments, ready, hoperands, hcall⟩ := bind_eq_ok.1 happly
        obtain ⟨closureLabel, name, formals, body, captured, rfl, hbody, henter⟩ :=
          enterClosure_of_applyProcedure hcall
        obtain ⟨expression', inner, after⟩ := next
        cases hbody
        exact .call hform ⟨trivial, steps, hoperator⟩ (givesEach_of_mapM hoperands) henter
  | int value =>
    obtain ⟨number, between, -, hreturn⟩ := bind_eq_ok.1 hstep
    cases hreturn
  | symbol name =>
    obtain ⟨value, between, -, hreturn⟩ := bind_eq_ok.1 hstep
    cases hreturn
  | _ => cases hstep

/-! ### The rest of the evaluation -/

theorem isRepeated_with_steps (host : Host) (steps limit : Nat) (expression : Datum)
    (frame : FrameId) :
    Reference.IsRepeated (evaluate host steps limit expression frame) fun more =>
      evaluate host more limit expression frame where
  run := by
    intro store _ hfinished
    refine ⟨Nat.zero_le _, steps, fun more hmore => ?_⟩
    rw [Store.relabel_zero, Outcome.relabel_zero, evaluate_of_le hmore hfinished]

variable {current next first last : Configuration} {outcome : Outcome Datum}

/-- The steps after one that continues are those of the other expression. -/
theorem Continues.iterate_eq (hcontinues : Continues host limit current next) {steps count : Nat}
    (hfinished : Outcome.IsFinished
      (iterate (step { host, limit, evaluate := evaluate host steps limit }) (count + 1)
        current.expression current.frame current.store)) :
    iterate (step { host, limit, evaluate := evaluate host steps limit }) count next.expression
        next.frame next.store =
      iterate (step { host, limit, evaluate := evaluate host steps limit }) (count + 1)
        current.expression current.frame current.store := by
  let context : Context := { host, limit, evaluate := evaluate host steps limit }
  have hinner : ∀ expression frame,
      Reference.IsRepeated (context.evaluate expression frame) fun more =>
        evaluate host more limit expression frame := isRepeated_with_steps host steps limit
  have hlater : ∀ expression frame,
      Reference.IsRepeated (iterate (step context) count expression frame) fun _ =>
        iterate (step context) count expression frame :=
    fun expression frame => Reference.isRepeated_refl _
  have hrepeated := Reference.isRepeated_step current.frame hinner hlater current.expression
  rw [iterate_succ] at hfinished ⊢
  -- with enough steps inside, the first one is known to continue
  obtain ⟨stepLeast, hstep⟩ := hcontinues.eventually
  obtain ⟨least, hrun⟩ := hrepeated.eq_of_isFinished hfinished
  have hmore := hrun (max stepLeast least) (Nat.le_max_right ..)
  rw [bind_of_ok (hstep _ (Nat.le_max_left ..))] at hmore
  exact hmore

theorem Continues.endsWith (hcontinues : Continues host limit current next)
    (hends : current.EndsWith host (limit + 1) outcome) :
    next.EndsWith host (limit + 1) outcome := by
  obtain ⟨hfinished, steps, rfl⟩ := hends
  cases steps with
  | zero => exact absurd rfl hfinished
  | succ count =>
    have heq := hcontinues.iterate_eq hfinished
    have hcontext : Context.IsSimulated .zero
        { host, limit, evaluate := evaluate host (count + 1) limit }
        fun _ => evaluate host (count + 1) limit :=
      simulates_evaluate host (count + 1) (fun _ => Nat.le_refl _) limit
    -- one step is left over, and one more changes nothing
    have hiterate := simulates_iterate hcontext count (fun _ => Nat.le_succ count)
      next.expression next.frame
    rw [Datum.relabel_zero] at hiterate
    have hnext : Outcome.IsFinished (iterate
        (step { host, limit, evaluate := evaluate host (count + 1) limit }) count next.expression
          next.frame next.store) := by
      rw [heq]
      exact hfinished
    obtain ⟨least, hrun⟩ := hiterate.eq_of_isFinished hnext
    exact ⟨hfinished, count + 1, (hrun least (Nat.le_refl least)).trans heq⟩

theorem Continues.endsWith_of_next (hcontinues : Continues host limit current next)
    (hends : next.EndsWith host (limit + 1) outcome) :
    current.EndsWith host (limit + 1) outcome := by
  obtain ⟨stepLeast, hstep⟩ := hcontinues.eventually
  obtain ⟨least, hnext⟩ := hends.eventually
  let steps := max stepLeast least
  let context : Context := { host, limit, evaluate := evaluate host steps limit }
  have hinner : ∀ expression frame,
      Reference.IsRepeated (context.evaluate expression frame) fun more =>
        evaluate host more limit expression frame := isRepeated_with_steps host steps limit
  have hrepeated := Reference.isRepeated_of_step current.frame
    (Reference.isRepeated_step current.frame hinner
      (isRepeated_with_steps host steps (limit + 1)) current.expression)
  have heq : (step context current.expression current.frame >>=
      Step.finish (evaluate host steps (limit + 1))) current.store = outcome := by
    rw [bind_of_ok (hstep steps (Nat.le_max_left ..))]
    exact hnext steps (Nat.le_max_right ..)
  obtain ⟨enough, hrun⟩ := hrepeated.eq_of_isFinished (heq ▸ hends.1)
  exact ⟨hends.1, enough, (hrun enough (Nat.le_refl enough)).trans heq⟩

/-! ### Chains -/

theorem endsWith_iff_of_reflTransGen
    (hchain : Relation.ReflTransGen (Continues host limit) first last) (outcome : Outcome Datum) :
    first.EndsWith host (limit + 1) outcome ↔ last.EndsWith host (limit + 1) outcome := by
  induction hchain with
  | refl => exact Iff.rfl
  | tail _ hlast ih => exact ih.trans ⟨hlast.endsWith, hlast.endsWith_of_next⟩

theorem Chain.reflTransGen {depths : List Nat} (hchain : Chain host depths first last)
    (hdepths : ∀ depth ∈ depths, depth ≤ limit) :
    Relation.ReflTransGen (Continues host limit) first last := by
  induction hchain with
  | nil => exact .refl
  | @cons depth depths first next last hfirst _ ih =>
    have hdepth : depth ≤ limit := hdepths depth List.mem_cons_self
    refine .head (hfirst limit hdepth) (ih fun other hother => ?_)
    exact hdepths other (List.mem_cons_of_mem depth hother)

/-- Along an endless chain there is no end of the steps. -/
theorem not_isFinished_of_endless {endless : Nat → Configuration}
    (hendless : ∀ number, Continues host limit (endless number) (endless (number + 1)))
    (steps count number : Nat) :
    ¬ Outcome.IsFinished (iterate (step { host, limit, evaluate := evaluate host steps limit })
      count (endless number).expression (endless number).frame (endless number).store) := by
  induction count generalizing number with
  | zero => exact fun hfinished => hfinished rfl
  | succ count ih =>
    intro hfinished
    have heq := (hendless number).iterate_eq hfinished
    exact ih (number + 1) (heq ▸ hfinished)

/-- A step leaves an expression exactly if that is in tail position, and the two evaluations have
the same outcomes under the same limit: one of them is nested too deep only if the other is. So it
is with the two ends of a chain, however long, which need no more depth than what is evaluated on
the way from one of its expressions to the next needs at most. Along a chain without an end the
evaluation has no outcome at all. -/
theorem endsWith_iff_of_continues (host : Host) (limit : Nat) :
    (∀ current next : Configuration, Continues host limit current next ↔
      ∃ steps, step { host, limit, evaluate := evaluate host steps limit } current.expression
        current.frame current.store = .ok (.proceed next.expression next.frame) next.store) ∧
    (∀ {current next : Configuration}, Continues host limit current next →
      ∀ outcome, current.EndsWith host (limit + 1) outcome ↔
        next.EndsWith host (limit + 1) outcome) ∧
    (∀ {first last : Configuration}, Relation.ReflTransGen (Continues host limit) first last →
      ∀ outcome, first.EndsWith host (limit + 1) outcome ↔
        last.EndsWith host (limit + 1) outcome) ∧
    (∀ {depths : List Nat} {first last : Configuration}, Chain host depths first last →
      (∀ depth ∈ depths, depth ≤ limit) →
        ∀ outcome, first.EndsWith host (limit + 1) outcome ↔
          last.EndsWith host (limit + 1) outcome) ∧
    ∀ {endless : Nat → Configuration},
      (∀ number, Continues host limit (endless number) (endless (number + 1))) →
        ∀ outcome, ¬ (endless 0).EndsWith host (limit + 1) outcome := by
  refine ⟨fun current next => ⟨fun hcontinues => ?_, ?_⟩, ?_, ?_, ?_, ?_⟩
  · obtain ⟨least, hstep⟩ := hcontinues.eventually
    exact ⟨least, hstep least (Nat.le_refl least)⟩
  · rintro ⟨steps, hstep⟩
    exact continues_of_step hstep
  · exact fun hcontinues outcome => ⟨hcontinues.endsWith, hcontinues.endsWith_of_next⟩
  · exact endsWith_iff_of_reflTransGen
  · exact fun hchain hdepths => endsWith_iff_of_reflTransGen (hchain.reflTransGen hdepths)
  · rintro endless hendless outcome ⟨hfinished, steps, rfl⟩
    exact not_isFinished_of_endless hendless steps steps 0 hfinished

/-! ### A procedure that calls itself -/

/-- A procedure without parameters whose body is a call of the procedure of its name. -/
def selfCalling : Datum :=
  .closure 0 (some "loop") (.fixed []) [.form none [.symbol "loop"]] 0

/-- The call of that procedure, after a number of calls, each of which has made a frame. -/
def selfCall (calls : Nat) : Configuration where
  expression := .form none [.symbol "loop"]
  frame := calls
  store :=
    { Store.empty with
      frames := #[{ bindings := [("loop", selfCalling)], outer := none }] ++
        Array.replicate calls { bindings := [], outer := some 0 } }

theorem bindings_selfCall (calls : Nat) :
    (selfCall calls).store.bindings 0 = [("loop", selfCalling)] := by
  have hroot : (selfCall calls).store.frames[0]? =
      some { bindings := [("loop", selfCalling)], outer := none } :=
    Array.getElem?_append_left Nat.one_pos
  unfold Store.bindings
  rw [hroot]

theorem find?_selfCall (calls : Nat) :
    (selfCall calls).store.find? "loop" calls = some 0 := by
  have hroot : (selfCall calls).store.find? "loop" 0 = some 0 := by
    unfold Store.find?
    rw [bindings_selfCall]
    rfl
  cases calls with
  | zero => exact hroot
  | succ calls =>
    unfold Store.find?
    simpa [Store.bindings, Store.outer?, selfCall, Bindings.get?] using hroot

theorem lookup?_selfCall (calls : Nat) :
    (selfCall calls).store.lookup? "loop" calls = some selfCalling := by
  unfold Store.lookup?
  rw [find?_selfCall]
  exact congrArg (Bindings.get? "loop") (bindings_selfCall calls)

theorem continues_selfCall (host : Host) (calls : Nat) :
    Continues host 1 (selfCall calls) (selfCall (calls + 1)) := by
  have hlookup : lookup calls "loop" (selfCall calls).store =
      .ok selfCalling (selfCall calls).store := by
    change (match (selfCall calls).store.lookup? "loop" calls with
      | some value => pure value
      | none => fail (.unbound "loop") : Machine Datum) (selfCall calls).store = _
    rw [lookup?_selfCall]
    rfl
  have hstep : step { host, limit := 0, evaluate := evaluate host 1 0 } (.symbol "loop") calls
      (selfCall calls).store = .ok (.done selfCalling) (selfCall calls).store :=
    bind_of_ok hlookup
  have hoperator : EndsWith host 1 ⟨.symbol "loop", calls, (selfCall calls).store⟩
      (.ok selfCalling (selfCall calls).store) :=
    ⟨trivial, 1, bind_of_ok hstep⟩
  have henter : enterClosure selfCalling (.fixed []) 0 [] (selfCall calls).store =
      .ok (calls + 1) (selfCall (calls + 1)).store := by
    have hpush : (selfCall calls).store.pushFrame { bindings := [], outer := some 0 } =
        (calls + 1, (selfCall (calls + 1)).store) := by
      simp [Store.pushFrame, selfCall, Array.replicate_succ, Nat.add_comm]
    exact congrArg (fun pushed => EStateM.Result.ok pushed.1 pushed.2) hpush
  exact .call rfl hoperator .nil henter

/-- What is nested in a test and what is nested in the branch that it leads to do not add up: as
deep as the deeper of them is enough. And a procedure may call itself forever. -/
theorem endsWith_of_nested_test :
    let host : Host := { settings := .ofVariables ⟨none, none, none⟩, files := .catalogue [] }
    let test : Datum := .form none [.keyword .begin, .str "one", .bool true]
    let consequent : Datum := .form none [.keyword .begin, .str "two", .str "three"]
    let first : Configuration := ⟨.form none [.keyword .branch, test, consequent], 0, .empty⟩
    let last : Configuration := ⟨.str "three", 0, .empty⟩
    Configuration.EndsWith host 2 ⟨consequent, 0, .empty⟩ (.ok (.str "three") .empty) ∧
      Chain host [2, 1] first last ∧ first.EndsWith host 3 (.ok (.str "three") .empty) ∧
      Relation.ReflTransGen (Continues host 3) first last ∧
      first.EndsWith host 4 (.ok (.str "three") .empty) ∧
      ∀ outcome, ¬ (selfCall 0).EndsWith host 2 outcome := by
  intro host test consequent first last
  have hfirst : ∀ limit ≥ 2, Continues host limit first ⟨consequent, 0, .empty⟩ := by
    intro limit hlimit
    obtain ⟨more, rfl⟩ := Nat.exists_eq_add_of_le' hlimit
    have htest : EndsWith host (more + 2) ⟨test, 0, .empty⟩ (.ok (.bool true) .empty) :=
      ⟨trivial, 2, rfl⟩
    have hbranch : Continues host (more + 2)
        ⟨.form none (.keyword .branch :: test :: consequent :: (none : Option Datum).toList), 0,
          .empty⟩ ⟨consequent, 0, .empty⟩ :=
      .branch (Datum.specialForm?_keyword .branch) htest rfl
    exact hbranch
  have hlast : ∀ limit ≥ 1, Continues host limit ⟨consequent, 0, .empty⟩ last := by
    intro limit hlimit
    obtain ⟨more, rfl⟩ := Nat.exists_eq_add_of_le' hlimit
    have hearlier : GivesEach host (more + 1) 0 [.str "two"] .empty [.str "two"] .empty :=
      .cons ⟨trivial, 1, rfl⟩ .nil
    exact .begin (Datum.specialForm?_keyword .begin) hearlier
  have hchain : Chain host [2, 1] first last := .cons hfirst (.cons hlast .nil)
  have hchained : Relation.ReflTransGen (Continues host 3) first last :=
    hchain.reflTransGen (by decide)
  refine ⟨?_, hchain, ?_, hchained, ?_, ?_⟩
  · have hcontinues := hlast 1 (Nat.le_refl 1)
    exact ((endsWith_iff_of_continues host 1).2.1 hcontinues _).2 ⟨trivial, 1, rfl⟩
  · exact ((endsWith_iff_of_continues host 2).2.2.2.1 hchain (by decide) _).2 ⟨trivial, 1, rfl⟩
  · exact ((endsWith_iff_of_continues host 3).2.2.1 hchained _).2 ⟨trivial, 1, rfl⟩
  · exact (endsWith_iff_of_continues host 1).2.2.2.2 (continues_selfCall host)

end Configuration

end SmallScheme
