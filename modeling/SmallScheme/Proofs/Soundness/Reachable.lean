import SmallScheme.Interpreter
import SmallScheme.Proofs.Machine.Application
import SmallScheme.Proofs.Soundness.Forms
/-!
# Reachable stores are sound

Evaluation is safe as a whole: whatever expression is evaluated, with however many steps and however
deep, the store stays sound and what comes out is a value. So every store that an interpreter
reaches is sound, and in it every value is its own value.
-/

namespace SmallScheme

open Machine

/-! ### Evaluation -/

theorem Datum.IsValue.specialForm?_eq_none {store : Store} {datum : Datum}
    (hvalue : datum.IsValue store) : datum.specialForm? = none := by
  cases hvalue <;> rfl

namespace Machine

variable {context : Context} {store : Store} {expression : Datum} {frame : FrameId}

/-- A value is its own value, and nothing happens. -/
theorem step_of_isValue (hvalue : expression.IsValue store) (context : Context) (frame : FrameId) :
    step context expression frame = pure (.done expression) := by
  cases hvalue <;> rfl

theorem stepWith_of_isValue (hvalue : expression.IsValue store)
    (apply : Datum → List Datum → Machine Step) (context : Context) (frame : FrameId) :
    stepWith apply context expression frame = pure (.done expression) := by
  cases hvalue <;> rfl

section Application

variable {apply : Datum → List Datum → Machine Step}

theorem safe_applicationWith (hcontext : context.IsSafe)
    (happly : ∀ {store : Store} {callee : Datum} {arguments : List Datum}, store.Sound →
      callee.IsValue store → (∀ argument ∈ arguments, argument.IsValue store) →
      Safe store (apply callee arguments) fun after step => step.IsSound after)
    (hsound : store.Sound) (hframe : frame < store.frames.size) {operator : Datum}
    {operands : List Datum} (hoperator : operator.IsExpression store)
    (hoperands : ∀ operand ∈ operands, operand.IsExpression store) :
    Safe store (applicationWith apply context frame operator operands) fun after step =>
      step.IsSound after := by
  refine (hcontext hsound hoperator hframe).bind fun _ callee hextends hsound hcallee => ?_
  have harguments : Safe _ (operands.mapM fun operand => context.evaluate operand frame)
      fun after values => ∀ value ∈ values, value.IsValue after :=
    .mapM (fun _ _ _ hextends hvalue => hvalue.mono hextends) hsound
      fun _ hextends' hsound operand hmem =>
        hcontext hsound ((hoperands operand hmem).mono (hextends.trans hextends'))
          (hextends'.frame_lt (hextends.frame_lt hframe))
  exact harguments.bind fun _ _ hextends hsound harguments =>
    happly hsound (hcallee.mono hextends) harguments

/-- A step is safe if procedures are applied in a safe way. -/
theorem safe_stepWith (hcontext : context.IsSafe)
    (happly : ∀ {store : Store} {callee : Datum} {arguments : List Datum}, store.Sound →
      callee.IsValue store → (∀ argument ∈ arguments, argument.IsValue store) →
      Safe store (apply callee arguments) fun after step => step.IsSound after)
    (hsound : store.Sound) (hframe : frame < store.frames.size)
    (hexpression : expression.IsExpression store) :
    Safe store (stepWith apply context expression frame) fun after step =>
      step.IsSound after := by
  cases hexpression with
  | value hvalue =>
    rw [stepWith_of_isValue hvalue]
    exact .pure hsound hvalue
  | source hwritten =>
    cases hwritten with
    | bool value => exact .pure hsound (.bool value)
    | num _ => exact .pure hsound (.num _)
    | str text => exact .pure hsound (.str text)
    | symbol _ =>
      exact (givesValue_lookup hsound frame _).bind fun _ _ _ hsound hvalue => .pure hsound hvalue
    | @form items hitems =>
      cases items with
      | nil => exact .pure hsound .empty
      | cons head operands =>
        rw [List.forall_mem_cons] at hitems
        rw [stepWith_form]
        split
        · exact safe_evaluateSpecial hcontext hsound hframe hitems.2 _
        · exact safe_applicationWith hcontext happly hsound hframe (.source hitems.1)
            fun operand hmem => .source (hitems.2 operand hmem)
  | @application items hitems =>
    cases items with
    | nil => exact .pure hsound .empty
    | cons head operands =>
      rw [List.forall_mem_cons] at hitems
      rw [stepWith_form, hitems.1.specialForm?_eq_none]
      exact safe_applicationWith hcontext happly hsound hframe (.value hitems.1)
        fun operand hmem => .value (hitems.2 operand hmem)
  | @branch test consequent alternative htest hconsequent halternative =>
    rw [stepWith_keyword]
    change Safe store (evaluateBranch context frame [test, consequent, alternative]) _
    refine safe_evaluateBranch hcontext hsound hframe ?_
    simp only [List.forall_mem_cons]
    exact ⟨htest, hconsequent, halternative, fun _ hmem => absurd hmem List.not_mem_nil⟩

/-- Steps that apply procedures in a safe way give a value. -/
theorem givesValue_iterate (hcontext : context.IsSafe)
    (happly : ∀ {store : Store} {callee : Datum} {arguments : List Datum}, store.Sound →
      callee.IsValue store → (∀ argument ∈ arguments, argument.IsValue store) →
      Safe store (apply callee arguments) fun after step => step.IsSound after)
    (hsound : store.Sound) (hframe : frame < store.frames.size)
    (hexpression : expression.IsExpression store) (steps : Nat) :
    GivesValue store (iterate (stepWith apply context) steps expression frame) := by
  induction steps generalizing store expression frame with
  | zero => exact .throw hsound trivial
  | succ steps ih =>
    have hstep := safe_stepWith hcontext happly hsound hframe hexpression
    refine hstep.bind fun _ next _ hsound hnext => ?_
    cases next with
    | done value => exact .pure hsound hnext
    | proceed expression frame => exact ih hsound hnext.2 hnext.1

end Application

/-- Evaluation is safe and gives values. -/
theorem givesValue_evaluate (host : Host) (steps limit : Nat) (hsound : store.Sound)
    (hframe : frame < store.frames.size) (hexpression : expression.IsExpression store) :
    GivesValue store (evaluate host steps limit expression frame) := by
  induction limit generalizing store expression frame with
  | zero => exact .throw hsound trivial
  | succ limit ih =>
    have hcontext : Context.IsSafe { host, limit, evaluate := evaluate host steps limit } :=
      fun _ _ _ hsound hexpression hframe => ih hsound hframe hexpression
    rw [evaluate, ← stepWith_applyProcedure]
    exact givesValue_iterate hcontext (safe_applyProcedure hcontext) hsound hframe hexpression steps

/-! ### Sources -/

theorem givesValue_runStream (hcontext : context.IsSafe) (hsound : store.Sound)
    (hframe : frame < store.frames.size) {previous : Datum} (hprevious : previous.IsValue store)
    {stream : TokenStream} (hstream : stream.OfText) :
    GivesValue store (runStream context frame previous stream) := by
  fun_induction runStream context frame previous stream generalizing store with
  | case1 => exact .pure hsound hprevious
  | case2 previous stream form rest hread ih =>
    obtain ⟨hform, hrest⟩ := TokenStream.isSyntax_of_readForm hstream hread
    refine (givesValue_attempt hcontext hsound hframe hprevious hform).bind ?_
    exact fun _ value hextends hsound hvalue =>
      ih value hsound (hextends.frame_lt hframe) hvalue hrest
  | case3 =>
    exact (safe_record hsound _ _ _).bind fun _ _ hextends hsound _ =>
      .pure hsound (hprevious.mono hextends)
  | case4 _ _ _ _ _ hread =>
    exact .throw hsound (TokenStream.isOfText_of_readInside hread).isExpected

theorem givesValue_evaluateStream (hcontext : context.IsSafe) (hsound : store.Sound)
    (hframe : frame < store.frames.size) {previous : Datum} (hprevious : previous.IsValue store)
    {stream : TokenStream} (hstream : stream.OfText) :
    GivesValue store (evaluateStream context frame previous stream) := by
  fun_induction evaluateStream context frame previous stream generalizing store with
  | case1 => exact .pure hsound hprevious
  | case2 previous stream form rest hread ih =>
    obtain ⟨hform, hrest⟩ := TokenStream.isSyntax_of_readForm hstream hread
    refine (givesValue_guarded (hcontext hsound (.source hform) hframe)).bind ?_
    exact fun _ value hextends hsound hvalue =>
      ih value hsound (hextends.frame_lt hframe) hvalue hrest
  | case3 _ _ _ _ hread => exact .throw hsound (TokenStream.isOfText_of_readInside hread).isExpected

end Machine

/-! ### Interpreters -/

namespace Interpreter

/-- What an evaluation at the top level may use, with a number of steps on each level and nested no
deeper than a limit. -/
def contextWithin (host : Host) (steps limit : Nat) : Context where
  host := host
  limit := limit
  evaluate := Machine.evaluate host steps limit

/-- What a host can have an interpreter do: evaluate or run a text, or load the file of a name. -/
inductive Request where
  | eval (text : String)
  | run (text : String)
  | load (name : String)

def Request.serve (context : Context) : Request → Machine Datum
  | .eval text => evaluateStream context rootFrame .unspecified (.ofText text)
  | .run text => runStream context rootFrame .unspecified (.ofText text)
  | .load name => loadFile context rootFrame name

/-- A fresh interpreter gets to the store by serving requests one after the other, each in whatever
surroundings and with whatever end. -/
inductive Reachable : Store → Prop where
  | initial : Reachable initialStore
  | value {store after : Store} (hstore : Reachable store) (host : Host) (steps limit : Nat)
    (request : Request) {value : Datum}
    (hserve : request.serve (contextWithin host steps limit) store = .ok value after) :
    Reachable after
  | interrupt {store after : Store} (hstore : Reachable store) (host : Host) (steps limit : Nat)
    (request : Request) {interrupt : Interrupt}
    (hserve : request.serve (contextWithin host steps limit) store = .error interrupt after) :
    Reachable after

theorem eval_eq_serve (host : Host) (text : String) :
    eval host text = (Request.eval text).serve (contextWithin host stepBudget depthLimit) := rfl

theorem run_eq_serve (host : Host) (text : String) :
    run host text = (Request.run text).serve (contextWithin host stepBudget depthLimit) := rfl

theorem load_eq_serve (host : Host) (name : String) :
    load host name = (Request.load name).serve (contextWithin host stepBudget depthLimit) := rfl

theorem isSafe_contextWithin (host : Host) (steps limit : Nat) :
    (contextWithin host steps limit).IsSafe :=
  fun _ _ _ hsound hexpression hframe =>
    givesValue_evaluate host steps limit hsound hframe hexpression

theorem Request.givesValue_serve {context : Context} (hcontext : context.IsSafe) {store : Store}
    (hsound : store.Sound) (request : Request) : GivesValue store (request.serve context) := by
  have hroot : rootFrame < store.frames.size := hsound.root
  cases request with
  | eval text => exact givesValue_evaluateStream hcontext hsound hroot .unspecified (.rest _ _)
  | run text => exact givesValue_runStream hcontext hsound hroot .unspecified (.rest _ _)
  | load name => exact givesValue_loadFile hcontext hsound hroot name

theorem givesValue_serve {store : Store} (hsound : store.Sound) (host : Host) (steps limit : Nat)
    (request : Request) : GivesValue store (request.serve (contextWithin host steps limit)) :=
  request.givesValue_serve (isSafe_contextWithin host steps limit) hsound

theorem sound_initialStore : initialStore.Sound where
  root := Nat.one_pos
  frames := by
    intro id frame hframe
    have hid : id = 0 := by
      have hlt := (Array.getElem?_eq_some_iff.1 hframe).1
      exact Nat.lt_one_iff.1 hlt
    subst hid
    cases hframe
    refine ⟨fun binding hmem => ?_, by rintro _ ⟨⟩⟩
    rcases List.mem_append.1 hmem with hmem | hmem
    · obtain ⟨procedure, -, rfl⟩ := List.mem_map.1 hmem
      exact .builtin procedure
    · rw [List.mem_singleton.1 hmem]
      exact .empty
  promises := fun hpromise => by cases hpromise

/-- Every reachable store is sound. -/
theorem sound_of_reachable {store : Store} (hstore : Reachable store) : store.Sound := by
  induction hstore with
  | initial => exact sound_initialStore
  | value _ host steps limit request hserve ih =>
    exact ((givesValue_serve ih host steps limit request).ok hserve).2.1
  | interrupt _ host steps limit request hserve ih =>
    exact ((givesValue_serve ih host steps limit request).error hserve).2.1

/-- In every reachable store, and in every sound one that an evaluation inside another may start
from, what an evaluation ends with is a value and what it leaves is sound; and evaluating a value,
in any frame, gives that very value and changes nothing. -/
theorem values_of_reachable :
    (∀ {store : Store}, Reachable store → store.Sound) ∧
      ∀ {store : Store}, store.Sound →
        (∀ (host : Host) (steps limit : Nat) {expression : Datum} {frame : FrameId},
          expression.IsExpression store → frame < store.frames.size →
            GivesValue store (evaluate host steps limit expression frame)) ∧
        ∀ (host : Host) (steps limit : Nat) {value : Datum} (frame : FrameId),
          value.IsValue store →
            evaluate host (steps + 1) (limit + 1) value frame store = .ok value store := by
  refine ⟨sound_of_reachable, fun {store} hsound => ⟨?_, ?_⟩⟩
  · intro host steps limit expression frame hexpression hframe
    exact givesValue_evaluate host steps limit hsound hframe hexpression
  · intro host steps limit value frame hvalue
    rw [evaluate, iterate, step_of_isValue hvalue]
    rfl

/-- A fresh interpreter after a program has bound a name to a promise. -/
def promisingStore (promise : Promise) (nextLabel : Label) : Store :=
  { initialStore with
    frames := #[⟨initialBindings ++ [("p", .promise 0)], none⟩]
    promises := #[promise]
    nextLabel }

/-- After a program has run, to force its promise gives a value, which is a pair of two procedures.
The store is sound then, and the pair and the procedure in it that the program has written evaluate
to themselves. -/
theorem values_of_forced_promise :
    let host : Host := { settings := .ofVariables ⟨none, none, none⟩, files := .catalogue [] }
    let identity : Datum := .closure 0 none (.fixed ["x"]) [.symbol "x"] rootFrame
    let pair : Datum := .pair 1 (.builtin .car) identity
    let after := promisingStore (.forced pair) 2
    ∃ store, (Request.run "(define p (delay (cons car (lambda (x) x))))").serve
        (contextWithin host 9 9) initialStore = .ok .unspecified store ∧
      evaluate host 9 9 (.form none [.builtin .force, .promise 0]) rootFrame store =
        .ok pair after ∧
      after.Sound ∧ pair.IsValue after ∧
      evaluate host 1 1 pair rootFrame after = .ok pair after ∧
      evaluate host 1 1 identity rootFrame after = .ok identity after := by
  intro host identity pair after
  let promised : Datum := .form none [.symbol "cons", .symbol "car",
    .form none [.keyword .lambda, .form none [.symbol "x"], .symbol "x"]]
  -- to read and to look up are by well-founded recursion, which only unfolds on request
  have hrun : (Request.run "(define p (delay (cons car (lambda (x) x))))").serve
      (contextWithin host 9 9) initialStore =
        .ok .unspecified (promisingStore (.pending promised rootFrame) 0) := by
    with_unfolding_all rfl
  have hforce : evaluate host 9 9 (.form none [.builtin .force, .promise 0]) rootFrame
      (promisingStore (.pending promised rootFrame) 0) = .ok pair after := by
    with_unfolding_all rfl
  have hsound := values_of_reachable.1 (.value .initial host 9 9 (.run _) hrun)
  have hexpression : (Datum.form none [.builtin .force, .promise 0]).IsExpression
      (promisingStore (.pending promised rootFrame) 0) :=
    .application (List.forall_mem_cons.2
      ⟨.builtin .force, List.forall_mem_singleton.2 (.promise Nat.one_pos)⟩)
  obtain ⟨hgives, -⟩ := values_of_reachable.2 hsound
  obtain ⟨-, hsoundAfter, hpair⟩ := (hgives host 9 9 hexpression Nat.one_pos).ok hforce
  obtain ⟨-, hitself⟩ := values_of_reachable.2 hsoundAfter
  have hidentity : identity.IsValue after := by
    unfold pair at hpair
    cases hpair
    assumption
  exact ⟨_, hrun, hforce, hsoundAfter, hpair, hitself host 0 0 rootFrame hpair,
    hitself host 0 0 rootFrame hidentity⟩

end Interpreter

end SmallScheme
