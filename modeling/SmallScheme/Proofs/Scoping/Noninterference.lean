import SmallScheme.Proofs.Comparison.Evaluator
import SmallScheme.Proofs.Scoping.Reachability
/-!
# Lexical scoping

An evaluation has only to do with what can be reached from its expression and frame. Two stores that
agree on all this, whatever is bound in other frames, give the same outcome and agree then on all
that can be reached. So what a procedure does depends on itself and its arguments: not on the frame
that it is called from, nor on those of earlier calls that nothing refers to.
-/

namespace SmallScheme

open Machine Interpreter

/-! ### Two stores side by side -/

namespace Store

/-- The stores agree on every frame that can be reached. -/
def AgreesFrom (roots : Reference → Prop) (left right : Store) : Prop :=
  left.AgreesOn (fun id => left.Reaches roots (.frame id)) right

/-- The stores agree in the scope, and the scope is closed. -/
structure Aligned (scope : Reference → Prop) (left right : Store) : Prop where
  closed : left.IsClosed scope
  agrees : left.AgreesOn (fun id => scope (.frame id)) right

variable {scope roots : Reference → Prop} {left right : Store}

theorem AgreesFrom.aligned (hagrees : left.AgreesFrom roots right) :
    left.Aligned (left.IsReachedOrNew roots) right where
  closed := left.isClosed_isReachedOrNew roots
  agrees := by
    refine ⟨hagrees.rest, hagrees.outers, fun id hid => ?_⟩
    rcases hid with hreaches | hnew
    · exact hagrees.frames hreaches
    · rw [Array.getElem?_eq_none hnew, Array.getElem?_eq_none (hagrees.size_eq ▸ hnew)]

theorem Aligned.agreesFrom (haligned : left.Aligned scope right)
    (hroots : ∀ reference, roots reference → scope reference) : left.AgreesFrom roots right :=
  haligned.agrees.mono fun _ => haligned.closed.of_reaches hroots

end Store

namespace Outcome

variable {α : Type}

/-- The same end with a good value or an interrupt, in stores that are aligned. -/
inductive InStep (scope : Reference → Prop) (good : α → Prop) : Outcome α → Outcome α → Prop where
  | ok {value : α} {left right : Store} (hgood : good value) (haligned : left.Aligned scope right) :
    InStep scope good (.ok value left) (.ok value right)
  | error {interrupt : Interrupt} {left right : Store} (haligned : left.Aligned scope right) :
    InStep scope good (.error interrupt left) (.error interrupt right)

/-- The same end, in stores that agree on what can be reached from the roots and the value. -/
inductive Agrees (roots : Reference → Prop) : Outcome Datum → Outcome Datum → Prop where
  | ok {value : Datum} {left right : Store} (hagrees :
      left.AgreesFrom (fun reference => roots reference ∨ value.RefersTo reference) right) :
    Agrees roots (.ok value left) (.ok value right)
  | error {interrupt : Interrupt} {left right : Store} (hagrees : left.AgreesFrom roots right) :
    Agrees roots (.error interrupt left) (.error interrupt right)

theorem InStep.agrees {scope roots : Reference → Prop} {left right : Outcome Datum}
    (hinStep : InStep scope (Datum.InScope scope) left right)
    (hroots : ∀ reference, roots reference → scope reference) : Agrees roots left right := by
  cases hinStep with
  | ok hvalue haligned =>
    exact .ok (haligned.agreesFrom fun reference => Or.rec (hroots reference) fun h => hvalue h)
  | error haligned => exact .error (haligned.agreesFrom hroots)

end Outcome

/-! ### The comparison -/

namespace Machine

variable {α β : Type} {scope : Reference → Prop} {good : α → Prop}

/-- The two computations go the same way in aligned stores. -/
def KeepStep (scope : Reference → Prop) (good : α → Prop) (left right : Machine α) : Prop :=
  ∀ ⦃first second : Store⦄, first.Aligned scope second →
    Outcome.InStep scope good (left first) (right second)

theorem KeepStep.bind {post : β → Prop} {left right : Machine α} {next next' : α → Machine β}
    (hfirst : KeepStep scope good left right)
    (hnext : ∀ value, good value → KeepStep scope post (next value) (next' value)) :
    KeepStep scope post (left >>= next) (right >>= next') := by
  intro first second haligned
  have hinStep := hfirst haligned
  generalize hleft : left first = leftOutcome at hinStep
  generalize hright : right second = rightOutcome at hinStep
  cases hinStep with
  | ok hgood haligned =>
    rw [bind_of_ok hleft, bind_of_ok hright]
    exact hnext _ hgood haligned
  | error haligned =>
    rw [bind_of_error hleft, bind_of_error hright]
    exact .error haligned

theorem KeepStep.tryCatch {left right : Machine α} {handler : Interrupt → Machine α}
    (hfirst : KeepStep scope good left right)
    (hhandler : ∀ interrupt, KeepStep scope good (handler interrupt) (handler interrupt)) :
    KeepStep scope good (tryCatch left handler) (MonadExcept.tryCatch right handler) := by
  intro first second haligned
  have hinStep := hfirst haligned
  generalize hleft : left first = leftOutcome at hinStep
  generalize hright : right second = rightOutcome at hinStep
  cases hinStep with
  | ok hgood haligned =>
    rw [tryCatch_of_ok hleft, tryCatch_of_ok hright]
    exact .ok hgood haligned
  | error haligned =>
    rw [tryCatch_of_error hleft, tryCatch_of_error hright]
    exact hhandler _ haligned

theorem keepStep_throw (interrupt : Interrupt) :
    KeepStep scope good (throw interrupt) (throw interrupt) :=
  fun _ _ haligned => .error haligned

/-- What changes neither frames nor promises, and gives the same value whatever they are. -/
theorem keepStep_modifyGet {step : Store → α × Store}
    (hframes : ∀ store, (step store).2.frames = store.frames)
    (hpromises : ∀ store, (step store).2.promises = store.promises)
    (hstep : ∀ store frames, step { store with frames } =
      ((step store).1, { (step store).2 with frames }))
    (hgood : ∀ store, good (step store).1) :
    KeepStep scope good (modifyGet step) (modifyGet step) := by
  intro first second haligned
  have hvalue : (step second).1 = (step first).1 := by
    rw [haligned.agrees.rest, hstep]
  have hafter : (step first).2.Aligned scope (step second).2 :=
    ⟨haligned.closed.of_eq (hframes first) (hpromises first),
      haligned.agrees.of_change (fun store => (step store).2) hframes
        fun store frames => congrArg Prod.snd (hstep store frames)⟩
  change Outcome.InStep scope good (.ok (step first).1 _) (.ok (step second).1 _)
  rw [hvalue]
  exact .ok (hgood first) hafter

end Machine

/-- Computations in two stores that agree in the scope. -/
def Comparison.lockstep (scope : Reference → Prop) : Comparison where
  scope := scope
  slack := 0
  forgives := False
  slack_eq_zero_or_forgives := Comparison.slack_zero_or False
  Relates := KeepStep scope
  pure := fun hgood _ _ haligned => .ok hgood haligned
  throw := keepStep_throw
  tooDeep := fun hfalse => hfalse.elim
  bind := .bind
  tryCatch := by
    intro α good left right handler hfirst hfault hrethrow
    exact hfirst.tryCatch (relates_handler hfault hrethrow keepStep_throw)
  guarded := by
    intro good left right hfirst _
    refine hfirst.tryCatch fun interrupt => ?_
    cases interrupt <;> exact keepStep_throw _
  freshLabels := fun count =>
    keepStep_modifyGet (fun _ => rfl) (fun _ => rfl) (fun _ _ => rfl) fun _ => trivial
  newFrame := by
    intro bindings outer hbindings houter first second haligned
    have hframe : Frame.InScope scope { bindings, outer := some outer } :=
      ⟨hbindings, fun _ heq => by cases heq; exact houter⟩
    have hafter := haligned.closed.pushFrame hframe
    have hagrees := haligned.agrees.pushFrame { bindings, outer := some outer }
    change Outcome.InStep scope _ (.ok first.frames.size _) (.ok second.frames.size _)
    rw [haligned.agrees.size_eq]
    exact .ok (haligned.closed.newFrames (Nat.le_refl _)) ⟨hafter, hagrees⟩
  define := fun _ hvalue _ _ haligned => .ok trivial
    ⟨haligned.closed.define _ _ hvalue, haligned.agrees.define _ _ _⟩
  lookup := by
    intro frame name hframe first second haligned
    obtain ⟨heq, hscope⟩ := haligned.agrees.lookup?_eq haligned.closed hframe name
    rw [lookup_eq, lookup_eq, heq]
    cases hlookup : first.lookup? name frame with
    | none => exact .error haligned
    | some value => exact .ok (hscope value hlookup) haligned
  newPromise := by
    intro expression frame hexpression hframe first second haligned
    have hpromise : Promise.InScope scope (.pending expression frame) := ⟨hexpression, hframe⟩
    have hagrees := haligned.agrees.pushPromise (.pending expression frame)
    change Outcome.InStep scope _ (.ok (Datum.promise first.promises.size) _)
      (.ok (Datum.promise second.promises.size) _)
    rw [congrArg Array.size haligned.agrees.promises_eq]
    exact .ok (Datum.inScope_promise.2 (haligned.closed.newPromises (Nat.le_refl _)))
      ⟨haligned.closed.pushPromise hpromise, hagrees⟩
  promise? := by
    intro id hid first second haligned
    rw [promise?_eq, promise?_eq, haligned.agrees.promises_eq]
    exact .ok (fun promise hpromise => haligned.closed.promises hid hpromise) haligned
  write := fun text =>
    keepStep_modifyGet (fun _ => rfl) (fun _ => rfl) (fun _ _ => rfl) fun _ => trivial
  record := fun level logger message =>
    keepStep_modifyGet (fun _ => rfl) (fun _ => rfl) (fun _ _ => rfl) fun _ => trivial
  noteOpened := fun path =>
    keepStep_modifyGet (fun _ => rfl) (fun _ => rfl) (fun _ _ => rfl) fun _ => trivial

namespace Machine

variable {scope : Reference → Prop}

/-- A promise in the scope gets the same value in both stores. -/
theorem keepStep_keepFirst {id : PromiseId} {value : Datum} (hid : scope (.promise id))
    (hvalue : value.InScope scope) :
    KeepStep scope (Datum.InScope scope) (keepFirst id value) (keepFirst id value) := by
  intro first second haligned
  have hpromises := haligned.agrees.promises_eq
  by_cases hforced : ∃ earlier, first.promises[id]? = some (.forced earlier)
  · obtain ⟨earlier, hforced⟩ := hforced
    rw [keepFirst_of_forced hforced, keepFirst_of_forced (hpromises ▸ hforced)]
    exact .ok (haligned.closed.promises hid hforced) haligned
  · have hunforced : ∀ earlier, first.promises[id]? ≠ some (.forced earlier) :=
      fun earlier heq => hforced ⟨earlier, heq⟩
    rw [keepFirst_of_unforced hunforced, keepFirst_of_unforced (hpromises ▸ hunforced)]
    exact .ok hvalue
      ⟨haligned.closed.settlePromise id hvalue, haligned.agrees.settlePromise id value⟩

/-- Apply a procedure and go on to its value. -/
def call (context : Context) (steps : Nat) (callee : Datum) (arguments : List Datum) :
    Machine Datum := do
  match ← applyProcedure context callee arguments with
  | .done value => return value
  | .proceed expression frame => iterate (step context) steps expression frame

/-- The frame of an application has only to do with its operator and operands. -/
theorem iterate_application {head : Datum} (hhead : head.specialForm? = none) (context : Context)
    (steps : Nat) (label : Option Label) (operands : List Datum) (frame : FrameId) :
    iterate (step context) (steps + 1) (.form label (head :: operands)) frame = (do
      let callee ← context.evaluate head frame
      let arguments ← operands.mapM fun operand => context.evaluate operand frame
      call context steps callee arguments) := by
  rw [iterate_succ, step_form, hhead]
  simp only [evaluateApplication, bind_assoc]
  rfl

end Machine

namespace Comparison

variable {scope : Reference → Prop}

theorem matches_lockstep (scope : Reference → Prop) (host : Host) (steps limit : Nat) :
    (lockstep scope).Matches (contextWithin host steps limit)
      (contextWithin host steps limit) where
  host := rfl
  limit := rfl
  evaluate := by
    induction limit with
    | zero => exact fun _ _ => keepStep_throw .tooDeep
    | succ limit ih =>
      intro expression frame hexpression hframe
      have hcontexts : (lockstep scope).Matches (contextWithin host steps limit)
          (contextWithin host steps limit) :=
        ⟨rfl, rfl, ih, fun hfalse => hfalse.elim⟩
      exact iterate_step hcontexts keepStep_keepFirst steps hexpression hframe
  neverTooDeep := fun hfalse => hfalse.elim

theorem call {context : Context} (hcontexts : (lockstep scope).Matches context context)
    (steps : Nat) {callee : Datum} {arguments : List Datum} (hcallee : callee.InScope scope)
    (harguments : ∀ argument ∈ arguments, argument.InScope scope) :
    (lockstep scope).RelatesData (Machine.call context steps callee arguments)
      (Machine.call context steps callee arguments) := by
  have happly := applyProcedure hcontexts hcallee harguments fun {id} _ hid => by
    have hpromise : (Datum.promise id).InScope scope := harguments _ (by simp [hid])
    rw [Datum.inScope_promise] at hpromise
    exact forcePromise hcontexts hpromise (keepStep_keepFirst hpromise)
  refine (lockstep scope).bind happly fun step hstep => ?_
  cases step with
  | done value => exact (lockstep scope).pure hstep
  | proceed expression frame =>
    exact iterate_step hcontexts keepStep_keepFirst steps hstep.1 hstep.2

end Comparison

/-! ### Noninterference -/

/-- What an expression and a frame refer to. -/
def evaluationRoots (expression : Datum) (frame : FrameId) (reference : Reference) : Prop :=
  expression.RefersTo reference ∨ reference = .frame frame

/-- What a procedure and its arguments refer to. -/
def callRoots (callee : Datum) (arguments : List Datum) (reference : Reference) : Prop :=
  ∃ datum ∈ callee :: arguments, datum.RefersTo reference

section Agreement

variable {left right : Store} {host : Host}

theorem agrees_evaluate (steps limit : Nat) {expression : Datum} {frame : FrameId}
    (hagrees : left.AgreesFrom (evaluationRoots expression frame) right) :
    Outcome.Agrees (evaluationRoots expression frame)
      (evaluate host steps limit expression frame left)
      (evaluate host steps limit expression frame right) := by
  have hscope : ∀ reference, evaluationRoots expression frame reference →
      left.IsReachedOrNew (evaluationRoots expression frame) reference :=
    fun reference hroot => (Store.Reaches.root hroot).isReachedOrNew
  have hcontexts := Comparison.matches_lockstep
    (left.IsReachedOrNew (evaluationRoots expression frame)) host steps limit
  have hinStep := hcontexts.evaluate (fun reference hrefers => hscope reference (.inl hrefers))
    (hscope _ (.inr rfl)) hagrees.aligned
  exact hinStep.agrees hscope

theorem agrees_call (budget steps limit : Nat) {callee : Datum} {arguments : List Datum}
    (hagrees : left.AgreesFrom (callRoots callee arguments) right) :
    Outcome.Agrees (callRoots callee arguments)
      (call (contextWithin host budget limit) steps callee arguments left)
      (call (contextWithin host budget limit) steps callee arguments right) := by
  have hscope : ∀ reference, callRoots callee arguments reference →
      left.IsReachedOrNew (callRoots callee arguments) reference :=
    fun reference hroot => (Store.Reaches.root hroot).isReachedOrNew
  have hdatum : ∀ datum ∈ callee :: arguments,
      datum.InScope (left.IsReachedOrNew (callRoots callee arguments)) :=
    fun datum hmem reference hrefers => hscope reference ⟨datum, hmem, hrefers⟩
  rw [List.forall_mem_cons] at hdatum
  have hcontexts := Comparison.matches_lockstep
    (left.IsReachedOrNew (callRoots callee arguments)) host budget limit
  exact (Comparison.call hcontexts steps hdatum.1 hdatum.2 hagrees.aligned).agrees hscope

end Agreement

/-- Scoping is lexical. In two stores that agree on all that can be reached from an expression and a
frame, and have whatever they may bound in other frames, the expression has the same outcome in the
frame, and all that can be reached then is the same again. The same is true of a procedure and its
arguments, whatever frame it is called from: the frame of a call is done with when the operator and
the operands are evaluated. -/
theorem Interpreter.agrees_of_agreesFrom (host : Host) :
    (∀ (steps limit : Nat) {expression : Datum} {frame : FrameId} {left right : Store},
      left.AgreesFrom (evaluationRoots expression frame) right →
      Outcome.Agrees (evaluationRoots expression frame)
        (evaluate host steps limit expression frame left)
        (evaluate host steps limit expression frame right)) ∧
    (∀ (budget steps limit : Nat) {callee : Datum} {arguments : List Datum} {left right : Store},
      left.AgreesFrom (callRoots callee arguments) right →
      Outcome.Agrees (callRoots callee arguments)
        (call (contextWithin host budget limit) steps callee arguments left)
        (call (contextWithin host budget limit) steps callee arguments right)) ∧
    ∀ (steps limit : Nat) {head : Datum}, head.specialForm? = none →
      ∀ (label : Option Label) (operands : List Datum) (frame : FrameId),
        evaluate host (steps + 1) (limit + 1) (.form label (head :: operands)) frame = (do
          let context := contextWithin host (steps + 1) limit
          let callee ← context.evaluate head frame
          let arguments ← operands.mapM fun operand => context.evaluate operand frame
          call context steps callee arguments) := by
  refine ⟨fun steps limit _ _ _ _ => agrees_evaluate steps limit,
    fun budget steps limit _ _ _ _ => agrees_call budget steps limit, ?_⟩
  intro steps limit head hhead label operands frame
  exact iterate_application hhead _ steps label operands frame

/-! ### A name of the caller -/

/-- A store with a frame inside the root frame, where the same name has another value. -/
def callerBinding (value : Datum) : Store where
  frames := #[⟨[("x", .bool true)], none⟩, ⟨[("x", value)], some rootFrame⟩]
  promises := #[]
  nextLabel := 1
  output := ""
  log := #[]
  opened := #[]

/-- Nothing but the frame itself leads to the frame of the caller. -/
theorem agreesFrom_callerBinding {roots : Reference → Prop} (hroots : ¬ roots (.frame 1))
    (value other : Datum) : (callerBinding value).AgreesFrom roots (callerBinding other) := by
  have hclosed : (callerBinding value).IsClosed (· ≠ .frame 1) :=
    { frames := by
        intro id frame hid hframe
        match id with
        | 0 =>
          cases hframe
          exact ⟨List.forall_mem_singleton.2 (Datum.inScope_bool true), by rintro _ ⟨⟩⟩
        | 1 => exact absurd rfl hid
        | id + 2 => cases hframe
      promises := by rintro id promise - ⟨⟩
      newFrames := by
        rintro id hid ⟨⟩
        exact Nat.not_succ_le_self 1 hid
      newPromises := by rintro id - ⟨⟩ }
  refine ⟨rfl, by simp [callerBinding], fun id hreaches => ?_⟩
  have hne := hclosed.of_reaches (fun reference hroot => ?_) hreaches
  · match id with
    | 0 => rfl
    | 1 => exact absurd rfl hne
    | id + 2 => rfl
  · rintro rfl
    exact hroots hroot

/-- The procedure has the value that its name has where it was made, whoever calls it. -/
theorem Interpreter.agrees_of_agreesFrom_callerBinding :
    let host : Host := { settings := .ofVariables ⟨none, none, none⟩, files := .catalogue [] }
    let callee : Datum := .closure 0 none (.fixed []) [.symbol "x"] rootFrame
    let left := callerBinding (.bool false)
    let right := callerBinding .empty
    Outcome.Agrees (evaluationRoots (.form none [callee]) rootFrame)
        (evaluate host 9 9 (.form none [callee]) rootFrame left)
        (evaluate host 9 9 (.form none [callee]) rootFrame right) ∧
      Outcome.Agrees (callRoots callee []) (call (contextWithin host 9 8) 8 callee [] left)
        (call (contextWithin host 9 8) 8 callee [] right) ∧
      evaluate host 9 9 (.form none [callee]) 1 left =
        call (contextWithin host 9 8) 8 callee [] left ∧
      ∃ after, call (contextWithin host 9 8) 8 callee [] left = .ok (.bool true) after := by
  intro host callee left right
  have hcallee : callee.InScope (· ≠ .frame 1) := by
    refine Datum.inScope_closure.2 ⟨List.forall_mem_singleton.2 (Datum.inScope_symbol "x"), ?_⟩
    rintro ⟨⟩
  have hform : ¬ evaluationRoots (.form none [callee]) rootFrame (.frame 1) := by
    rintro (hrefers | heq)
    · exact Datum.inScope_form.2 (List.forall_mem_singleton.2 hcallee) hrefers rfl
    · exact Nat.one_ne_zero (Reference.frame.inj heq)
  have hcall : ¬ callRoots callee [] (.frame 1) := by
    rintro ⟨datum, hmem, hrefers⟩
    cases List.mem_singleton.1 hmem
    exact hcallee hrefers rfl
  have hall := agrees_of_agreesFrom host
  refine ⟨hall.1 9 9 (agreesFrom_callerBinding hform _ _),
    hall.2.1 9 8 8 (agreesFrom_callerBinding hcall _ _), ?_, _, by with_unfolding_all rfl⟩
  rw [hall.2.2 8 8 rfl none [] 1]
  rfl

end SmallScheme
