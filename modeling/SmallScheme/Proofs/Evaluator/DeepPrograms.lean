import SmallScheme.Proofs.Evaluator.Connectives
import SmallScheme.Proofs.Evaluator.Denotation
/-!
# Programs that leave few levels

Expressions that stand one inside the other, as operands or as operators, are each evaluated with
one level less, and an interrupt of the innermost one is that of them all. So a program can get to
an expression with as few levels left as it likes. With a promise it does so with an expression that
a reader has made with all of them, and with a definition it does so with a quoted value.
-/

namespace SmallScheme

open Machine

namespace Datum

/-- Lists one inside the other, and the innermost one is empty. -/
def nestedForms : Nat → Datum
  | 0 => .form none []
  | count + 1 => .form none [nestedForms count]

theorem isSyntax_nestedForms (count : Nat) : (nestedForms count).IsSyntax := by
  induction count with
  | zero => exact .form fun _ hmem => absurd hmem List.not_mem_nil
  | succ count ih => exact .form (List.forall_mem_singleton.2 ih)

theorem nesting_nestedForms (count : Nat) : (nestedForms count).nesting = count + 1 := by
  induction count with
  | zero => rfl
  | succ count ih => rw [nestedForms, nesting, nestingOfAll, nestingOfAll, ih, Nat.max_zero]

theorem literals_nestedForms (count : Nat) : (nestedForms count).literals = [] := by
  induction count with
  | zero => rfl
  | succ count ih =>
    rw [nestedForms, literals, literalsOfAll, ih]
    rfl

/-! Special forms of one operand. -/

theorem isSyntax_keyword_form (keyword : SpecialForm) {operand : Datum}
    (hoperand : operand.IsSyntax) : (form none [.keyword keyword, operand]).IsSyntax :=
  .form (List.forall_mem_cons.2 ⟨.symbol (isIdentifier_keyword keyword),
    List.forall_mem_singleton.2 hoperand⟩)

theorem nesting_keyword_form (keyword : SpecialForm) (operand : Datum) :
    (form none [.keyword keyword, operand]).nesting = operand.nesting + 1 := by
  simp [Datum.keyword, nesting, nestingOfAll]

/-- The application of what an expression gives to nothing. -/
def call (operator : Datum) : Datum := .form none [operator]

end Datum

namespace Configuration

variable {host : Host} {limit : Nat} {frame : FrameId} {store after : Store}
  {interrupt : Interrupt} {expression : Datum}

theorem endsWith_iterate_negation
    (hbound : store.lookup? Builtin.not.name frame = some (.builtin .not))
    (hinner : EndsWith host limit ⟨expression, frame, store⟩ (.error interrupt after))
    (count : Nat) :
    EndsWith host (limit + count) ⟨Datum.negation^[count] expression, frame, store⟩
      (.error interrupt after) := by
  induction count with
  | zero => exact hinner
  | succ count ih =>
    rw [Function.iterate_succ_apply']
    exact (Connectives.endsWith_negation_iff hbound).2 ⟨_, ih, rfl⟩

/-- The innermost expression is no name here, as that might be one of a special form. -/
theorem endsWith_iterate_call {items : List Datum}
    (hinner : EndsWith host limit ⟨.form none items, frame, store⟩ (.error interrupt after))
    (count : Nat) :
    EndsWith host (limit + count) ⟨Datum.call^[count] (.form none items), frame, store⟩
      (.error interrupt after) := by
  have hoperator : ∀ count, (Datum.call^[count] (.form none items)).specialForm? = none := by
    intro count
    cases count with
    | zero => rfl
    | succ count =>
      rw [Function.iterate_succ_apply']
      rfl
  induction count with
  | zero => exact hinner
  | succ count ih =>
    rw [Function.iterate_succ_apply']
    exact (endsWith_call_iff (hoperator count)).2 (.inl ⟨_, _, .first ih, rfl⟩)

end Configuration

namespace Interpreter

variable {host : Host} {steps limit : Nat} {after : Store} {interrupt : Interrupt}
  {expression : Datum}

/-- What is read can be quoted and be given a name, and no other name is touched. -/
theorem exists_reachable_quoted (host : Host) {form : Datum} (hwritten : form.IsSyntax)
    (hdeep : form.nesting + 2 ≤ depthLimit) :
    ∃ store value after, Reachable store ∧
      (∀ name ≠ "x", (store.bindings rootFrame).get? name = initialBindings.get? name) ∧
      (store.bindings rootFrame).get? "x" = some value ∧ form.Denotes value ∧
      quoteDatum (depthLimit - 2) form initialStore = .ok value after := by
  obtain ⟨value, count, hquote, hvalue⟩ :=
    exists_quoteDatum_eq_ok hwritten (Nat.le_sub_of_add_le hdeep) initialStore
  have hevaluate : evaluate host (999999999999999 + 1) (998 + 1)
      (.form none [.keyword .quote, form]) rootFrame initialStore =
        .ok value { initialStore with nextLabel := initialStore.nextLabel + count } :=
    (congrFun (evaluate_of_done rfl) _).trans hquote
  have hreachable := reachable_of_defining host .initial rfl
    (Datum.isSyntax_keyword_form .quote hwritten)
    (Datum.nesting_keyword_form .quote form ▸ hdeep) hevaluate
  have hroot : rootFrame < ({ initialStore with
      nextLabel := initialStore.nextLabel + count } : Store).frames.size := Nat.one_pos
  refine ⟨_, value, _, hreachable, fun name hname => ?_, ?_, hvalue, hquote⟩
  · rw [Store.bindings_define_self hroot, Bindings.get?_set_of_ne hname]
    rfl
  · rw [Store.bindings_define_self hroot, Bindings.get?_set_self]

/-- The store with a promise of the value of an expression under a name. -/
def promising (expression : Datum) : Store :=
  (initialStore.pushPromise (.pending expression rootFrame)).2.define rootFrame "x"
    (.promise initialStore.promises.size)

theorem reachable_promising (host : Host) (hwritten : expression.IsSyntax)
    (hdeep : expression.nesting + 2 ≤ depthLimit) : Reachable (promising expression) := by
  have hpromise : evaluate host (999999999999999 + 1) 999
      (.form none [.keyword .delay, expression]) rootFrame initialStore =
        .ok (.promise initialStore.promises.size)
          (initialStore.pushPromise (.pending expression rootFrame)).2 := rfl
  have hnesting := Datum.nesting_keyword_form .delay expression
  exact reachable_of_defining host .initial rfl (Datum.isSyntax_keyword_form .delay hwritten)
    (hnesting ▸ hdeep) hpromise

/-- Forcing the promise evaluates the expression with one level less. -/
theorem evaluate_force_promising
    (hevaluate : evaluate host (steps + 1) (limit + 1) expression rootFrame (promising expression) =
      .error interrupt after) :
    evaluate host (steps + 1) (limit + 2) (.form none [.symbol "force", .symbol "x"]) rootFrame
      (promising expression) = .error interrupt after := by
  have hforce : ((promising expression).bindings rootFrame).get? "force" =
      some (.builtin .force) := rfl
  have hvalue : ((promising expression).bindings rootFrame).get? "x" =
      some (.promise initialStore.promises.size) := rfl
  rw [evaluate_builtin rfl hforce (mapM_evaluate_symbol hvalue)]
  exact (bind_of_ok rfl).trans (bind_of_error hevaluate)

/-- A program gets to an expression with few levels left by forcing a promise of it inside of
negations. -/
theorem endsWith_iterate_negation_force
    (hends : Configuration.EndsWith host (limit + 1) ⟨expression, rootFrame, promising expression⟩
      (.error interrupt after)) (count : Nat) :
    Configuration.EndsWith host (limit + 2 + count)
      ⟨Datum.negation^[count] (.form none [.symbol "force", .symbol "x"]), rootFrame,
        promising expression⟩ (.error interrupt after) := by
  have hbound : (promising expression).lookup? Builtin.not.name rootFrame =
      some (.builtin .not) := by
    rw [Store.lookup?, Store.find?]
    rfl
  obtain ⟨hfinished, steps, hevaluate⟩ := hends
  cases steps with
  | zero =>
    cases hevaluate
    exact absurd rfl hfinished
  | succ steps =>
    exact Configuration.endsWith_iterate_negation hbound
      ⟨hfinished, steps + 1, evaluate_force_promising hevaluate⟩ count

end Interpreter

end SmallScheme
