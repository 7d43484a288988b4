import SmallScheme.Proofs.Evaluator.Reflection
import SmallScheme.Proofs.Evaluator.Sequence
import SmallScheme.Proofs.Scoping.Bindings
/-!
# Small programs

A name has the value that is bound to it, a built-in procedure is called with the values of its
operands, and a definition binds its name. An interpreter that runs the text of such a form gets to
the store that the form leads to, so what a program of them can compute is found step by step.
-/

namespace SmallScheme

open Machine

namespace Interpreter

variable {host : Host} {steps limit : Nat} {store after : Store} {value expression : Datum}
  {name : String}

theorem evaluate_symbol_eq (host : Host) (steps limit : Nat) (name : String) (frame : FrameId) :
    evaluate host (steps + 1) (limit + 1) (.symbol name) frame = lookup frame name := by
  rw [evaluate, iterate_succ]
  exact Step.done_bind_finish _ _

theorem evaluate_symbol {frame : FrameId}
    (hbound : (store.bindings frame).get? name = some value) :
    evaluate host (steps + 1) (limit + 1) (.symbol name) frame store = .ok value store := by
  have hfind : store.find? name frame = some frame := by rw [Store.find?, hbound]
  have hlookup : store.lookup? name frame = some value := by
    rw [Store.lookup?, hfind]
    exact hbound
  rw [evaluate_symbol_eq, lookup_eq, hlookup]

/-- The operands of an application to the value of a name. -/
theorem mapM_evaluate_symbol (hvalue : (store.bindings rootFrame).get? name = some value) :
    [Datum.symbol name].mapM (fun operand =>
      evaluate host (steps + 1) (limit + 1) operand rootFrame) store = .ok [value] store := by
  rw [List.mapM_cons]
  exact (bind_of_ok (evaluate_symbol hvalue)).trans rfl

/-- The application of a built-in procedure to operands that change nothing. -/
theorem evaluate_builtin {procedure : Builtin} {operands arguments : List Datum}
    (hname : SpecialForm.ofName? name = none)
    (hbound : (store.bindings rootFrame).get? name = some (.builtin procedure))
    (hoperands : operands.mapM (fun operand =>
      evaluate host (steps + 1) (limit + 1) operand rootFrame) store = .ok arguments store) :
    evaluate host (steps + 1) (limit + 2) (.form none (.symbol name :: operands)) rootFrame store =
      callBuiltin { host, limit := limit + 1, evaluate := evaluate host (steps + 1) (limit + 1) }
        procedure arguments store := by
  have hstep : step { host, limit := limit + 1, evaluate := evaluate host (steps + 1) (limit + 1) }
      (.form none (.symbol name :: operands)) rootFrame store =
      (Step.done <$> callBuiltin
        { host, limit := limit + 1, evaluate := evaluate host (steps + 1) (limit + 1) }
        procedure arguments) store := by
    rw [step_form]
    simp only [Datum.specialForm?, hname]
    refine (bind_of_ok (evaluate_symbol hbound)).trans ((bind_of_ok hoperands).trans ?_)
    rw [map_eq_pure_bind]
    rfl
  rw [evaluate, iterate_succ, bind_congr_of_eq hstep, Step.done_map_finish]

/-- The application of a built-in procedure to the value of a name, twice. -/
theorem evaluate_builtin_twice {procedure : Builtin} {operator : String}
    (hname : SpecialForm.ofName? operator = none)
    (hbound : (store.bindings rootFrame).get? operator = some (.builtin procedure))
    (hvalue : (store.bindings rootFrame).get? name = some value) :
    evaluate host (steps + 1) (limit + 2)
        (.form none [.symbol operator, .symbol name, .symbol name]) rootFrame store =
      callBuiltin { host, limit := limit + 1, evaluate := evaluate host (steps + 1) (limit + 1) }
        procedure [value, value] store := by
  refine evaluate_builtin hname hbound ?_
  rw [List.mapM_cons]
  exact (bind_of_ok (evaluate_symbol hvalue)).trans
    ((bind_of_ok (mapM_evaluate_symbol hvalue)).trans rfl)

/-- A value that is too deep to be compared with itself. -/
theorem evaluate_isAlike_self
    (hbound : (store.bindings rootFrame).get? Builtin.isAlike.name = some (.builtin .isAlike))
    (hvalue : (store.bindings rootFrame).get? name = some value)
    (hdeep : value.isAlike? (limit + 1) value = none) :
    evaluate host (steps + 1) (limit + 2)
        (.form none [.symbol Builtin.isAlike.name, .symbol name, .symbol name]) rootFrame store =
      .error .tooDeep store := by
  have hcall : ∀ context : Context, callBuiltin context .isAlike [value, value] =
      answer (value.isAlike? context.limit value) := fun _ => rfl
  rw [evaluate_builtin_twice rfl hbound hvalue, hcall, hdeep]
  rfl

def defining (expression : Datum) : Datum :=
  .form none [.keyword .define, .symbol "x", expression]

theorem evaluate_defining (hshape : expression.operandsOf? .lambda = none)
    (hevaluate : evaluate host (steps + 1) limit expression rootFrame store = .ok value after) :
    evaluate host (steps + 1) (limit + 1) (defining expression) rootFrame store =
      .ok .unspecified (after.define rootFrame "x" value) := by
  have hdefine : evaluate host (steps + 1) (limit + 1) (defining expression) rootFrame =
      defineAs rootFrame "x" (evaluateNamed
        { host, limit, evaluate := evaluate host (steps + 1) limit } rootFrame "x" expression) :=
    evaluate_of_done rfl
  rw [hdefine, evaluateNamed, hshape]
  exact bind_of_ok hevaluate

/-- An interpreter gets to the store that a form leads to by running the text of it. -/
theorem reachable_of_form {form : Datum} (host : Host) (hstore : Reachable store)
    (hwritten : form.IsSyntax) (hnesting : form.nesting ≤ depthLimit)
    (hform : evaluate host stepBudget depthLimit form rootFrame store = .ok value after) :
    Reachable after := by
  obtain ⟨text, hreads⟩ := exists_readsAs_of_isSyntax hwritten depthLimit
  have hread := readSource_of_readsAs hreads hnesting
  have hserve : (Request.run (String.ofList text)).serve
      (contextWithin host stepBudget depthLimit) store = .ok value after := by
    rw [serve_run_of_readSource hread]
    exact bind_of_ok (attempt_of_ok hform)
  exact .value hstore host stepBudget depthLimit _ hserve

/-- An interpreter can define a name as the value of an expression. -/
theorem reachable_of_defining (host : Host) (hstore : Reachable store)
    (hshape : expression.operandsOf? .lambda = none) (hwritten : expression.IsSyntax)
    (hnesting : expression.nesting < depthLimit)
    (hevaluate : evaluate host stepBudget (depthLimit - 1) expression rootFrame store =
      .ok value after) : Reachable (after.define rootFrame "x" value) := by
  have hdefine : evaluate host (999999999999999 + 1) (999 + 1) (defining expression) rootFrame
      store = .ok .unspecified (after.define rootFrame "x" value) :=
    evaluate_defining hshape hevaluate
  refine reachable_of_form host hstore (.form ?_) ?_ hdefine
  · rw [List.forall_mem_cons, List.forall_mem_cons, List.forall_mem_singleton]
    exact ⟨.symbol (isIdentifier_keyword .define),
      Datum.isSyntax_symbol (by decide) (by decide) rfl, hwritten⟩
  · have hdefining : (defining expression).nesting = expression.nesting + 1 := by
      simp [defining, Datum.keyword, Datum.nesting, Datum.nestingOfAll]
    exact hdefining ▸ hnesting

theorem reachable_of_application {procedure : Builtin} {operands arguments : List Datum}
    (host : Host) (hstore : Reachable store)
    (hname : SpecialForm.ofName? name = none) (hkeyword : name ≠ SpecialForm.lambda.name)
    (hwritten : (Datum.form none (.symbol name :: operands)).IsSyntax)
    (hnesting : (Datum.form none (.symbol name :: operands)).nesting < depthLimit)
    (hbound : (store.bindings rootFrame).get? name = some (.builtin procedure))
    (hoperands : operands.mapM (fun operand => evaluate host stepBudget 998 operand rootFrame)
      store = .ok arguments store)
    (hcall : ∀ context, callBuiltin context procedure arguments store = .ok value after) :
    Reachable (after.define rootFrame "x" value) := by
  have happlication : evaluate host (999999999999999 + 1) (997 + 2)
      (.form none (.symbol name :: operands)) rootFrame store = .ok value after :=
    (evaluate_builtin hname hbound hoperands).trans (hcall _)
  have hshape : (Datum.form none (.symbol name :: operands)).operandsOf? .lambda = none :=
    if_neg hkeyword
  exact reachable_of_defining host hstore hshape hwritten hnesting happlication

end Interpreter

end SmallScheme
