import SmallScheme.Proofs.Evaluator.Operands
import SmallScheme.Proofs.Evaluator.Rejection
/-!
# Applying a procedure to a list of values

A procedure is applied to the elements of a list by evaluating an expression that is made of these
very values. Each of them is its own value, whatever it is, so this is the procedure's call with the
elements as they are: a built-in procedure is called, a closure's body is evaluated in a frame that
binds them, and what is neither is refused.
-/

namespace SmallScheme

open Machine

/-! ### Calls -/

/-- What becomes of the call of a value with other values, where the body of a closure is nested one
level less deep than the limit. -/
inductive Applies (host : Host) (limit : Nat) :
    Datum → List Datum → Store → Outcome Datum → Prop where
  | builtin {procedure : Builtin} {arguments : List Datum} {store : Store}
    {outcome : Outcome Datum}
    (hcall : Machine.EndsWith (fun steps =>
      callBuiltin (Interpreter.contextWithin host steps limit) procedure arguments) store outcome) :
    Applies host limit (.builtin procedure) arguments store outcome
  | fixed {label : Label} {name : Option String} {names : List String} {body arguments : List Datum}
    {captured : FrameId} {store : Store} {outcome : Outcome Datum}
    (hcount : names.length = arguments.length)
    (hbody : Configuration.EvaluatesBody host limit store.frames.size body
      (store.pushFrame ⟨.ofPairs (names.zip arguments), some captured⟩).2 outcome) :
    Applies host limit (.closure label name (.fixed names) body captured) arguments store outcome
  | rest {label : Label} {name : Option String} {formal : String} {body arguments : List Datum}
    {captured : FrameId} {store : Store} {outcome : Outcome Datum}
    (hbody : Configuration.EvaluatesBody host limit store.frames.size body
      ({ store with nextLabel := store.nextLabel + arguments.length }.pushFrame
        ⟨[(formal, .chain store.nextLabel arguments .empty)], some captured⟩).2 outcome) :
    Applies host limit (.closure label name (.rest formal) body captured) arguments store outcome
  | arity {label : Label} {name : Option String} {names : List String} {body arguments : List Datum}
    {captured : FrameId} {store : Store} (hcount : names.length ≠ arguments.length) :
    Applies host limit (.closure label name (.fixed names) body captured) arguments store
      (.error (.fault (.closureArity (.closure label name (.fixed names) body captured)
        names.length arguments.length)) store)
  | notCallable {callee : Datum} {arguments : List Datum} {store : Store}
    (hcallee : callee.isProcedure = false) (hshown : callee.printObstacle? limit = none) :
    Applies host limit callee arguments store (.error (.fault (.notCallable callee)) store)
  /-- What is nested too deep to be shown is not named either. -/
  | notShown {callee : Datum} {arguments : List Datum} {store : Store}
    (hcallee : callee.isProcedure = false) (hdeep : callee.printObstacle? limit = some .tooDeep) :
    Applies host limit callee arguments store (.error .tooDeep store)

namespace Machine

variable {host : Host} {limit : Nat} {frame : FrameId} {store other : Store} {callee value : Datum}
  {arguments : List Datum} {outcome : Outcome Datum}

/-! ### The application of values to each other -/

theorem enterClosure_fixed {names : List String} {captured : FrameId}
    (hcount : names.length = arguments.length) :
    enterClosure callee (.fixed names) captured arguments store =
      .ok store.frames.size
        (store.pushFrame ⟨.ofPairs (names.zip arguments), some captured⟩).2 := by
  rw [enterClosure, bindArguments, if_pos hcount]
  rfl

theorem enterClosure_of_length_ne {names : List String} {captured : FrameId}
    (hcount : names.length ≠ arguments.length) :
    enterClosure callee (.fixed names) captured arguments store =
      .error (.fault (.closureArity callee names.length arguments.length)) store := by
  rw [enterClosure, bindArguments, if_neg hcount]
  rfl

/-- The call of a closure, the new frame being made. -/
theorem endsWith_applyProcedure_iff_of_enterClosure {label : Label} {name : Option String}
    {formals : Formals} {body : List Datum} {captured inner : FrameId} {ready : Store}
    (henter : enterClosure (.closure label name formals body captured) formals captured arguments
      store = .ok inner ready) :
    EndsWith (fun steps => Reference.applyProcedure (Interpreter.contextWithin host steps limit)
        (evaluate host steps (limit + 1)) (.closure label name formals body captured) arguments)
        store outcome ↔
      Configuration.EvaluatesBody host limit inner body ready outcome :=
  (endsWith_bind_of_ok (steady_const _)
    (fun inner => steady_evaluate host (limit + 1) (.ofBody body) inner)
    ⟨trivial, 0, henter⟩).trans Configuration.endsWith_ofBody_iff

theorem endsWith_applyProcedure_iff_of_closure {label : Label} {name : Option String}
    {formals : Formals} {body : List Datum} {captured : FrameId} :
    EndsWith (fun steps => Reference.applyProcedure (Interpreter.contextWithin host steps limit)
        (evaluate host steps (limit + 1)) (.closure label name formals body captured) arguments)
        store outcome ↔
      Applies host limit (.closure label name formals body captured) arguments store outcome := by
  cases formals with
  | rest formal =>
    refine (endsWith_applyProcedure_iff_of_enterClosure rfl).trans ⟨.rest, ?_⟩
    rintro (_ | _ | hbody | _ | hcallee | hcallee)
    · exact hbody
    · cases hcallee
    · cases hcallee
  | fixed names =>
    by_cases hcount : names.length = arguments.length
    · refine (endsWith_applyProcedure_iff_of_enterClosure (enterClosure_fixed hcount)).trans
        ⟨.fixed hcount, ?_⟩
      rintro (_ | ⟨-, hbody⟩ | _ | hother | hcallee | hcallee)
      · exact hbody
      · exact absurd hcount hother
      · cases hcallee
      · cases hcallee
    · have henter : EndsWith (fun _ : Nat => enterClosure (.closure label name (.fixed names) body
          captured) (.fixed names) captured arguments) store (.error (.fault (.closureArity
            (.closure label name (.fixed names) body captured) names.length arguments.length))
            store) := ⟨Interrupt.noConfusion, 0, enterClosure_of_length_ne hcount⟩
      refine (endsWith_bind_iff (steady_const _)
        fun inner => steady_evaluate host (limit + 1) (.ofBody body) inner).trans ⟨?_, ?_⟩
      · rintro (⟨inner, between, hentered, -⟩ | ⟨interrupt, after, hfailed, rfl⟩)
        · cases hentered.unique (steady_const _) henter
        · cases hfailed.unique (steady_const _) henter
          exact .arity hcount
      · rintro (_ | ⟨hother, -⟩ | _ | _ | hcallee | hcallee)
        · exact absurd hother hcount
        · exact .inr ⟨_, _, henter, rfl⟩
        · cases hcallee
        · cases hcallee

theorem endsWith_failPrinting_iff (hvalue : callee.IsValue other)
    (hcallee : callee.isProcedure = false) :
    EndsWith (fun _ => failPrinting limit callee (.notCallable callee)) store outcome ↔
      Applies host limit callee arguments store outcome := by
  rcases printObstacle?_of_isValue hvalue limit with hshown | hdeep
  · rw [failPrinting_of_shown hshown]
    refine (endsWith_throw_iff Interrupt.noConfusion).trans ⟨?_, ?_⟩
    · rintro rfl
      exact .notCallable hcallee hshown
    · rintro (_ | _ | _ | _ | _ | ⟨-, hdeep⟩)
      · cases hcallee
      · cases hcallee
      · cases hcallee
      · cases hcallee
      · rfl
      · rw [hshown] at hdeep
        cases hdeep
  · rw [failPrinting_of_deep hdeep]
    refine (endsWith_throw_iff Interrupt.noConfusion).trans ⟨?_, ?_⟩
    · rintro rfl
      exact .notShown hcallee hdeep
    · rintro (_ | _ | _ | _ | ⟨-, hshown⟩ | _)
      · cases hcallee
      · cases hcallee
      · cases hcallee
      · cases hcallee
      · rw [hdeep] at hshown
        cases hshown
      · rfl

theorem endsWith_applyProcedure_iff (hvalue : callee.IsValue other) :
    EndsWith (fun steps => Reference.applyProcedure (Interpreter.contextWithin host steps limit)
        (evaluate host steps (limit + 1)) callee arguments) store outcome ↔
      Applies host limit callee arguments store outcome := by
  cases callee with
  | builtin procedure =>
    refine ⟨.builtin, ?_⟩
    rintro (hcall | _ | _ | _ | hcallee | hcallee)
    · exact hcall
    · cases hcallee
    · cases hcallee
  | closure label name formals body captured => exact endsWith_applyProcedure_iff_of_closure
  | _ => exact endsWith_failPrinting_iff hvalue rfl

theorem evaluate_of_isValue (hvalue : value.IsValue other) (store : Store) :
    evaluate host 1 (limit + 1) value frame store = .ok value store := by
  rw [evaluate, iterate, step_of_isValue hvalue]
  rfl

theorem givesEach_of_isValue (hvalues : ∀ argument ∈ arguments, argument.IsValue other)
    (store : Store) :
    Configuration.GivesEach host (limit + 1) frame arguments store arguments store := by
  induction arguments with
  | nil => exact .nil
  | cons argument rest ih =>
    rw [List.forall_mem_cons] at hvalues
    exact .cons ⟨trivial, 1, evaluate_of_isValue hvalues.1 store⟩ (ih hvalues.2)

/-- An application that is made of values is the call of the first of them with the others. -/
theorem endsWith_application_iff {label : Option Label} (hcallee : callee.IsValue other)
    (harguments : ∀ argument ∈ arguments, argument.IsValue other) :
    Configuration.EndsWith host (limit + 2) ⟨.form label (callee :: arguments), frame, store⟩
        outcome ↔
      Applies host (limit + 1) callee arguments store outcome :=
  (Configuration.endsWith_call_iff_of_givesEach hcallee.specialForm?_eq_none
    (givesEach_of_isValue (List.forall_mem_cons.2 ⟨hcallee, harguments⟩) store)).trans
    (endsWith_applyProcedure_iff hcallee)

/-! ### The application to a list -/

theorem endsWith_apply_iff_of_values {label : Option Label} {procedure list f l : Datum}
    {between after : Store}
    (hprocedure : Configuration.EndsWith host (limit + 2) ⟨procedure, frame, store⟩
      (.ok f between))
    (hlist : Configuration.EndsWith host (limit + 2) ⟨list, frame, between⟩ (.ok l after))
    (hf : f.IsValue other) (hl : l.IsValue other) :
    Configuration.EndsWith host (limit + 3)
        ⟨.form label [.keyword .apply, procedure, list], frame, store⟩ outcome ↔
      if l.isList then Applies host (limit + 1) f l.items after outcome
      else EndsWith (fun _ => failPrinting (limit + 2) l (.notArgumentList l)) after outcome := by
  refine (Configuration.endsWith_special_iff
    (fun context => evaluateApply context frame [procedure, list])
    fun _ => rfl).trans ?_
  have hcall : ∀ f l : Datum, Steady fun steps =>
      if l.isList then evaluate host steps (limit + 2) (.form none (f :: l.items)) frame
      else failPrinting (limit + 2) l (.notArgumentList l) := by
    intro f l
    cases l.isList with
    | true => exact steady_evaluate host (limit + 2) (.form none (f :: l.items)) frame
    | false => exact steady_const (failPrinting (limit + 2) l (.notArgumentList l))
  refine (endsWith_bind_of_ok (steady_evaluate host (limit + 2) procedure frame)
    (fun f => (steady_evaluate host (limit + 2) list frame).bind (hcall f)) hprocedure).trans ?_
  refine (endsWith_bind_of_ok (steady_evaluate host (limit + 2) list frame) (hcall f)
    hlist).trans ?_
  cases l.isList with
  | true => exact endsWith_application_iff hf fun item hmem => hl.of_mem_items hmem
  | false => exact Iff.rfl

/-- A closure whose one parameter takes all arguments, and whose body is that parameter, makes a
list of its arguments. -/
theorem applies_of_rest (host : Host) (limit : Nat) (label : Label) (name : Option String)
    (formal : String) (captured : FrameId) (arguments : List Datum) (store : Store) :
    Applies host (limit + 1) (.closure label name (.rest formal) [.symbol formal] captured)
      arguments store (.ok (.chain store.nextLabel arguments .empty)
        ({ store with nextLabel := store.nextLabel + arguments.length }.pushFrame
          ⟨[(formal, .chain store.nextLabel arguments .empty)], some captured⟩).2) := by
  refine .rest (.last ⟨trivial, 1, Interpreter.evaluate_symbol ?_⟩)
  dsimp only
  rw [Store.bindings, Store.pushFrame, Array.getElem?_push_size]
  exact if_pos rfl

theorem endsWith_lambda {label : Option Label} (formal : String) (body : List Datum) :
    Configuration.EndsWith host (limit + 1)
      ⟨.form label (.keyword .lambda :: .symbol formal :: body), frame, store⟩
      (.ok (.closure store.nextLabel none (.rest formal) body frame)
        { store with nextLabel := store.nextLabel + 1 }) := by
  have hlambda : evaluate host 1 (limit + 1)
      (.form label (.keyword .lambda :: .symbol formal :: body)) frame =
      makeClosure (Interpreter.contextWithin host 1 limit) frame none (.symbol formal :: body) :=
    evaluate_of_done rfl
  exact ⟨trivial, 1, congrFun hlambda store⟩

end Machine

namespace Interpreter

/-- In a reachable store, and in every sound one that an evaluation inside another may start from,
let the two operands of an application to a list have values, one after the other. If the second
value is no list, it is refused and nothing is called; only where it is nested too deep to be shown
is that reported instead. If it is a list, the application ends exactly as the call of the first
value with the list's elements as they are. So a procedure that makes a list of its arguments gives
a list of the very same elements. -/
theorem endsWith_apply_iff :
    (∀ {store : Store}, Reachable store → store.Sound) ∧
      ∀ {store : Store}, store.Sound →
        ∀ (host : Host) (limit : Nat) (label : Option Label) {procedure list f l : Datum}
          {frame : FrameId} {between after : Store}, procedure.IsExpression store →
          list.IsExpression store → frame < store.frames.size →
          Configuration.EndsWith host (limit + 2) ⟨procedure, frame, store⟩ (.ok f between) →
          Configuration.EndsWith host (limit + 2) ⟨list, frame, between⟩ (.ok l after) →
            let application : Configuration :=
              ⟨.form label [.keyword .apply, procedure, list], frame, store⟩
            (l.ending ≠ .empty →
              (l.nesting < limit + 2 →
                application.EndsWith host (limit + 3)
                  (.error (.fault (.notArgumentList l)) after)) ∧
              (application.EndsWith host (limit + 3) (.error (.fault (.notArgumentList l)) after) ∨
                application.EndsWith host (limit + 3) (.error .tooDeep after))) ∧
            (l.ending = .empty →
              (∀ outcome, application.EndsWith host (limit + 3) outcome ↔
                Applies host (limit + 1) f l.items after outcome) ∧
              ((f = .builtin .list ∨ ∃ label formal,
                  procedure = .form label [.keyword .lambda, .symbol formal, .symbol formal]) →
                ∃ copy final, application.EndsWith host (limit + 3) (.ok copy final) ∧
                  copy.ending = .empty ∧ copy.items = l.items)) := by
  refine ⟨sound_of_reachable, ?_⟩
  intro store hsound host limit label procedure list f l frame between after hprocedure hlist hframe
    hf hl application
  obtain ⟨procedureSteps, hevaluated⟩ := hf.2
  obtain ⟨listSteps, hlisted⟩ := hl.2
  obtain ⟨hextends, hbetween, hfValue⟩ :=
    (givesValue_evaluate host procedureSteps (limit + 2) hsound hframe hprocedure).ok hevaluated
  obtain ⟨hextends', -, hlValue⟩ := (givesValue_evaluate host listSteps (limit + 2) hbetween
    (hextends.frame_lt hframe) (hlist.mono hextends)).ok hlisted
  have happly := fun outcome => @endsWith_apply_iff_of_values host limit frame store after outcome
    label procedure list f l between after hf hl (hfValue.mono hextends') hlValue
  refine ⟨fun hending => ?_, fun hending => ?_⟩
  · have himproper : ¬ l.isList := fun hlist => hending (Datum.isList_iff_ending.1 hlist)
    have hrefuse : ∀ outcome, application.EndsWith host (limit + 3) outcome ↔
        Machine.EndsWith (fun _ => failPrinting (limit + 2) l (.notArgumentList l)) after
          outcome := fun outcome => by rw [happly outcome, if_neg himproper]
    have hshown : l.printObstacle? (limit + 2) = none →
        application.EndsWith host (limit + 3) (.error (.fault (.notArgumentList l)) after) := by
      intro hshown
      rw [hrefuse, failPrinting_of_shown hshown, endsWith_throw_iff Interrupt.noConfusion]
    refine ⟨fun hnesting => hshown (hlValue.printObstacle?_eq_none.1 _ hnesting), ?_⟩
    rcases printObstacle?_of_isValue hlValue (limit + 2) with hnone | hdeep
    · exact .inl (hshown hnone)
    · right
      rw [hrefuse, failPrinting_of_deep hdeep, endsWith_throw_iff Interrupt.noConfusion]
  · have hcall : ∀ outcome, application.EndsWith host (limit + 3) outcome ↔
        Applies host (limit + 1) f l.items after outcome := fun outcome => by
      rw [happly outcome, if_pos (Datum.isList_iff_ending.2 hending)]
    have hchain : ∀ label, (Datum.chain label l.items .empty).ending = .empty ∧
        (Datum.chain label l.items .empty).items = l.items := by
      intro label
      refine ⟨Datum.isList_iff_ending.1 (Datum.isList_chain ..), ?_⟩
      rw [Datum.items_chain, Datum.items_empty, List.append_nil]
    refine ⟨hcall, ?_⟩
    rintro (rfl | ⟨lambdaLabel, formal, rfl⟩)
    · exact ⟨_, _, (hcall _).2 (.builtin ⟨trivial, 0, rfl⟩), hchain after.nextLabel⟩
    · cases Machine.EndsWith.unique (steady_evaluate host (limit + 2) _ frame) hf
        (endsWith_lambda formal [.symbol formal])
      exact ⟨_, _, (hcall _).2 (applies_of_rest ..), hchain after.nextLabel⟩

/-- The procedure that gives its arguments, applied to a list of a quoted keyword and an unspecified
value, gives a list of these two; and no built-in procedure is applied to a string. -/
theorem endsWith_apply_of_lambda :
    let host : Host := { settings := .ofVariables ⟨none, none, none⟩, files := .catalogue [] }
    let procedure : Datum := .form none [.keyword .lambda, .symbol "x", .symbol "x"]
    let list : Datum := .form none [.builtin .list, .quoted "if", .unspecified]
    (∃ copy final, Configuration.EndsWith host 3
      ⟨.form none [.keyword .apply, procedure, list], rootFrame, initialStore⟩ (.ok copy final) ∧
        copy.ending = .empty ∧ copy.items = [.quoted "if", .unspecified]) ∧
    Configuration.EndsWith host 3
      ⟨.form none [.keyword .apply, .builtin .car, .str "a"], rootFrame, initialStore⟩
      (.error (.fault (.notArgumentList (.str "a"))) initialStore) := by
  intro host procedure list
  have hsound : initialStore.Sound := endsWith_apply_iff.1 .initial
  have hname : (Datum.symbol "x").IsSyntax := Datum.isSyntax_symbol (by decide) (by decide) rfl
  have hprocedure : procedure.IsExpression initialStore := by
    refine .source (.form ?_)
    simp only [List.forall_mem_cons]
    exact ⟨.symbol (isIdentifier_keyword .lambda), hname, hname,
      fun _ hmem => absurd hmem List.not_mem_nil⟩
  have hlist : list.IsExpression initialStore := by
    refine .application ?_
    simp only [List.forall_mem_cons]
    exact ⟨.builtin .list, .quoted (isIdentifier_keyword .branch), .unspecified,
      fun _ hmem => absurd hmem List.not_mem_nil⟩
  constructor
  · exact ((endsWith_apply_iff.2 hsound host 0 none hprocedure hlist hsound.root
      ⟨trivial, 1, rfl⟩ ⟨trivial, 1, rfl⟩).2 rfl).2 (.inr ⟨none, "x", rfl⟩)
  · exact ((endsWith_apply_iff.2 hsound host 0 none (.value (.builtin .car)) (.value (.str "a"))
      hsound.root ⟨trivial, 1, rfl⟩ ⟨trivial, 1, rfl⟩).1 Datum.noConfusion).1 (by decide)

end Interpreter

end SmallScheme
