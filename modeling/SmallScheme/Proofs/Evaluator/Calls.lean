import SmallScheme.Proofs.Evaluator.Application
import SmallScheme.Proofs.Scoping.Bindings
/-!
# The order of a call

The operator of an application is evaluated first, then the operands from left to right, each in the
store that the one before leaves. The first of them to be interrupted ends the application. Only
when all have values is the callee examined, so what is refused then leaves the store as the last
operand did; and the body of a closure is evaluated in a frame that is made at that moment and binds
the parameters.
-/

namespace SmallScheme

open Machine

/-! ### Arguments -/

def Arity.Admits : Arity → Nat → Prop
  | .exactly count, given => given = count
  | .atLeast count, given => count ≤ given

/-- What a call binds: each parameter to its argument, the last one where a parameter is repeated,
or the only parameter to the list of all arguments. -/
inductive Formals.Binds (arguments : List Datum) : Formals → Bindings → Prop where
  | fixed {names : List String} {bindings : Bindings} (hcount : names.length = arguments.length)
    (hnames : ∀ name, name ∈ bindings.map Prod.fst ↔ name ∈ names)
    (honce : (bindings.map Prod.fst).Nodup)
    (hlast : ∀ name, bindings.get? name = (names.zip arguments).reverse.lookup name) :
    Binds arguments (.fixed names) bindings
  | rest {name : String} {list : Datum} (hproper : list.ending = .empty)
    (hitems : list.items = arguments) : Binds arguments (.rest name) [(name, list)]

theorem Formals.binds_ofPairs {names : List String} {arguments : List Datum}
    (hcount : names.length = arguments.length) :
    Binds arguments (.fixed names) (.ofPairs (names.zip arguments)) := by
  refine .fixed hcount (fun name => ?_) (Bindings.nodup_names_setAll List.nodup_nil) fun name => ?_
  · rw [Bindings.ofPairs_eq_setAll, Bindings.mem_names_setAll_iff,
      List.map_fst_zip (Nat.le_of_eq hcount)]
    exact or_iff_left List.not_mem_nil
  · rw [Bindings.ofPairs_eq_setAll, Bindings.get?_setAll]
    exact Option.or_none

theorem Formals.binds_chain (name : String) (label : Label) (arguments : List Datum) :
    Binds arguments (.rest name) [(name, .chain label arguments .empty)] :=
  .rest (Datum.ending_chain ..) (Datum.items_chain_empty label arguments)

namespace Machine

variable {context : Context} {procedure : Builtin} {arguments : List Datum}

/-- The number of arguments is looked at before anything else. -/
theorem callBuiltin_of_not_admits (hcount : ¬ procedure.rule.arity.Admits arguments.length) :
    callBuiltin context procedure arguments =
      fail (.builtinArity procedure procedure.rule.arity arguments.length) := by
  unfold callBuiltin
  split
  case h_8 => rfl
  all_goals
    next hrule =>
      rw [hrule] at hcount
      exact absurd (by simp [Builtin.Rule.arity, Arity.Admits]) hcount

/-- What cannot be called is refused in the store as it is, by name if that can be written. -/
theorem exists_failPrinting (limit : Nat) (datum : Datum) (fault : Fault) (store : Store) :
    ∃ interrupt, (failPrinting limit datum fault : Machine Datum) store = .error interrupt store ∧
      interrupt ≠ .outOfSteps ∧ (datum.printObstacle? limit = none → interrupt = .fault fault) ∧
      ∀ {other : Store}, datum.IsValue other → interrupt = .fault fault ∨ interrupt = .tooDeep := by
  rw [failPrinting_eq]
  refine ⟨printing limit datum fault, rfl, ?_, fun hshown => ?_, fun hvalue => ?_⟩
  · rw [printing]
    split <;> exact Interrupt.noConfusion
  · rw [printing, hshown]
  · rcases printObstacle?_of_isValue hvalue limit with hshown | hdeep
    · exact .inl (by rw [printing, hshown])
    · exact .inr (by rw [printing, hdeep])

end Machine

namespace Configuration

/-- In an application of something that is no special form, the operator is evaluated and then the
operands from left to right, each in the store that the one before leaves. The first that is
interrupted ends the application, and those behind it do not matter. If all have values, the callee
is examined in the store that the last one leaves: what is no procedure, or takes another number of
arguments, is refused there and nothing has changed since. The body of a closure is evaluated in a
new frame inside the captured one, which binds the parameters to their arguments and no other name;
nothing else but labels is new then. -/
theorem endsWith_application_inOrder (host : Host) (limit : Nat) (label : Option Label)
    {operator : Datum} (hoperator : operator.specialForm? = none) (operands : List Datum)
    (frame : FrameId) (store : Store) :
    let application : Configuration := ⟨.form label (operator :: operands), frame, store⟩
    (∀ {interrupt : Interrupt} {after : Store},
      InterruptsEach host limit frame (operator :: operands) store interrupt after →
        application.EndsWith host (limit + 1) (.error interrupt after)) ∧
    (∀ {outcome : Outcome Datum}, application.EndsWith host (limit + 1) outcome →
      (∃ interrupt after,
        InterruptsEach host limit frame (operator :: operands) store interrupt after ∧
          outcome = .error interrupt after) ∨
      ∃ callee arguments ready,
        GivesEach host limit frame (operator :: operands) store (callee :: arguments) ready) ∧
    ∀ {callee : Datum} {arguments : List Datum} {ready : Store},
      GivesEach host limit frame (operator :: operands) store (callee :: arguments) ready →
        (callee.isProcedure = false →
          ∃ interrupt, application.EndsWith host (limit + 1) (.error interrupt ready) ∧
            (callee.printObstacle? limit = none → interrupt = .fault (.notCallable callee)) ∧
            ∀ {other : Store}, callee.IsValue other →
              interrupt = .fault (.notCallable callee) ∨ interrupt = .tooDeep) ∧
        (∀ procedure : Builtin, callee = .builtin procedure →
          (¬ procedure.rule.arity.Admits arguments.length →
            application.EndsWith host (limit + 1) (.error (.fault (.builtinArity procedure
              procedure.rule.arity arguments.length)) ready)) ∧
          ∀ outcome, application.EndsWith host (limit + 1) outcome ↔
            Machine.EndsWith (fun steps => callBuiltin (Interpreter.contextWithin host steps limit)
              procedure arguments) ready outcome) ∧
        ∀ closureLabel name formals body captured,
          callee = .closure closureLabel name formals body captured →
            (∀ names, formals = .fixed names → names.length ≠ arguments.length →
              application.EndsWith host (limit + 1) (.error (.fault (.closureArity callee
                names.length arguments.length)) ready)) ∧
            ((∀ names, formals = .fixed names → names.length = arguments.length) →
              ∃ bindings labels, formals.Binds arguments bindings ∧ ready.nextLabel ≤ labels ∧
                ∀ outcome, application.EndsWith host (limit + 1) outcome ↔
                  EvaluatesBody host limit ready.frames.size body
                    { ready with
                      frames := ready.frames.push { bindings, outer := some captured }
                      nextLabel := labels } outcome) := by
  intro application
  refine ⟨fun hinterrupts => (endsWith_call_iff hoperator).2 (.inl ⟨_, _, hinterrupts, rfl⟩),
    fun hends => ?_, fun {callee arguments ready} hgives => ?_⟩
  · rcases (endsWith_call_iff hoperator).1 hends with hinterrupted | ⟨_, _, _, hgives, -⟩
    · exact .inl hinterrupted
    · exact .inr ⟨_, _, _, hgives⟩
  have hcall : ∀ outcome, application.EndsWith host (limit + 1) outcome ↔ _ := fun outcome =>
    endsWith_call_iff_of_givesEach hoperator hgives
  refine ⟨fun hcallee => ?_, ?_, ?_⟩
  · obtain ⟨interrupt, hfail, hfinished, hnamed⟩ :=
      exists_failPrinting limit callee (.notCallable callee) ready
    refine ⟨interrupt, (hcall _).2 ⟨hfinished, 0, ?_⟩, hnamed⟩
    cases callee with
    | builtin procedure => cases hcallee
    | closure label name formals body captured => cases hcallee
    | _ => exact hfail
  · rintro procedure rfl
    refine ⟨fun hcount => (hcall _).2 ⟨Interrupt.noConfusion, 0, ?_⟩, hcall⟩
    exact congrFun (callBuiltin_of_not_admits hcount) ready
  · rintro closureLabel name formals body captured rfl
    constructor
    · rintro names rfl hcount
      exact (hcall _).2 (endsWith_applyProcedure_iff_of_closure.2 (.arity hcount))
    · intro hcount
      cases formals with
      | fixed names =>
        exact ⟨_, ready.nextLabel, Formals.binds_ofPairs (hcount names rfl), Nat.le_refl _,
          fun outcome => (hcall outcome).trans
            (endsWith_applyProcedure_iff_of_enterClosure (enterClosure_fixed (hcount names rfl)))⟩
      | rest formal =>
        exact ⟨_, ready.nextLabel + arguments.length,
          Formals.binds_chain formal ready.nextLabel arguments, Nat.le_add_right ..,
          fun outcome => (hcall outcome).trans (endsWith_applyProcedure_iff_of_enterClosure rfl)⟩

/-- Of two arguments for a parameter that is repeated the body sees the second one; and a string
that is called is refused when the definition among its operands has been made. -/
theorem application_inOrder_of_repeated_parameter :
    let host : Host := { settings := .ofVariables ⟨none, none, none⟩, files := .catalogue [] }
    let store : Store := Interpreter.initialStore
    let repeating : Datum := .closure 0 none (.fixed ["x", "x"]) [.symbol "x"] 0
    let definition : Datum := .form none [.keyword .define, .symbol "y", .str "b"]
    repeating.specialForm? = none ∧ (Datum.str "a").specialForm? = none ∧
      (∃ after, EndsWith host 2 ⟨.form none [repeating, .str "a", .str "b"], 0, store⟩
        (.ok (.str "b") after)) ∧
      EndsWith host 3 ⟨.form none [.str "a", definition], 0, store⟩
        (.error (.fault (.notCallable (.str "a"))) (store.define 0 "y" (.str "b"))) := by
  intro host store repeating definition
  refine ⟨rfl, rfl, ?_, ?_⟩
  · have hgives : GivesEach host 1 0 [repeating, .str "a", .str "b"] store
        [repeating, .str "a", .str "b"] store :=
      .cons ⟨trivial, 1, rfl⟩ (.cons ⟨trivial, 1, rfl⟩ (.cons ⟨trivial, 1, rfl⟩ .nil))
    obtain ⟨-, hclosure⟩ := ((endsWith_application_inOrder host 1 none rfl [.str "a", .str "b"] 0
      store).2.2 hgives).2.2 _ _ _ _ _ rfl
    obtain ⟨bindings, labels, hbinds, -, hends⟩ := hclosure (by rintro _ ⟨⟩; rfl)
    cases hbinds with
    | fixed _ _ _ hlast =>
      refine ⟨_, (hends _).2 (.last ⟨trivial, 1, Interpreter.evaluate_symbol ?_⟩)⟩
      rw [Store.bindings, Array.getElem?_push_size]
      exact hlast "x"
  · have hgives : GivesEach host 2 0 [.str "a", definition] store [.str "a", .unspecified]
        (store.define 0 "y" (.str "b")) :=
      .cons ⟨trivial, 1, rfl⟩ (.cons ⟨trivial, 1, rfl⟩ .nil)
    obtain ⟨interrupt, hends, hnamed, -⟩ :=
      ((endsWith_application_inOrder host 2 none rfl [definition] 0 store).2.2 hgives).1 rfl
    exact hnamed rfl ▸ hends

end Configuration

end SmallScheme
