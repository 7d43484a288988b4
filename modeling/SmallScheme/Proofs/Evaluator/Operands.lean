import SmallScheme.Proofs.Evaluator.Endings
/-!
# The operator and the operands of an application

The operator of an application and its operands are expressions that are evaluated one after the
other, each in the store that the one before leaves. Either they all have values, and the
application ends as the call that is made of these, or one of them is interrupted and the
application with it.
-/

namespace SmallScheme

open Machine

namespace Machine

theorem steady_callBuiltin (host : Host) (limit : Nat) (procedure : Builtin)
    (arguments : List Datum) :
    Steady fun steps =>
      callBuiltin (Interpreter.contextWithin host steps limit) procedure arguments := by
  refine steady_of_simulates Datum.relabel_zero fun steps more hle => ?_
  have hcall := simulates_callBuiltin (isSimulated_contextWithin host limit hle) procedure arguments
  rwa [List.map_congr_left fun argument _ => argument.relabel_zero, List.map_id'] at hcall

theorem steady_applyProcedure (host : Host) (limit : Nat) (callee : Datum)
    (arguments : List Datum) :
    Steady fun steps => Reference.applyProcedure (Interpreter.contextWithin host steps limit)
      (evaluate host steps (limit + 1)) callee arguments := by
  cases callee with
  | builtin procedure => exact steady_callBuiltin host limit procedure arguments
  | closure label name formals body captured =>
    exact (steady_const _).bind fun inner => steady_evaluate host (limit + 1) _ inner
  | _ => exact steady_const (failPrinting limit _ (.notCallable _))

theorem steady_mapM_evaluate (host : Host) (limit : Nat) (expressions : List Datum)
    (frame : FrameId) :
    Steady fun steps =>
      expressions.mapM fun expression => evaluate host steps limit expression frame := by
  induction expressions with
  | nil => exact steady_const _
  | cons expression rest ih =>
    simp only [List.mapM_cons]
    exact (steady_evaluate host limit expression frame).bind fun value =>
      ih.bind fun values => steady_const _

end Machine

namespace Configuration

variable {host : Host} {limit : Nat} {frame : FrameId}

/-- The expressions are evaluated one after the other, up to the first that is interrupted. -/
inductive InterruptsEach (host : Host) (limit : Nat) (frame : FrameId) :
    List Datum → Store → Interrupt → Store → Prop where
  | first {expression : Datum} {rest : List Datum} {store after : Store} {interrupt : Interrupt}
    (hfirst : EndsWith host limit ⟨expression, frame, store⟩ (.error interrupt after)) :
    InterruptsEach host limit frame (expression :: rest) store interrupt after
  | later {expression value : Datum} {rest : List Datum} {store between after : Store}
    {interrupt : Interrupt}
    (hfirst : EndsWith host limit ⟨expression, frame, store⟩ (.ok value between))
    (hrest : InterruptsEach host limit frame rest between interrupt after) :
    InterruptsEach host limit frame (expression :: rest) store interrupt after

variable {expressions operands arguments : List Datum} {operator callee : Datum}
  {store ready : Store} {outcome : Outcome Datum}

theorem endsWith_mapM_iff {outcome : Outcome (List Datum)} :
    Machine.EndsWith (fun steps =>
        expressions.mapM fun expression => evaluate host steps limit expression frame) store
        outcome ↔
      (∃ values after, GivesEach host limit frame expressions store values after ∧
        outcome = .ok values after) ∨
      ∃ interrupt after, InterruptsEach host limit frame expressions store interrupt after ∧
        outcome = .error interrupt after := by
  induction expressions generalizing store outcome with
  | nil =>
    refine endsWith_pure_iff.trans ⟨?_, ?_⟩
    · rintro rfl
      exact .inl ⟨[], store, .nil, rfl⟩
    · rintro (⟨_, _, ⟨⟩, rfl⟩ | ⟨_, _, ⟨⟩, -⟩)
      rfl
  | cons expression rest ih =>
    have hrest : Steady fun steps =>
        rest.mapM fun expression => evaluate host steps limit expression frame :=
      steady_mapM_evaluate host limit rest frame
    simp only [List.mapM_cons]
    rw [endsWith_bind_iff (steady_evaluate host limit expression frame)
      fun value => hrest.bind fun values => steady_const (pure (value :: values))]
    simp only [endsWith_map_iff hrest, ih]
    constructor
    · rintro (⟨value, between, hfirst, ⟨_, _, ⟨values, after, hgives, ⟨⟩⟩ | ⟨_, _, -, ⟨⟩⟩, rfl⟩ |
        ⟨_, _, ⟨_, _, -, ⟨⟩⟩ | ⟨interrupt, after, hinterrupts, ⟨⟩⟩, rfl⟩⟩ |
        ⟨interrupt, after, hfirst, rfl⟩)
      · exact .inl ⟨_, _, .cons hfirst hgives, rfl⟩
      · exact .inr ⟨_, _, .later hfirst hinterrupts, rfl⟩
      · exact .inr ⟨_, _, .first hfirst, rfl⟩
    · rintro (⟨_, _, _ | ⟨hfirst, hgives⟩, rfl⟩ | ⟨_, _, hfirst | ⟨hfirst, hinterrupts⟩, rfl⟩)
      · exact .inl ⟨_, _, hfirst, .inl ⟨_, _, .inl ⟨_, _, hgives, rfl⟩, rfl⟩⟩
      · exact .inr ⟨_, _, hfirst, rfl⟩
      · exact .inl ⟨_, _, hfirst, .inr ⟨_, _, .inr ⟨_, _, hinterrupts, rfl⟩, rfl⟩⟩

theorem endsWith_call_iff {label : Option Label} (hoperator : operator.specialForm? = none) :
    EndsWith host (limit + 1) ⟨.form label (operator :: operands), frame, store⟩ outcome ↔
      (∃ interrupt after,
        InterruptsEach host limit frame (operator :: operands) store interrupt after ∧
          outcome = .error interrupt after) ∨
      ∃ callee arguments ready,
        GivesEach host limit frame (operator :: operands) store (callee :: arguments) ready ∧
          Machine.EndsWith (fun steps =>
            Reference.applyProcedure (Interpreter.contextWithin host steps limit)
              (evaluate host steps (limit + 1)) callee arguments) ready outcome := by
  refine endsWith_evaluate_iff.trans ?_
  simp only [step_form, hoperator, ← Reference.evaluateApplication_eq]
  have hoperands : Steady fun steps =>
      operands.mapM fun operand => evaluate host steps limit operand frame :=
    steady_mapM_evaluate host limit operands frame
  have happly : ∀ callee arguments, Steady fun steps =>
      Reference.applyProcedure (Interpreter.contextWithin host steps limit)
        (evaluate host steps (limit + 1)) callee arguments :=
    steady_applyProcedure host limit
  refine (endsWith_bind_iff (steady_evaluate host limit operator frame)
    fun callee => hoperands.bind (happly callee)).trans ?_
  simp only [endsWith_bind_iff hoperands (happly _), endsWith_mapM_iff]
  constructor
  · rintro (⟨callee, between, hcallee, hrest⟩ | ⟨interrupt, after, hcallee, rfl⟩)
    · rcases hrest with ⟨arguments, ready, hgives, hcall⟩ | ⟨_, _, hinterrupts, rfl⟩
      · rcases hgives with ⟨_, _, hgives, ⟨⟩⟩ | ⟨_, _, -, ⟨⟩⟩
        exact .inr ⟨callee, arguments, ready, .cons hcallee hgives, hcall⟩
      · rcases hinterrupts with ⟨_, _, -, ⟨⟩⟩ | ⟨_, _, hinterrupts, ⟨⟩⟩
        exact .inl ⟨_, _, .later hcallee hinterrupts, rfl⟩
    · exact .inl ⟨interrupt, after, .first hcallee, rfl⟩
  · rintro (⟨interrupt, after, hinterrupts, rfl⟩ | ⟨callee, arguments, ready, hgives, hcall⟩)
    · cases hinterrupts with
      | first hcallee => exact .inr ⟨_, _, hcallee, rfl⟩
      | later hcallee hrest =>
        exact .inl ⟨_, _, hcallee, .inr ⟨_, _, .inr ⟨_, _, hrest, rfl⟩, rfl⟩⟩
    · cases hgives with
      | cons hcallee hrest =>
        exact .inl ⟨_, _, hcallee, .inl ⟨_, _, .inl ⟨_, _, hrest, rfl⟩, hcall⟩⟩

/-- Where all have values, the application ends as the call that is made of them. -/
theorem endsWith_call_iff_of_givesEach {label : Option Label}
    (hoperator : operator.specialForm? = none)
    (hgives : GivesEach host limit frame (operator :: operands) store (callee :: arguments) ready) :
    EndsWith host (limit + 1) ⟨.form label (operator :: operands), frame, store⟩ outcome ↔
      Machine.EndsWith (fun steps =>
        Reference.applyProcedure (Interpreter.contextWithin host steps limit)
          (evaluate host steps (limit + 1)) callee arguments) ready outcome := by
  have hunique : ∀ {other}, Machine.EndsWith (fun steps => (operator :: operands).mapM
      fun expression => evaluate host steps limit expression frame) store other →
        other = .ok (callee :: arguments) ready := fun hother =>
    hother.unique (steady_mapM_evaluate host limit (operator :: operands) frame)
      (endsWith_mapM_iff.2 (.inl ⟨_, _, hgives, rfl⟩))
  refine (endsWith_call_iff hoperator).trans ⟨?_, fun hcall => .inr ⟨_, _, _, hgives, hcall⟩⟩
  rintro (⟨_, _, hinterrupts, rfl⟩ | ⟨_, _, _, hothers, hcall⟩)
  · cases hunique (endsWith_mapM_iff.2 (.inr ⟨_, _, hinterrupts, rfl⟩))
  · cases hunique (endsWith_mapM_iff.2 (.inl ⟨_, _, hothers, rfl⟩))
    exact hcall

end Configuration

end SmallScheme
