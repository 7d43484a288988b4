import SmallScheme.Proofs.Reader.Prefix
import SmallScheme.Proofs.Relabelling.Simulation
import SmallScheme.Proofs.Soundness.Reachable
/-!
# The forms of a source, one after the other

Evaluating a source strictly or resiliently is the same as reading all its forms first and then
evaluating them in turn, with the failure that ends the reading, if any, coming after all of them.
But each form is evaluated before anything behind its last token is looked at, so the text behind it
has no say in what is evaluated before.
-/

namespace SmallScheme

open Machine

/-- The fault that an interrupt is to a driver of several forms. -/
def Interrupt.fault? : Interrupt → Option Fault
  | .fault cause => some cause
  | .tooDeep => some .tooDeep
  | .breakdown _ | .outOfSteps => none

/-- The store with a fault reported in the log. -/
def Store.recordFault (store : Store) (fault : Fault) : Store :=
  { store with
    log := store.log.push { level := .error, logger := .sequence, message := fault.report } }

namespace Machine

/-! ### Reading first -/

/-- What a resilient sequence does at the end of its forms. -/
def concludeResiliently (failure : Option Interrupt) (value : Datum) : Machine Datum :=
  match failure with
  | none => return value
  | some (.fault fault) => do
    record .error .sequence fault.report
    return value
  | some interrupt => throw interrupt

/-- What a strict sequence does at the end of its forms. -/
def concludeStrictly (failure : Option Interrupt) (value : Datum) : Machine Datum :=
  match failure with
  | none => return value
  | some interrupt => throw interrupt

theorem runStream_eq (context : Context) (frame : FrameId) (previous : Datum)
    (stream : TokenStream) :
    runStream context frame previous stream =
      (stream.readAll context.limit).1.foldlM (attempt context frame) previous >>=
        concludeResiliently (stream.readAll context.limit).2 := by
  fun_induction runStream context frame previous stream with
  | case1 previous stream after hread =>
    rw [readAll_of_end hread]
    rfl
  | case2 previous stream form rest hread ih =>
    rw [readAll_of_readForm hread, List.foldlM_cons, bind_assoc]
    exact congrArg (attempt context frame previous form >>= ·) (funext ih)
  | case3 previous stream fault after hread =>
    rw [readAll_of_failure hread]
    rfl
  | case4 previous stream interrupt after hfault hread =>
    rw [readAll_of_failure hread]
    cases interrupt with
    | fault fault => exact absurd rfl (hfault fault)
    | _ => rfl

theorem evaluateStream_eq (context : Context) (frame : FrameId) (previous : Datum)
    (stream : TokenStream) :
    evaluateStream context frame previous stream =
      (stream.readAll context.limit).1.foldlM
          (fun _ form => guarded (context.evaluate form frame)) previous >>=
        concludeStrictly (stream.readAll context.limit).2 := by
  fun_induction evaluateStream context frame previous stream with
  | case1 previous stream after hread =>
    rw [readAll_of_end hread]
    rfl
  | case2 previous stream form rest hread ih =>
    rw [readAll_of_readForm hread, List.foldlM_cons, bind_assoc]
    exact congrArg (guarded (context.evaluate form frame) >>= ·) (funext ih)
  | case3 previous stream interrupt after hread =>
    rw [readAll_of_failure hread]
    rfl

/-! ### One form -/

section

variable {context : Context} {frame : FrameId} {previous form value : Datum} {store between : Store}
  {interrupt : Interrupt}

theorem guarded_of_ok (hform : context.evaluate form frame store = .ok value between) :
    guarded (context.evaluate form frame) store = .ok value between :=
  tryCatch_of_ok hform

theorem guarded_of_fault {fault : Fault}
    (hform : context.evaluate form frame store = .error interrupt between)
    (hfault : interrupt.fault? = some fault) :
    guarded (context.evaluate form frame) store = .error (.fault fault) between := by
  refine (tryCatch_of_error hform).trans ?_
  cases interrupt <;> cases hfault <;> rfl

theorem guarded_of_escape (hform : context.evaluate form frame store = .error interrupt between)
    (hescape : interrupt.fault? = none) :
    guarded (context.evaluate form frame) store = .error interrupt between := by
  refine (tryCatch_of_error hform).trans ?_
  cases interrupt <;> cases hescape <;> rfl

theorem attempt_of_ok (hform : context.evaluate form frame store = .ok value between) :
    attempt context frame previous form store = .ok value between :=
  tryCatch_of_ok (guarded_of_ok hform)

theorem attempt_of_fault {fault : Fault}
    (hform : context.evaluate form frame store = .error interrupt between)
    (hfault : interrupt.fault? = some fault) :
    attempt context frame previous form store = .ok previous (between.recordFault fault) :=
  tryCatch_of_error (guarded_of_fault hform hfault)

theorem attempt_of_escape (hform : context.evaluate form frame store = .error interrupt between)
    (hescape : interrupt.fault? = none) :
    attempt context frame previous form store = .error interrupt between := by
  refine (tryCatch_of_error (guarded_of_escape hform hescape)).trans ?_
  cases interrupt <;> cases hescape <;> rfl

end

/-! ### All forms -/

/-- Forms are evaluated in turn, each once, in the store that the one before it leaves. A fault is
reported and leaves the value as it was; any other interrupt is the end. -/
inductive RunsForms (context : Context) (frame : FrameId) :
    Datum → List Datum → Store → Outcome Datum → Prop where
  | nil (previous : Datum) (store : Store) :
    RunsForms context frame previous [] store (.ok previous store)
  | value {previous form value : Datum} {rest : List Datum} {store between : Store}
    {outcome : Outcome Datum} (hform : context.evaluate form frame store = .ok value between)
    (hrest : RunsForms context frame value rest between outcome) :
    RunsForms context frame previous (form :: rest) store outcome
  | fault {previous form : Datum} {rest : List Datum} {store between : Store}
    {outcome : Outcome Datum} {interrupt : Interrupt} {fault : Fault}
    (hform : context.evaluate form frame store = .error interrupt between)
    (hfault : interrupt.fault? = some fault)
    (hrest : RunsForms context frame previous rest (between.recordFault fault) outcome) :
    RunsForms context frame previous (form :: rest) store outcome
  | escape {previous form : Datum} {rest : List Datum} {store between : Store}
    {interrupt : Interrupt}
    (hform : context.evaluate form frame store = .error interrupt between)
    (hescape : interrupt.fault? = none) :
    RunsForms context frame previous (form :: rest) store (.error interrupt between)

/-- Forms are evaluated in turn, each once, up to and including the first one without a value. -/
inductive EvaluatesForms (context : Context) (frame : FrameId) :
    Datum → List Datum → Store → Outcome Datum → Prop where
  | nil (previous : Datum) (store : Store) :
    EvaluatesForms context frame previous [] store (.ok previous store)
  | value {previous form value : Datum} {rest : List Datum} {store between : Store}
    {outcome : Outcome Datum} (hform : context.evaluate form frame store = .ok value between)
    (hrest : EvaluatesForms context frame value rest between outcome) :
    EvaluatesForms context frame previous (form :: rest) store outcome
  | fault {previous form : Datum} {rest : List Datum} {store between : Store}
    {interrupt : Interrupt} {fault : Fault}
    (hform : context.evaluate form frame store = .error interrupt between)
    (hfault : interrupt.fault? = some fault) :
    EvaluatesForms context frame previous (form :: rest) store (.error (.fault fault) between)
  | escape {previous form : Datum} {rest : List Datum} {store between : Store}
    {interrupt : Interrupt}
    (hform : context.evaluate form frame store = .error interrupt between)
    (hescape : interrupt.fault? = none) :
    EvaluatesForms context frame previous (form :: rest) store (.error interrupt between)

section

variable {context : Context} {frame : FrameId}

theorem runsForms_iff {previous : Datum} {forms : List Datum} {store : Store}
    {outcome : Outcome Datum} :
    RunsForms context frame previous forms store outcome ↔
      forms.foldlM (attempt context frame) previous store = outcome := by
  constructor
  · intro hruns
    induction hruns with
    | nil => rfl
    | value hform _ ih =>
      rw [List.foldlM_cons, bind_of_ok (attempt_of_ok hform)]
      exact ih
    | fault hform hfault _ ih =>
      rw [List.foldlM_cons, bind_of_ok (attempt_of_fault hform hfault)]
      exact ih
    | escape hform hescape =>
      rw [List.foldlM_cons, bind_of_error (attempt_of_escape hform hescape)]
  · rintro rfl
    induction forms generalizing previous store with
    | nil => exact .nil previous store
    | cons form rest ih =>
      rw [List.foldlM_cons]
      cases hform : context.evaluate form frame store with
      | ok value between =>
        rw [bind_of_ok (attempt_of_ok hform)]
        exact .value hform ih
      | error interrupt between =>
        cases hfault : interrupt.fault? with
        | some fault =>
          rw [bind_of_ok (attempt_of_fault hform hfault)]
          exact .fault hform hfault ih
        | none =>
          rw [bind_of_error (attempt_of_escape hform hfault)]
          exact .escape hform hfault

theorem evaluatesForms_iff {previous : Datum} {forms : List Datum} {store : Store}
    {outcome : Outcome Datum} :
    EvaluatesForms context frame previous forms store outcome ↔
      forms.foldlM (fun _ form => guarded (context.evaluate form frame)) previous store =
        outcome := by
  constructor
  · intro hevaluates
    induction hevaluates with
    | nil => rfl
    | value hform _ ih =>
      rw [List.foldlM_cons, bind_of_ok (guarded_of_ok hform)]
      exact ih
    | fault hform hfault => rw [List.foldlM_cons, bind_of_error (guarded_of_fault hform hfault)]
    | escape hform hescape =>
      rw [List.foldlM_cons, bind_of_error (guarded_of_escape hform hescape)]
  · rintro rfl
    induction forms generalizing previous store with
    | nil => exact .nil previous store
    | cons form rest ih =>
      rw [List.foldlM_cons]
      cases hform : context.evaluate form frame store with
      | ok value between =>
        rw [bind_of_ok (guarded_of_ok hform)]
        exact .value hform ih
      | error interrupt between =>
        cases hfault : interrupt.fault? with
        | some fault =>
          rw [bind_of_error (guarded_of_fault hform hfault)]
          exact .fault hform hfault
        | none =>
          rw [bind_of_error (guarded_of_escape hform hfault)]
          exact .escape hform hfault

/-- Where a strict sequence has a value, a resilient one has nothing to report. -/
theorem EvaluatesForms.runsForms {previous value : Datum} {forms : List Datum}
    {store after : Store} (hevaluates : EvaluatesForms context frame previous forms store
      (.ok value after)) : RunsForms context frame previous forms store (.ok value after) := by
  generalize houtcome : EStateM.Result.ok value after = outcome at hevaluates
  induction hevaluates with
  | nil => exact .nil _ _
  | value hform _ ih => exact .value hform (ih houtcome)
  | fault => cases houtcome
  | escape => cases houtcome

end

end Machine

/-- What becomes of an outcome of forms when the reading of more of them fails and that is reported
as a fault. -/
def Outcome.reporting (failure : Option Interrupt) : Outcome Datum → Outcome Datum
  | .error interrupt after => .error interrupt after
  | .ok value after =>
    match failure with
    | none => .ok value after
    | some (.fault fault) => .ok value (after.recordFault fault)
    | some interrupt => .error interrupt after

/-- What becomes of an outcome of forms when the reading of more of them fails, which is raised. -/
def Outcome.raising (failure : Option Interrupt) : Outcome Datum → Outcome Datum
  | .error interrupt after => .error interrupt after
  | .ok value after =>
    match failure with
    | none => .ok value after
    | some interrupt => .error interrupt after

theorem Outcome.raising_eq_ok {failure : Option Interrupt} {outcome : Outcome Datum}
    {value : Datum} {after : Store} :
    Outcome.raising failure outcome = .ok value after ↔
      failure = none ∧ outcome = .ok value after := by
  cases outcome with
  | ok last between => cases failure <;> simp [Outcome.raising]
  | error interrupt between => simp [Outcome.raising]

namespace Machine

theorem bind_concludeResiliently (computation : Machine Datum) (failure : Option Interrupt)
    (store : Store) :
    (computation >>= concludeResiliently failure) store =
      Outcome.reporting failure (computation store) := by
  cases hrun : computation store with
  | ok value after =>
    rw [bind_of_ok hrun]
    match failure with
    | none => rfl
    | some (.fault fault) => rfl
    | some .tooDeep | some (.breakdown _) | some .outOfSteps => rfl
  | error interrupt after =>
    rw [bind_of_error hrun]
    rfl

theorem bind_concludeStrictly (computation : Machine Datum) (failure : Option Interrupt)
    (store : Store) :
    (computation >>= concludeStrictly failure) store =
      Outcome.raising failure (computation store) := by
  cases hrun : computation store with
  | ok value after =>
    rw [bind_of_ok hrun]
    cases failure <;> rfl
  | error interrupt after =>
    rw [bind_of_error hrun]
    rfl

/-- A stream begins with forms: a sequence evaluates them and goes on with what is left, whether it
is resilient or strict. -/
def BeginsWith (context : Context) (frame : FrameId) (forms : List Datum)
    (stream rest : TokenStream) : Prop :=
  ∀ previous,
    (runStream context frame previous stream = do
      let value ← forms.foldlM (attempt context frame) previous
      runStream context frame value rest) ∧
    (evaluateStream context frame previous stream = do
      let value ← forms.foldlM (fun _ form => guarded (context.evaluate form frame)) previous
      evaluateStream context frame value rest)

/-- The forms at the front of a text are evaluated before what follows these is looked at, whatever
that is. -/
theorem beginsWith_of_readAll {context : Context} {text : List Char} {position : Nat}
    {front back : List Datum} (frame : FrameId)
    (hread : ((TokenStream.ofRest text position).readAll context.limit).1 = front ++ back) :
    ∃ consumed rest next, text = consumed ++ rest ∧
      ∀ other, (Delimited rest → Delimited other) →
        BeginsWith context frame front (.ofRest (consumed ++ other) position)
          (.ofRest other next) := by
  obtain ⟨consumed, rest, next, htext, hothers⟩ := TokenStream.exists_prefix_of_readAll hread
  refine ⟨consumed, rest, next, htext, fun other hother previous => ?_⟩
  have hall := hothers other hother
  constructor
  · rw [runStream_eq, hall, List.foldlM_append, bind_assoc]
    simp only [runStream_eq]
  · rw [evaluateStream_eq, hall, List.foldlM_append, bind_assoc]
    simp only [evaluateStream_eq]

end Machine

namespace Interpreter

theorem serve_run_of_readSource {context : Context} {text : String} {forms : List Datum}
    (hread : readSource context.limit text = .ok forms) :
    (Request.run text).serve context =
      forms.foldlM (attempt context rootFrame) .unspecified := by
  rw [Request.serve, runStream_eq, readAll_eq_of_readSource hread]
  exact bind_pure _

section

variable (context : Context) (text : String) (store : Store)

theorem serve_run_eq :
    (Request.run text).serve context store =
      Outcome.reporting ((TokenStream.ofText text).readAll context.limit).2
        (((TokenStream.ofText text).readAll context.limit).1.foldlM (attempt context rootFrame)
          .unspecified store) := by
  rw [Request.serve, runStream_eq]
  exact bind_concludeResiliently _ _ store

theorem serve_eval_eq :
    (Request.eval text).serve context store =
      Outcome.raising ((TokenStream.ofText text).readAll context.limit).2
        (((TokenStream.ofText text).readAll context.limit).1.foldlM
          (fun _ form => guarded (context.evaluate form rootFrame)) .unspecified store) := by
  rw [Request.serve, evaluateStream_eq]
  exact bind_concludeStrictly _ _ store

variable {context text store}

theorem serve_run_of_serve_eval {value : Datum} {after : Store}
    (heval : (Request.eval text).serve context store = .ok value after) :
    (Request.run text).serve context store = .ok value after := by
  rw [serve_eval_eq, Outcome.raising_eq_ok] at heval
  obtain ⟨hfailure, hforms⟩ := heval
  have hruns := (evaluatesForms_iff.2 hforms).runsForms
  rw [serve_run_eq, hfailure, runsForms_iff.1 hruns]
  rfl

end

/-- Reading a text first gives its forms and perhaps a failure. Running and evaluating the text are
evaluating these forms in turn, with the failure at the end; where evaluating has a value, running
has the same one and does the same. And as much of the forms as there are in front of any place in
the text is evaluated before what stands there is looked at. -/
theorem serve_eq_of_readAll (host : Host) (steps limit : Nat) (text : String) (store : Store) :
    let forms := ((TokenStream.ofText text).readAll limit).1
    let failure := ((TokenStream.ofText text).readAll limit).2
    let context := contextWithin host steps limit
    (readSource limit text = match failure with
      | none => .ok forms
      | some interrupt => .error interrupt) ∧
    (∀ outcome, (Request.run text).serve context store = outcome ↔
      ∃ before, RunsForms context rootFrame .unspecified forms store before ∧
        outcome = before.reporting failure) ∧
    (∀ outcome, (Request.eval text).serve context store = outcome ↔
      ∃ before, EvaluatesForms context rootFrame .unspecified forms store before ∧
        outcome = before.raising failure) ∧
    (∀ value after, (Request.eval text).serve context store = .ok value after →
      (Request.run text).serve context store = .ok value after) ∧
    ∀ front back, forms = front ++ back → ∃ consumed rest next, text.toList = consumed ++ rest ∧
      ∀ other, (Delimited rest → Delimited other) →
        BeginsWith context rootFrame front (.ofRest (consumed ++ other) 0)
          (.ofRest other next) := by
  intro forms failure context
  refine ⟨?_, fun outcome => ⟨?_, ?_⟩, fun outcome => ⟨?_, ?_⟩, ?_, fun front back hforms => ?_⟩
  · rw [readSource]
    split <;> next hread => simp only [forms, failure, hread]
  · rintro rfl
    exact ⟨_, runsForms_iff.2 rfl, serve_run_eq context text store⟩
  · rintro ⟨before, hruns, rfl⟩
    rw [← runsForms_iff.1 hruns]
    exact serve_run_eq context text store
  · rintro rfl
    exact ⟨_, evaluatesForms_iff.2 rfl, serve_eval_eq context text store⟩
  · rintro ⟨before, hevaluates, rfl⟩
    rw [← evaluatesForms_iff.1 hevaluates]
    exact serve_eval_eq context text store
  · exact fun value after => serve_run_of_serve_eval
  · have hread : ((TokenStream.ofRest text.toList 0).readAll context.limit).1 = front ++ back :=
      hforms
    exact beginsWith_of_readAll rootFrame hread

/-- A text with a value has it both ways, and its form is read before what follows the text. -/
theorem serve_of_sequence_text :
    let host : Host := { settings := .ofVariables ⟨none, none, none⟩, files := .catalogue [] }
    let text := String.ofList "(begin \"done\")".toList
    let form : Datum := .form none [.keyword .begin, .str "done"]
    let context := contextWithin host 4 4
    (Request.eval text).serve context initialStore = .ok (.str "done") initialStore ∧
      (Request.run text).serve context initialStore = .ok (.str "done") initialStore ∧
        ∃ consumed rest next, text.toList = consumed ++ rest ∧
          BeginsWith context rootFrame [form] (.ofRest (consumed ++ rest) 0)
            (.ofRest rest next) := by
  intro host text form context
  have hbegin : ReadsAs 4 0 "begin".toList (.keyword .begin) :=
    readsAs_identifier (isIdentifier_keyword .begin)
  have hdone : ReadsAs 4 0 (Literal.encode "done".toList) (.str (String.ofList "done".toList)) :=
    readsAs_string "done".toList
  have hread : readSource 4 text = .ok [form] :=
    readSource_of_readsAs (readsAs_form (.cons hbegin (.cons hdone .nil))) (by decide)
  have hall := readAll_eq_of_readSource hread
  obtain ⟨-, -, heval, hrun, hprefix⟩ := serve_eq_of_readAll host 4 4 text initialStore
  rw [hall] at heval hprefix
  have hform : EvaluatesForms context rootFrame .unspecified [form] initialStore
      (.ok (.str "done") initialStore) := .value rfl (.nil _ _)
  have hvalue := (heval _).2 ⟨_, hform, rfl⟩
  obtain ⟨consumed, rest, next, htext, hbegins⟩ := hprefix [form] [] rfl
  exact ⟨hvalue, hrun _ _ hvalue, consumed, rest, next, htext, hbegins rest id⟩

/-- There is no path for the empty name, and to load it is no fault: although the text has a form
and is read without a failure, to run it gives no value and reports nothing. -/
theorem serve_of_unnamed_load :
    let host : Host := { settings := .ofVariables ⟨none, none, none⟩, files := .catalogue [] }
    let text := String.ofList "(load \"\")".toList
    readSource 4 text = .ok [.form none [.keyword .load, .str ""]] ∧
      (Request.run text).serve (contextWithin host 4 4) initialStore =
        .error (.breakdown (.emptyName ".")) initialStore := by
  intro host text
  have hload : ReadsAs 4 0 "load".toList (.keyword .load) :=
    readsAs_identifier (isIdentifier_keyword .load)
  have hname : ReadsAs 4 0 (Literal.encode []) (.str (String.ofList [])) := readsAs_string []
  have hform := readsAs_form (.cons hload (.cons hname .nil))
  have hread : readSource 4 text = .ok [.form none [.keyword .load, .str ""]] :=
    readSource_of_readsAs hform (by decide)
  refine ⟨hread, ?_⟩
  rw [serve_run_of_readSource hread]
  rfl

end Interpreter

end SmallScheme
