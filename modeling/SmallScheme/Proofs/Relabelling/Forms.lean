import SmallScheme.Evaluator.Forms
import SmallScheme.Proofs.Reader.Syntax
import SmallScheme.Proofs.Relabelling.Builtins
/-!
# Special forms and labels

A special form does the same on operands with moved labels, as long as the evaluations inside it do.
What is read from a text has no labels at all.
-/

namespace SmallScheme

open Machine

/-! ### Syntax -/

theorem Datum.IsSyntax.relabel_eq {datum : Datum} (hwritten : datum.IsSyntax) (shift : Shift) :
    datum.relabel shift = datum := by
  induction hwritten with
  | @form items _ ih =>
    rw [relabel, relabelAll_eq_map, Option.map_none, List.map_congr_left ih, List.map_id']
  | _ => rfl

theorem Interrupt.IsOfText.relabel_eq {interrupt : Interrupt} (htext : interrupt.IsOfText)
    (shift : Shift) : interrupt.relabel shift = interrupt := by
  cases interrupt with
  | fault cause => cases cause <;> first | rfl | exact htext.elim
  | _ => rfl

theorem Datum.operandsOf?_relabel (shift : Shift) (form : SpecialForm) (datum : Datum) :
    (datum.relabel shift).operandsOf? form =
      (datum.operandsOf? form).map (List.map (Datum.relabel shift)) := by
  cases datum with
  | form label items =>
    cases items with
    | nil => rfl
    | cons head operands =>
      cases head with
      | symbol name =>
        simp only [relabel, relabelAll, relabelAll_eq_map, operandsOf?]
        split <;> rfl
      | _ => rfl
  | _ => rfl

theorem Datum.branch_relabel (shift : Shift) (test alternative : Datum) (body : List Datum) :
    (Datum.form none [.keyword .branch, test, .ofBody body, alternative]).relabel shift =
      .form none [.keyword .branch, test.relabel shift, .ofBody (body.map (relabel shift)),
        alternative.relabel shift] := by
  rw [← ofBody_relabel]
  rfl

theorem expandClause_relabel (shift : Shift) (limit number : Nat) (isLast : Bool)
    (alternative clause : Datum) :
    expandClause limit number isLast (alternative.relabel shift) (clause.relabel shift) =
      ((expandClause limit number isLast alternative clause).map (Datum.relabel shift)).mapError
        (Interrupt.relabel shift) := by
  have hnotList :
      (if (clause.relabel shift).isTooDeepToDiagnose limit then Except.error Interrupt.tooDeep
        else Except.error (.fault (.clauseNotList (clause.relabel shift)))) =
      Except.mapError (Interrupt.relabel shift) (Except.map (Datum.relabel shift)
        (if clause.isTooDeepToDiagnose limit then Except.error Interrupt.tooDeep
          else Except.error (.fault (.clauseNotList clause)))) := by
    rw [Datum.isTooDeepToDiagnose_relabel]
    split <;> rfl
  cases clause with
  | form label items =>
    cases items with
    | nil => exact hnotList
    | cons head items =>
      cases items with
      | nil => rfl
      | cons next body =>
        have hbranch := Datum.branch_relabel shift head alternative (next :: body)
        rw [Datum.relabel, Datum.relabelAll_eq_map, List.map_cons]
        cases head with
        | symbol name =>
          simp only [Datum.relabel, List.map_cons, expandClause]
          by_cases hname : name ≠ elseName
          · rw [if_pos hname, if_pos hname]
            exact congrArg Except.ok hbranch.symm
          · rw [if_neg hname, if_neg hname]
            cases isLast with
            | true => exact congrArg Except.ok (Datum.ofBody_relabel shift (next :: body)).symm
            | false => rfl
        | _ => exact congrArg Except.ok hbranch.symm
  | _ => exact hnotList

/-- A conditional with moved labels stands for the same conditionals with moved labels. -/
theorem expandClauses_relabel (shift : Shift) (limit number : Nat) (clauses : List Datum) :
    expandClauses limit number (clauses.map (Datum.relabel shift)) =
      ((expandClauses limit number clauses).map (Datum.relabel shift)).mapError
        (Interrupt.relabel shift) := by
  induction clauses generalizing number with
  | nil => rfl
  | cons clause rest ih =>
    rw [List.map_cons, expandClauses, expandClauses, ih, List.isEmpty_map]
    cases expandClauses limit (number + 1) rest with
    | error interrupt => rfl
    | ok alternative => exact expandClause_relabel shift limit number _ alternative clause

namespace Machine

variable {shift : Shift} {context : Context} {family : Nat → Datum → FrameId → Machine Datum}

theorem simulates_readSource (limit : Nat) (text : String) :
    Simulates shift (List.map (Datum.relabel shift)) (ofExcept (readSource limit text)) fun _ =>
      ofExcept (readSource limit text) := by
  have hsame : ((readSource limit text).map (List.map (Datum.relabel shift))).mapError
      (Interrupt.relabel shift) = readSource limit text := by
    cases hread : readSource limit text with
    | ok forms =>
      have hforms : forms.map (Datum.relabel shift) = forms := by
        rw [List.map_congr_left fun form hmem =>
          (isSyntax_of_readSource hread form hmem).relabel_eq shift, List.map_id']
      exact congrArg Except.ok hforms
    | error interrupt =>
      exact congrArg Except.error ((isOfText_of_readSource hread).relabel_eq shift)
  have hread : Simulates shift (List.map (Datum.relabel shift)) (ofExcept (readSource limit text))
      fun _ => ofExcept (((readSource limit text).map (List.map (Datum.relabel shift))).mapError
        (Interrupt.relabel shift)) :=
    simulates_ofExcept _
  rwa [hsame] at hread

/-! ### Closures and definitions -/

theorem simulates_symbolName (limit : Nat) (form : SpecialForm) (datum : Datum) :
    Simulates shift id (symbolName limit form datum) fun _ =>
      symbolName limit form (datum.relabel shift) := by
  cases datum with
  | symbol name => exact .pure name
  | _ => exact simulates_failDiagnosing limit _ (.notSymbol form _)

theorem simulates_symbolNames (limit : Nat) (form : SpecialForm) (parameters : List Datum) :
    Simulates shift id (parameters.mapM (symbolName limit form)) fun _ =>
      (parameters.map (Datum.relabel shift)).mapM (symbolName limit form) := by
  have heach : Simulates shift (List.map id) (parameters.mapM (symbolName limit form)) fun _ =>
      (parameters.map (Datum.relabel shift)).mapM (symbolName limit form) :=
    .mapM (simulates_symbolName limit form) parameters
  rwa [List.map_id_fun] at heach

theorem simulates_readFormals (limit : Nat) (parameters : Datum) :
    Simulates shift id (readFormals limit parameters) fun _ =>
      readFormals limit (parameters.relabel shift) := by
  cases parameters with
  | form label items =>
    simp only [Datum.relabel, Datum.relabelAll_eq_map, readFormals]
    exact (simulates_symbolNames limit .lambda items).bind fun names => .pure (Formals.fixed names)
  | _ => exact (simulates_symbolName limit .lambda _).bind fun name => .pure (Formals.rest name)

theorem simulates_makeClosure (frame : FrameId) (name : Option String) (operands : List Datum) :
    Simulates shift (Datum.relabel shift) (makeClosure context frame name operands) fun steps =>
      makeClosure { context with evaluate := family steps } frame name
        (operands.map (Datum.relabel shift)) := by
  cases operands with
  | nil => exact .fail _
  | cons parameters body =>
    exact (simulates_readFormals context.limit parameters).bind fun formals =>
      simulates_closure name formals body frame

theorem simulates_defineAs {computation : Machine Datum} {computations : Nat → Machine Datum}
    (hvalue : Simulates shift (Datum.relabel shift) computation computations) (frame : FrameId)
    (name : String) :
    Simulates shift (Datum.relabel shift) (defineAs frame name computation) fun steps =>
      defineAs frame name (computations steps) :=
  hvalue.bind fun value =>
    (simulates_define frame name value).bind fun _ => .pure Datum.unspecified

theorem simulates_defineProcedure (frame : FrameId) (target : Datum)
    (parameters body : List Datum) :
    Simulates shift (Datum.relabel shift) (defineProcedure context frame target parameters body)
      fun steps => defineProcedure { context with evaluate := family steps } frame
        (target.relabel shift) (parameters.map (Datum.relabel shift))
        (body.map (Datum.relabel shift)) :=
  (simulates_symbolName context.limit .define target).bind fun name =>
    (simulates_symbolNames context.limit .define parameters).bind fun names =>
      simulates_defineAs (simulates_closure (some name) (.fixed names) body frame) frame name

theorem simulates_evaluateNamed (hcontext : context.IsSimulated shift family) (frame : FrameId)
    (name : String) (expression : Datum) :
    Simulates shift (Datum.relabel shift) (evaluateNamed context frame name expression)
      fun steps => evaluateNamed { context with evaluate := family steps } frame name
        (expression.relabel shift) := by
  simp only [evaluateNamed, Datum.operandsOf?_relabel]
  cases expression.operandsOf? .lambda with
  | some operands => exact simulates_makeClosure frame (some name) operands
  | none => exact hcontext expression frame

theorem simulates_defineVariable (hcontext : context.IsSimulated shift family) (frame : FrameId)
    (target : Datum) (expressions : List Datum) :
    Simulates shift (Datum.relabel shift) (defineVariable context frame target expressions)
      fun steps => defineVariable { context with evaluate := family steps } frame
        (target.relabel shift) (expressions.map (Datum.relabel shift)) := by
  refine (simulates_symbolName context.limit .define target).bind fun name => ?_
  match expressions with
  | [expression] =>
    exact simulates_defineAs (simulates_evaluateNamed hcontext frame name expression) frame name
  | [] | _ :: _ :: _ => exact .fail _

theorem simulates_evaluateDefine (hcontext : context.IsSimulated shift family) (frame : FrameId)
    (operands : List Datum) :
    Simulates shift (Datum.relabel shift) (evaluateDefine context frame operands) fun steps =>
      evaluateDefine { context with evaluate := family steps } frame
        (operands.map (Datum.relabel shift)) := by
  cases operands with
  | nil => exact .fail _
  | cons target expressions =>
    cases target with
    | form label items =>
      cases items with
      | nil => exact .fail _
      | cons target parameters =>
        simp only [List.map_cons, Datum.relabel, Datum.relabelAll, Datum.relabelAll_eq_map,
          evaluateDefine]
        exact simulates_defineProcedure frame target parameters expressions
    | _ => exact simulates_defineVariable hcontext frame _ expressions

/-! ### Control -/

theorem simulates_evaluateBranch (hcontext : context.IsSimulated shift family) (frame : FrameId)
    (operands : List Datum) :
    Simulates shift (Step.relabel shift) (evaluateBranch context frame operands) fun steps =>
      evaluateBranch { context with evaluate := family steps } frame
        (operands.map (Datum.relabel shift)) := by
  match operands with
  | [test, consequent] =>
    refine (hcontext test frame).bind fun value => ?_
    rw [Datum.isTrue_relabel]
    cases value.isTrue with
    | true => exact .pure (Step.proceed consequent frame)
    | false => exact .pure (Step.done .unspecified)
  | [test, consequent, alternative] =>
    refine (hcontext test frame).bind fun value => ?_
    rw [Datum.isTrue_relabel]
    cases value.isTrue with
    | true => exact .pure (Step.proceed consequent frame)
    | false => exact .pure (Step.proceed alternative frame)
  | [] | [_] | _ :: _ :: _ :: _ :: _ => exact .fail _

theorem simulates_evaluateBegin (hcontext : context.IsSimulated shift family) (frame : FrameId)
    (expressions : List Datum) :
    Simulates shift (Step.relabel shift) (evaluateBegin context frame expressions) fun steps =>
      evaluateBegin { context with evaluate := family steps } frame
        (expressions.map (Datum.relabel shift)) := by
  induction expressions with
  | nil => exact .pure (Step.done .unspecified)
  | cons expression rest ih =>
    cases rest with
    | nil => exact .pure (Step.proceed expression frame)
    | cons next rest => exact (hcontext expression frame).discard.bind fun _ => ih

theorem simulates_allTrue (hcontext : context.IsSimulated shift family) (frame : FrameId)
    (expressions : List Datum) :
    Simulates shift id (allTrue context frame expressions) fun steps =>
      allTrue { context with evaluate := family steps } frame
        (expressions.map (Datum.relabel shift)) := by
  induction expressions with
  | nil => exact .pure true
  | cons expression rest ih =>
    refine (hcontext expression frame).bind fun value => ?_
    rw [Datum.isTrue_relabel]
    cases value.isTrue with
    | true => exact ih
    | false => exact .pure false

theorem simulates_anyTrue (hcontext : context.IsSimulated shift family) (frame : FrameId)
    (expressions : List Datum) :
    Simulates shift id (anyTrue context frame expressions) fun steps =>
      anyTrue { context with evaluate := family steps } frame
        (expressions.map (Datum.relabel shift)) := by
  induction expressions with
  | nil => exact .pure false
  | cons expression rest ih =>
    refine (hcontext expression frame).bind fun value => ?_
    rw [Datum.isTrue_relabel]
    cases value.isTrue with
    | true => exact .pure true
    | false => exact ih

theorem simulates_evaluateApply (hcontext : context.IsSimulated shift family) (frame : FrameId)
    (operands : List Datum) :
    Simulates shift (Datum.relabel shift) (evaluateApply context frame operands) fun steps =>
      evaluateApply { context with evaluate := family steps } frame
        (operands.map (Datum.relabel shift)) := by
  match operands with
  | [procedureExpression, listExpression] =>
    refine (hcontext procedureExpression frame).bind fun procedure => ?_
    refine (hcontext listExpression frame).bind fun list => ?_
    rw [Datum.isList_relabel, Datum.items_relabel]
    cases list.isList with
    | true =>
      have happlication := hcontext (.form none (procedure :: list.items)) frame
      simp only [Datum.relabel, Datum.relabelAll, Datum.relabelAll_eq_map] at happlication
      exact happlication
    | false => exact simulates_failPrinting context.limit list (.notArgumentList list)
  | [] | [_] | _ :: _ :: _ :: _ => exact .fail _

/-! ### Texts -/

theorem simulates_evaluateForms (hcontext : context.IsSimulated shift family) (frame : FrameId)
    (forms : List Datum) :
    Simulates shift (Datum.relabel shift) (evaluateForms context frame forms) fun steps =>
      evaluateForms { context with evaluate := family steps } frame
        (forms.map (Datum.relabel shift)) :=
  .foldlM (fun _ form => hcontext form frame) forms Datum.unspecified

theorem simulates_evaluateWritten (hcontext : context.IsSimulated shift family) (frame : FrameId)
    (value : Datum) :
    Simulates shift (Datum.relabel shift) (evaluateWritten context frame value) fun steps =>
      evaluateWritten { context with evaluate := family steps } frame (value.relabel shift) := by
  simp only [evaluateWritten, Datum.wellFormed?_relabel, Datum.source_relabel]
  match value.wellFormed? context.limit with
  | none => exact .throw _
  | some false => exact simulates_failPrinting context.limit value (.malformedList value)
  | some true =>
    refine (simulates_checkPrintable context.limit value).bind fun _ => ?_
    refine (simulates_readSource context.limit value.source).bind fun forms => ?_
    refine (simulates_evaluateForms hcontext frame forms).tryCatch (fun interrupt _ => ?_) rfl
    cases interrupt with
    | fault cause =>
      simp only [Interrupt.relabel, Fault.message_relabel]
      exact (simulates_record _ _ _).bind fun _ => .pure Datum.unspecified
    | _ => exact .throw _

theorem simulates_evaluateEval (hcontext : context.IsSimulated shift family) (frame : FrameId)
    (operands : List Datum) :
    Simulates shift (Datum.relabel shift) (evaluateEval context frame operands) fun steps =>
      evaluateEval { context with evaluate := family steps } frame
        (operands.map (Datum.relabel shift)) := by
  match operands with
  | [operand] =>
    exact (hcontext operand frame).bind fun value => simulates_evaluateWritten hcontext frame value
  | [] | _ :: _ :: _ => exact .fail _

theorem simulates_guarded {evaluation : Machine Datum} {evaluations : Nat → Machine Datum}
    (hevaluation : Simulates shift (Datum.relabel shift) evaluation evaluations) :
    Simulates shift (Datum.relabel shift) (guarded evaluation) fun steps =>
      guarded (evaluations steps) := by
  refine hevaluation.tryCatch (fun interrupt _ => ?_) rfl
  cases interrupt with
  | tooDeep => exact .fail .tooDeep
  | _ => exact .throw _

theorem simulates_attempt (hcontext : context.IsSimulated shift family) (frame : FrameId)
    (previous form : Datum) :
    Simulates shift (Datum.relabel shift) (attempt context frame previous form) fun steps =>
      attempt { context with evaluate := family steps } frame (previous.relabel shift)
        (form.relabel shift) := by
  refine (simulates_guarded (hcontext form frame)).tryCatch (fun interrupt _ => ?_) rfl
  cases interrupt with
  | fault cause =>
    simp only [Interrupt.relabel, Fault.report_relabel]
    exact (simulates_record _ _ _).bind fun _ => .pure previous
  | _ => exact .throw _

theorem simulates_runForms (hcontext : context.IsSimulated shift family) (frame : FrameId)
    (forms : List Datum) :
    Simulates shift (Datum.relabel shift) (runForms context frame forms) fun steps =>
      runForms { context with evaluate := family steps } frame
        (forms.map (Datum.relabel shift)) :=
  .foldlM (simulates_attempt hcontext frame) forms .unspecified

theorem simulates_readFileText (host : Host) (path : Path) :
    Simulates shift id (readFileText host path) fun _ => readFileText host path := by
  refine (simulates_noteOpened path.text).bind fun _ => ?_
  cases host.files.read path with
  | ok text => exact .pure text
  | error failure =>
    cases failure with
    | refused refusal => exact .fail _
    | undecodable defect => exact .fail _
    | zeroInName => exact .throw _

theorem simulates_loadFile (hcontext : context.IsSimulated shift family) (frame : FrameId)
    (name : String) :
    Simulates shift (Datum.relabel shift) (loadFile context frame name) fun steps =>
      loadFile { context with evaluate := family steps } frame name := by
  delta loadFile
  dsimp only
  cases context.host.resolve name with
  | error breakdown => exact .throw _
  | ok path =>
    refine (simulates_readFileText context.host path).bind fun text => ?_
    refine (simulates_record _ _ _).bind fun _ => ?_
    exact (simulates_readSource context.limit text).bind fun forms =>
      simulates_runForms hcontext frame forms

theorem simulates_loadLeniently (hcontext : context.IsSimulated shift family) (frame : FrameId)
    (name : String) :
    Simulates shift id (loadLeniently context frame name) fun steps =>
      loadLeniently { context with evaluate := family steps } frame name := by
  refine (simulates_loadFile hcontext frame name).discard.tryCatch (fun interrupt _ => ?_) rfl
  cases interrupt with
  | fault cause =>
    cases cause with
    | unavailable path reason => exact simulates_record _ _ _
    | _ => exact .throw _
  | _ => exact .throw _

theorem simulates_loadTarget (hcontext : context.IsSimulated shift family) (frame : FrameId)
    (limit : Nat) (target : Datum) :
    Simulates shift id (loadTarget context frame limit target) fun steps =>
      loadTarget { context with evaluate := family steps } frame limit (target.relabel shift) := by
  induction limit generalizing target with
  | zero => exact .throw _
  | succ limit ih =>
    cases target with
    | str name => exact simulates_loadLeniently hcontext frame name
    | quoted name => exact simulates_loadLeniently hcontext frame name
    | empty => exact .pure PUnit.unit
    | pair label head tail =>
      have hitems := (Datum.pair label head tail).items_relabel shift
      have hlist := (Datum.pair label head tail).isList_relabel shift
      have hunfold : ∀ (context : Context) (label : Label) (head tail : Datum),
          loadTarget context frame (limit + 1) (.pair label head tail) =
            if (Datum.pair label head tail).isList then
              (Datum.pair label head tail).items.forM (loadTarget context frame limit)
            else
              failPrinting limit (.pair label head tail) (.notLoadable (.pair label head tail)) :=
        fun _ _ _ _ => rfl
      simp only [Datum.relabel] at hitems hlist
      simp only [Datum.relabel, hunfold, hitems, hlist]
      cases (Datum.pair label head tail).isList with
      | true => exact .forM ih _
      | false => exact simulates_failPrinting limit _ (.notLoadable _)
    | _ => exact simulates_failPrinting limit _ (.notLoadable _)

theorem simulates_evaluateLoad (hcontext : context.IsSimulated shift family) (frame : FrameId)
    (operands : List Datum) :
    Simulates shift (Datum.relabel shift) (evaluateLoad context frame operands) fun steps =>
      evaluateLoad { context with evaluate := family steps } frame
        (operands.map (Datum.relabel shift)) := by
  match operands with
  | [operand] =>
    refine (hcontext operand frame).bind fun target => ?_
    exact (simulates_loadTarget hcontext frame context.limit target).bind fun _ =>
      .pure Datum.unspecified
  | [] | _ :: _ :: _ => exact .fail _

/-! ### Promises and quotation -/

theorem simulates_evaluateDelay (frame : FrameId) (operands : List Datum) :
    Simulates shift (Datum.relabel shift) (evaluateDelay frame operands) fun _ =>
      evaluateDelay frame (operands.map (Datum.relabel shift)) := by
  match operands with
  | [expression] => exact simulates_newPromise expression frame
  | [] | _ :: _ :: _ => exact .fail _

mutual

theorem simulates_quoteDatum (limit : Nat) :
    ∀ datum : Datum, Simulates shift (Datum.relabel shift) (quoteDatum limit datum) fun _ =>
      quoteDatum limit (datum.relabel shift)
  | .form label items => by
    simp only [Datum.relabel, quoteDatum]
    split
    · exact .throw _
    · exact (simulates_quoteItems (limit - 1) items).bind fun quoted =>
        simulates_listOf quoted .empty
  | .symbol name => .pure (Datum.quoted name)
  | .int value => (simulates_numberOfInteger value).bind fun number => .pure (Datum.num number)
  | .num _ | .bool _ | .str _ | .quoted _ | .empty => .pure _
  | .absent | .unspecified | .pair .. | .builtin _ | .closure .. | .promise _ | .foreign .. =>
    simulates_failDiagnosing limit _ (.notQuotable _)

theorem simulates_quoteItems (limit : Nat) :
    ∀ items : List Datum, Simulates shift (List.map (Datum.relabel shift)) (quoteItems limit items)
      fun _ => quoteItems limit (Datum.relabelAll shift items)
  | [] => .pure []
  | item :: rest =>
    (simulates_quoteDatum limit item).bind fun first =>
      (simulates_quoteItems limit rest).bind fun others => .pure (first :: others)

end

theorem simulates_evaluateQuote (operands : List Datum) :
    Simulates shift (Datum.relabel shift) (evaluateQuote context operands) fun steps =>
      evaluateQuote { context with evaluate := family steps }
        (operands.map (Datum.relabel shift)) := by
  match operands with
  | [datum] => exact simulates_quoteDatum context.limit datum
  | [] | _ :: _ :: _ => exact .fail _

/-! ### All forms -/

theorem simulates_evaluateAnd (hcontext : context.IsSimulated shift family) (frame : FrameId)
    (operands : List Datum) :
    Simulates shift (Datum.relabel shift) (evaluateAnd context frame operands) fun steps =>
      evaluateAnd { context with evaluate := family steps } frame
        (operands.map (Datum.relabel shift)) := by
  cases operands with
  | nil => exact .fail _
  | cons first rest =>
    exact (simulates_allTrue hcontext frame (first :: rest)).bind fun answer =>
      .pure (Datum.bool answer)

theorem simulates_evaluateOr (hcontext : context.IsSimulated shift family) (frame : FrameId)
    (operands : List Datum) :
    Simulates shift (Datum.relabel shift) (evaluateOr context frame operands) fun steps =>
      evaluateOr { context with evaluate := family steps } frame
        (operands.map (Datum.relabel shift)) := by
  cases operands with
  | nil => exact .fail _
  | cons first rest =>
    exact (simulates_anyTrue hcontext frame (first :: rest)).bind fun answer =>
      .pure (Datum.bool answer)

theorem simulates_expandConditional (limit : Nat) (clauses : List Datum) :
    Simulates shift (Datum.relabel shift) (ofExcept (expandConditional limit clauses)) fun _ =>
      ofExcept (expandConditional limit (clauses.map (Datum.relabel shift))) := by
  simp only [expandConditional, expandClauses_relabel]
  exact simulates_ofExcept _

theorem simulates_done {computation : Machine Datum} {computations : Nat → Machine Datum}
    (hvalue : Simulates shift (Datum.relabel shift) computation computations) :
    Simulates shift (Step.relabel shift) (Step.done <$> computation) fun steps =>
      Step.done <$> computations steps :=
  hvalue.map fun _ => rfl

theorem simulates_evaluateSpecial (hcontext : context.IsSimulated shift family) (frame : FrameId)
    (operands : List Datum) (form : SpecialForm) :
    Simulates shift (Step.relabel shift) (evaluateSpecial context frame operands form) fun steps =>
      evaluateSpecial { context with evaluate := family steps } frame
        (operands.map (Datum.relabel shift)) form := by
  cases form with
  | define => exact simulates_done (simulates_evaluateDefine hcontext frame operands)
  | eval => exact simulates_done (simulates_evaluateEval hcontext frame operands)
  | apply => exact simulates_done (simulates_evaluateApply hcontext frame operands)
  | branch => exact simulates_evaluateBranch hcontext frame operands
  | cond =>
    exact (simulates_expandConditional context.limit operands).bind fun expansion =>
      .pure (Step.proceed expansion frame)
  | begin => exact simulates_evaluateBegin hcontext frame operands
  | lambda => exact simulates_done (simulates_makeClosure frame none operands)
  | load => exact simulates_done (simulates_evaluateLoad hcontext frame operands)
  | delay => exact simulates_done (simulates_evaluateDelay frame operands)
  | and => exact simulates_done (simulates_evaluateAnd hcontext frame operands)
  | or => exact simulates_done (simulates_evaluateOr hcontext frame operands)
  | quote => exact simulates_done (simulates_evaluateQuote operands)

end Machine

end SmallScheme
