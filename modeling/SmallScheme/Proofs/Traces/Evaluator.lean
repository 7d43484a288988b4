import SmallScheme.Evaluator.Evaluate
import SmallScheme.Proofs.Relabelling.Evaluator
import SmallScheme.Proofs.Traces.Procedures
/-!
# Evaluation and traces

No special form looks at the traces that are there already, and so no evaluation does.
-/

namespace SmallScheme

namespace Machine

variable {context : Context}

/-! ### Definitions and closures -/

theorem oblivious_symbolName (limit : Nat) (form : SpecialForm) (datum : Datum) :
    Oblivious (symbolName limit form datum) := by
  unfold symbolName
  split
  · exact .pure _
  · exact oblivious_failDiagnosing _ _ _

theorem oblivious_symbolNames (limit : Nat) (form : SpecialForm) (parameters : List Datum) :
    Oblivious (parameters.mapM (symbolName limit form)) :=
  .mapM (oblivious_symbolName limit form) parameters

theorem oblivious_makeClosure (frame : FrameId) (name : Option String) (operands : List Datum) :
    Oblivious (makeClosure context frame name operands) := by
  have hformals : ∀ parameters, Oblivious (readFormals context.limit parameters) := by
    intro parameters
    unfold readFormals
    split
    · exact (oblivious_symbolNames _ _ _).bind fun _ => .pure _
    · exact (oblivious_symbolName _ _ _).bind fun _ => .pure _
  unfold makeClosure
  split
  · exact .fail _
  · exact (hformals _).bind fun _ => oblivious_closure _ _ _ _

theorem oblivious_defineAs {computation : Machine Datum} (hvalue : Oblivious computation)
    (frame : FrameId) (name : String) : Oblivious (defineAs frame name computation) :=
  hvalue.bind fun value => (oblivious_define frame name value).bind fun _ => .pure _

theorem oblivious_defineProcedure (frame : FrameId) (target : Datum)
    (parameters body : List Datum) :
    Oblivious (defineProcedure context frame target parameters body) :=
  (oblivious_symbolName _ _ target).bind fun name =>
    (oblivious_symbolNames _ _ parameters).bind fun _ =>
      oblivious_defineAs (oblivious_closure _ _ _ _) frame name

theorem oblivious_defineVariable (hcontext : context.IsOblivious) (frame : FrameId)
    (target : Datum) (expressions : List Datum) :
    Oblivious (defineVariable context frame target expressions) := by
  have hnamed : ∀ name expression, Oblivious (evaluateNamed context frame name expression) := by
    intro name expression
    unfold evaluateNamed
    split
    · exact oblivious_makeClosure _ _ _
    · exact hcontext expression frame
  refine (oblivious_symbolName _ _ target).bind fun name => ?_
  split
  · exact oblivious_defineAs (hnamed name _) frame name
  · exact .fail _

theorem oblivious_evaluateDefine (hcontext : context.IsOblivious) (frame : FrameId)
    (operands : List Datum) : Oblivious (evaluateDefine context frame operands) := by
  unfold evaluateDefine
  split
  · exact .fail _
  · exact .fail _
  · exact oblivious_defineProcedure _ _ _ _
  · exact oblivious_defineVariable hcontext _ _ _

/-! ### Choices and sequences -/

theorem oblivious_evaluateBranch (hcontext : context.IsOblivious) (frame : FrameId)
    (operands : List Datum) : Oblivious (evaluateBranch context frame operands) := by
  unfold evaluateBranch
  split
  · exact (hcontext _ frame).bind fun _ => .pure _
  · exact (hcontext _ frame).bind fun _ => .pure _
  · exact .fail _

theorem oblivious_evaluateBegin (hcontext : context.IsOblivious) (frame : FrameId)
    (operands : List Datum) : Oblivious (evaluateBegin context frame operands) := by
  induction operands with
  | nil => exact .pure _
  | cons expression rest ih =>
    cases rest with
    | nil => exact .pure _
    | cons next rest => exact (hcontext expression frame).discard.bind fun _ => ih

theorem oblivious_allTrue (hcontext : context.IsOblivious) (frame : FrameId)
    (operands : List Datum) : Oblivious (allTrue context frame operands) := by
  induction operands with
  | nil => exact .pure _
  | cons expression rest ih =>
    refine (hcontext expression frame).bind fun value => ?_
    split
    · exact ih
    · exact .pure _

theorem oblivious_anyTrue (hcontext : context.IsOblivious) (frame : FrameId)
    (operands : List Datum) : Oblivious (anyTrue context frame operands) := by
  induction operands with
  | nil => exact .pure _
  | cons expression rest ih =>
    refine (hcontext expression frame).bind fun value => ?_
    split
    · exact .pure _
    · exact ih

theorem oblivious_evaluateApply (hcontext : context.IsOblivious) (frame : FrameId)
    (operands : List Datum) : Oblivious (evaluateApply context frame operands) := by
  unfold evaluateApply
  split
  · refine (hcontext _ frame).bind fun procedure => ?_
    refine (hcontext _ frame).bind fun list => ?_
    split
    · exact hcontext _ frame
    · exact oblivious_failPrinting _ _ _
  · exact .fail _

/-! ### Sources and files -/

theorem oblivious_evaluateWritten (hcontext : context.IsOblivious) (frame : FrameId)
    (value : Datum) : Oblivious (evaluateWritten context frame value) := by
  unfold evaluateWritten
  split
  · exact .throw _
  · exact oblivious_failPrinting _ _ _
  · refine (oblivious_checkPrintable _ _).bind fun _ => ?_
    refine (oblivious_ofExcept _).bind fun forms => ?_
    have hforms : Oblivious (evaluateForms context frame forms) :=
      .foldlM (fun _ form => hcontext form frame) forms _
    refine hforms.tryCatch fun interrupt => ?_
    split
    · exact (oblivious_record _ _ _).bind fun _ => .pure _
    · exact .throw _

theorem oblivious_evaluateEval (hcontext : context.IsOblivious) (frame : FrameId)
    (operands : List Datum) : Oblivious (evaluateEval context frame operands) := by
  unfold evaluateEval
  split
  · exact (hcontext _ frame).bind fun value => oblivious_evaluateWritten hcontext frame value
  · exact .fail _

theorem oblivious_guarded (hcontext : context.IsOblivious) (frame : FrameId) (form : Datum) :
    Oblivious (guarded (context.evaluate form frame)) := by
  refine (hcontext form frame).tryCatch fun interrupt => ?_
  split
  · exact .fail _
  · exact .throw _

theorem oblivious_attempt (hcontext : context.IsOblivious) (frame : FrameId)
    (previous form : Datum) : Oblivious (attempt context frame previous form) := by
  refine (oblivious_guarded hcontext frame form).tryCatch fun interrupt => ?_
  split
  · exact (oblivious_record _ _ _).bind fun _ => .pure _
  · exact .throw _

theorem oblivious_runForms (hcontext : context.IsOblivious) (frame : FrameId)
    (forms : List Datum) : Oblivious (runForms context frame forms) :=
  .foldlM (oblivious_attempt hcontext frame) forms _

theorem oblivious_readFileText (host : Host) (path : Path) :
    Oblivious (readFileText host path) := by
  refine (oblivious_noteOpened _).bind fun _ => ?_
  split
  · exact .pure _
  · exact .fail _
  · exact .fail _
  · exact .throw _

theorem oblivious_loadFile (hcontext : context.IsOblivious) (frame : FrameId) (name : String) :
    Oblivious (loadFile context frame name) := by
  unfold loadFile
  split
  · exact .throw _
  · refine (oblivious_readFileText _ _).bind fun text => ?_
    refine (oblivious_record _ _ _).bind fun _ => ?_
    exact (oblivious_ofExcept _).bind fun forms => oblivious_runForms hcontext frame forms

theorem oblivious_loadTarget (hcontext : context.IsOblivious) (frame : FrameId) (limit : Nat)
    (target : Datum) : Oblivious (loadTarget context frame limit target) := by
  have hload : ∀ name, Oblivious (loadLeniently context frame name) := by
    intro name
    refine (oblivious_loadFile hcontext frame name).discard.tryCatch fun interrupt => ?_
    split
    · exact oblivious_record _ _ _
    · exact .throw _
  induction limit generalizing target with
  | zero => exact .throw _
  | succ limit ih =>
    unfold loadTarget
    split
    · exact hload _
    · exact hload _
    · exact .pure _
    · split
      · exact .forM ih _
      · exact oblivious_failPrinting _ _ _

theorem oblivious_evaluateLoad (hcontext : context.IsOblivious) (frame : FrameId)
    (operands : List Datum) : Oblivious (evaluateLoad context frame operands) := by
  unfold evaluateLoad
  split
  · refine (hcontext _ frame).bind fun target => ?_
    exact (oblivious_loadTarget hcontext frame _ target).bind fun _ => .pure _
  · exact .fail _

/-! ### Quotation -/

mutual

theorem oblivious_quoteDatum (limit : Nat) : ∀ datum : Datum, Oblivious (quoteDatum limit datum)
  | .form label items => by
    rw [quoteDatum]
    split
    · exact .throw _
    · exact (oblivious_quoteItems (limit - 1) items).bind fun quoted =>
        oblivious_listOf quoted .empty
  | .symbol name => .pure _
  | .int value => (oblivious_numberOfInteger value).bind fun _ => .pure _
  | .num _ | .bool _ | .str _ | .quoted _ | .empty => .pure _
  | .absent | .unspecified | .pair .. | .builtin _ | .closure .. | .promise _ | .foreign .. =>
    oblivious_failDiagnosing limit _ _

theorem oblivious_quoteItems (limit : Nat) :
    ∀ items : List Datum, Oblivious (quoteItems limit items)
  | [] => .pure _
  | item :: rest =>
    (oblivious_quoteDatum limit item).bind fun _ =>
      (oblivious_quoteItems limit rest).bind fun _ => .pure _

end

/-! ### All forms -/

theorem oblivious_evaluateSpecial (hcontext : context.IsOblivious) (frame : FrameId)
    (operands : List Datum) (form : SpecialForm) :
    Oblivious (evaluateSpecial context frame operands form) := by
  cases form with
  | define => exact (oblivious_evaluateDefine hcontext frame operands).map _
  | eval => exact (oblivious_evaluateEval hcontext frame operands).map _
  | apply => exact (oblivious_evaluateApply hcontext frame operands).map _
  | branch => exact oblivious_evaluateBranch hcontext frame operands
  | cond => exact (oblivious_ofExcept _).bind fun _ => .pure _
  | begin => exact oblivious_evaluateBegin hcontext frame operands
  | lambda => exact (oblivious_makeClosure frame none operands).map _
  | load => exact (oblivious_evaluateLoad hcontext frame operands).map _
  | delay =>
    refine .map ?_ _
    unfold evaluateDelay
    split
    · exact oblivious_newPromise _ _
    · exact .fail _
  | and =>
    refine .map ?_ _
    unfold evaluateAnd
    split
    · exact .fail _
    · exact (oblivious_allTrue hcontext frame operands).bind fun _ => .pure _
  | or =>
    refine .map ?_ _
    unfold evaluateOr
    split
    · exact .fail _
    · exact (oblivious_anyTrue hcontext frame operands).bind fun _ => .pure _
  | quote =>
    refine .map ?_ _
    unfold evaluateQuote
    split
    · exact oblivious_quoteDatum _ _
    · exact .fail _

/-! ### Evaluation -/

theorem oblivious_evaluateApplication (hcontext : context.IsOblivious) (frame : FrameId)
    (operator : Datum) (operands : List Datum) :
    Oblivious (evaluateApplication context frame operator operands) := by
  refine (hcontext operator frame).bind fun callee => ?_
  have harguments : Oblivious (operands.mapM fun operand => context.evaluate operand frame) :=
    .mapM (fun operand => hcontext operand frame) operands
  exact harguments.bind fun arguments => oblivious_applyProcedure hcontext callee arguments

theorem oblivious_step (hcontext : context.IsOblivious) (expression : Datum) (frame : FrameId) :
    Oblivious (step context expression frame) := by
  cases expression with
  | int value => exact (oblivious_numberOfInteger value).bind fun _ => .pure _
  | symbol name => exact (oblivious_lookup frame name).bind fun _ => .pure _
  | form label items =>
    cases items with
    | nil => exact .pure _
    | cons head operands =>
      rw [step_form]
      split
      · exact oblivious_evaluateSpecial hcontext frame operands _
      · exact oblivious_evaluateApplication hcontext frame head operands
  | _ => exact .pure _

theorem oblivious_iterate (hcontext : context.IsOblivious) (steps : Nat) (expression : Datum)
    (frame : FrameId) : Oblivious (iterate (step context) steps expression frame) := by
  induction steps generalizing expression frame with
  | zero => exact .throw _
  | succ steps ih =>
    refine (oblivious_step hcontext expression frame).bind fun next => ?_
    cases next with
    | done value => exact .pure value
    | proceed expression frame => exact ih expression frame

/-- An evaluation does the same whatever traces are there already, and leaves its own behind them.
-/
theorem oblivious_evaluate (host : Host) (steps limit : Nat) (expression : Datum)
    (frame : FrameId) : Oblivious (evaluate host steps limit expression frame) := by
  induction limit generalizing expression frame with
  | zero => exact .throw _
  | succ limit ih =>
    have hcontext : Context.IsOblivious { host, limit, evaluate := evaluate host steps limit } := ih
    exact oblivious_iterate hcontext steps expression frame

end Machine

end SmallScheme
