import SmallScheme.Evaluator.Forms
import SmallScheme.Proofs.Sharing.Procedures
/-!
# Special forms on cells

Source text has no cells. So every special form on operands of a heap ends with data of a larger
one, as long as the evaluations inside it do, whatever else it reads and evaluates on the way.
-/

namespace SmallScheme

open Machine

variable {heap : Heap}

/-! ### Clauses -/

/-- What clauses stand for is made of them, so it has no cells that they do not have. -/
theorem Datum.livesIn_of_expandClause {limit number : Nat} {isLast : Bool}
    {clause alternative expansion : Datum} (hclause : clause.LivesIn heap)
    (halternative : alternative.LivesIn heap)
    (hexpand : expandClause limit number isLast alternative clause = .ok expansion) :
    expansion.LivesIn heap := by
  have hbranch : ∀ {test : Datum} {body : List Datum}, (∀ item ∈ test :: body, item.LivesIn heap) →
      (form none [.keyword .branch, test, .ofBody body, alternative]).LivesIn heap := by
    intro test body hitems
    rw [List.forall_mem_cons] at hitems
    simp only [livesIn_form, List.forall_mem_cons]
    exact ⟨livesIn_of_cells_eq_nil rfl, hitems.1, livesIn_ofBody hitems.2, halternative,
      fun _ hmem => absurd hmem List.not_mem_nil⟩
  unfold expandClause at hexpand
  split at hexpand
  · cases hexpand
  · rw [livesIn_form] at hclause
    split at hexpand
    · cases hexpand
      exact hbranch hclause
    · split at hexpand <;> cases hexpand
      exact livesIn_ofBody (List.forall_mem_cons.1 hclause).2
  · cases hexpand
    exact hbranch (livesIn_form.1 hclause)
  · split at hexpand <;> cases hexpand

theorem Datum.livesIn_of_expandClauses {limit number : Nat} {clauses : List Datum}
    {expansion : Datum} (hclauses : ∀ clause ∈ clauses, clause.LivesIn heap)
    (hexpand : expandClauses limit number clauses = .ok expansion) : expansion.LivesIn heap := by
  induction clauses generalizing number expansion with
  | nil =>
    cases hexpand
    exact livesIn_of_cells_eq_nil rfl
  | cons clause rest ih =>
    rw [List.forall_mem_cons] at hclauses
    rw [expandClauses] at hexpand
    cases hrest : expandClauses limit (number + 1) rest with
    | error interrupt =>
      rw [hrest] at hexpand
      cases hexpand
    | ok alternative =>
      rw [hrest] at hexpand
      exact livesIn_of_expandClause hclauses.1 (ih hclauses.2 hrest) hexpand

namespace Machine

variable {context : Context} {store : Store} {operands : List Datum}

/-! ### Definitions and closures -/

theorem keeps_symbolName (hlives : store.LivesIn heap) (limit : Nat) (form : SpecialForm)
    (datum : Datum) : Keeps heap store (symbolName limit form datum) fun _ _ => True := by
  unfold symbolName
  split
  · exact .pure hlives trivial
  · exact keeps_failDiagnosing hlives _ _ _

theorem keeps_symbolNames (hlives : store.LivesIn heap) (limit : Nat) (form : SpecialForm)
    (parameters : List Datum) :
    Keeps heap store (parameters.mapM (symbolName limit form)) fun _ _ => True := by
  have heach : Keeps heap store (parameters.mapM (symbolName limit form)) fun _ names =>
      ∀ name ∈ names, True :=
    .mapM (fun _ _ _ _ _ => trivial) hlives fun _ _ _ hlives parameter _ =>
      keeps_symbolName hlives limit form parameter
  exact heach.mono fun _ _ _ => trivial

theorem keeps_readFormals (hlives : store.LivesIn heap) (limit : Nat) (parameters : Datum) :
    Keeps heap store (readFormals limit parameters) fun _ _ => True := by
  unfold readFormals
  split
  · exact (keeps_symbolNames hlives _ _ _).bind fun _ _ _ _ hlives _ => .pure hlives trivial
  · exact (keeps_symbolName hlives _ _ _).bind fun _ _ _ _ hlives _ => .pure hlives trivial

theorem keepsDatum_makeClosure (hlives : store.LivesIn heap) (frame : FrameId)
    (name : Option String) (hoperands : ∀ operand ∈ operands, operand.LivesIn heap) :
    KeepsDatum heap store (makeClosure context frame name operands) := by
  cases operands with
  | nil => exact .fail hlives _
  | cons parameters body =>
    rw [List.forall_mem_cons] at hoperands
    refine (keeps_readFormals hlives _ parameters).bind fun _ _ formals hextends hlives _ => ?_
    exact keepsDatum_closure hlives name formals frame fun form hmem =>
      (hoperands.2 form hmem).mono hextends

theorem keepsDatum_defineAs {computation : Machine Datum}
    (hvalue : KeepsDatum heap store computation) (frame : FrameId) (name : String) :
    KeepsDatum heap store (defineAs frame name computation) :=
  hvalue.bind fun _ _ _ _ hlives hvalue =>
    (keeps_define hlives frame name hvalue).bind fun _ _ _ _ hlives _ =>
      keepsDatum_atom hlives rfl

theorem keepsDatum_defineProcedure (hlives : store.LivesIn heap) (frame : FrameId)
    (target : Datum) (parameters : List Datum) {body : List Datum}
    (hbody : ∀ form ∈ body, form.LivesIn heap) :
    KeepsDatum heap store (defineProcedure context frame target parameters body) := by
  refine (keeps_symbolName hlives _ _ target).bind fun _ _ name hextends hlives _ => ?_
  refine (keeps_symbolNames hlives _ _ parameters).bind fun _ _ names hextends' hlives _ => ?_
  exact keepsDatum_defineAs (keepsDatum_closure hlives _ _ frame fun form hmem =>
    (hbody form hmem).mono (hextends.trans hextends')) frame name

theorem keepsDatum_evaluateNamed (hcontext : context.KeepsCells) (hlives : store.LivesIn heap)
    (frame : FrameId) (name : String) {expression : Datum}
    (hexpression : expression.LivesIn heap) :
    KeepsDatum heap store (evaluateNamed context frame name expression) := by
  unfold evaluateNamed
  split
  · next operands hlambda =>
    refine keepsDatum_makeClosure hlives frame _ ?_
    rw [Datum.operandsOf?.eq_def] at hlambda
    split at hlambda
    · split at hlambda <;> cases hlambda
      exact (List.forall_mem_cons.1 (Datum.livesIn_form.1 hexpression)).2
    · cases hlambda
  · exact hcontext hlives hexpression frame

theorem keepsDatum_defineVariable (hcontext : context.KeepsCells) (hlives : store.LivesIn heap)
    (frame : FrameId) (target : Datum) {expressions : List Datum}
    (hexpressions : ∀ expression ∈ expressions, expression.LivesIn heap) :
    KeepsDatum heap store (defineVariable context frame target expressions) := by
  refine (keeps_symbolName hlives _ _ target).bind fun _ _ name hextends hlives _ => ?_
  split
  · have hexpression := (List.forall_mem_singleton.1 hexpressions).mono hextends
    exact keepsDatum_defineAs
      (keepsDatum_evaluateNamed hcontext hlives frame name hexpression) frame name
  · exact .fail hlives _

theorem keepsDatum_evaluateDefine (hcontext : context.KeepsCells) (hlives : store.LivesIn heap)
    (frame : FrameId) (hoperands : ∀ operand ∈ operands, operand.LivesIn heap) :
    KeepsDatum heap store (evaluateDefine context frame operands) := by
  unfold evaluateDefine
  split
  · exact .fail hlives _
  · exact .fail hlives _
  · rw [List.forall_mem_cons] at hoperands
    exact keepsDatum_defineProcedure hlives frame _ _ hoperands.2
  · rw [List.forall_mem_cons] at hoperands
    exact keepsDatum_defineVariable hcontext hlives frame _ hoperands.2

/-! ### Choices and sequences -/

theorem keeps_evaluateBranch (hcontext : context.KeepsCells) (hlives : store.LivesIn heap)
    (frame : FrameId) (hoperands : ∀ operand ∈ operands, operand.LivesIn heap) :
    Keeps heap store (evaluateBranch context frame operands) fun later step =>
      step.LivesIn later := by
  unfold evaluateBranch
  split
  · next test consequent =>
    simp only [List.forall_mem_cons] at hoperands
    refine (hcontext hlives hoperands.1 frame).bind fun _ _ value hextends hlives _ => ?_
    refine .pure hlives ?_
    split
    · exact hoperands.2.1.mono hextends
    · exact Datum.livesIn_of_cells_eq_nil rfl
  · next test consequent alternative =>
    simp only [List.forall_mem_cons] at hoperands
    refine (hcontext hlives hoperands.1 frame).bind fun _ _ value hextends hlives _ => ?_
    refine .pure hlives (Datum.LivesIn.mono ?_ hextends)
    split
    · exact hoperands.2.1
    · exact hoperands.2.2.1
  · exact .fail hlives _

theorem keeps_evaluateBegin (hcontext : context.KeepsCells) (hlives : store.LivesIn heap)
    (frame : FrameId) (hoperands : ∀ operand ∈ operands, operand.LivesIn heap) :
    Keeps heap store (evaluateBegin context frame operands) fun later step =>
      step.LivesIn later := by
  induction operands generalizing heap store with
  | nil => exact .pure hlives (Datum.livesIn_of_cells_eq_nil rfl)
  | cons expression rest ih =>
    rw [List.forall_mem_cons] at hoperands
    cases rest with
    | nil => exact .pure hlives hoperands.1
    | cons next rest =>
      refine (hcontext hlives hoperands.1 frame).discard.bind fun _ _ _ hextends hlives _ => ?_
      exact ih hlives fun operand hmem => (hoperands.2 operand hmem).mono hextends

theorem keeps_allTrue (hcontext : context.KeepsCells) (hlives : store.LivesIn heap)
    (frame : FrameId) (hoperands : ∀ operand ∈ operands, operand.LivesIn heap) :
    Keeps heap store (allTrue context frame operands) fun _ _ => True := by
  induction operands generalizing heap store with
  | nil => exact .pure hlives trivial
  | cons expression rest ih =>
    rw [List.forall_mem_cons] at hoperands
    refine (hcontext hlives hoperands.1 frame).bind fun _ _ _ hextends hlives _ => ?_
    split
    · exact ih hlives fun operand hmem => (hoperands.2 operand hmem).mono hextends
    · exact .pure hlives trivial

theorem keeps_anyTrue (hcontext : context.KeepsCells) (hlives : store.LivesIn heap)
    (frame : FrameId) (hoperands : ∀ operand ∈ operands, operand.LivesIn heap) :
    Keeps heap store (anyTrue context frame operands) fun _ _ => True := by
  induction operands generalizing heap store with
  | nil => exact .pure hlives trivial
  | cons expression rest ih =>
    rw [List.forall_mem_cons] at hoperands
    refine (hcontext hlives hoperands.1 frame).bind fun _ _ _ hextends hlives _ => ?_
    split
    · exact .pure hlives trivial
    · exact ih hlives fun operand hmem => (hoperands.2 operand hmem).mono hextends

theorem keepsDatum_evaluateApply (hcontext : context.KeepsCells) (hlives : store.LivesIn heap)
    (frame : FrameId) (hoperands : ∀ operand ∈ operands, operand.LivesIn heap) :
    KeepsDatum heap store (evaluateApply context frame operands) := by
  unfold evaluateApply
  split
  · next procedureExpression listExpression =>
    simp only [List.forall_mem_cons] at hoperands
    refine (hcontext hlives hoperands.1 frame).bind ?_
    intro _ _ procedure hextends hlives hprocedure
    refine (hcontext hlives (hoperands.2.1.mono hextends) frame).bind ?_
    intro _ _ list hextends hlives hlist
    split
    · -- the application shares its cells with the values that it is made of
      refine hcontext hlives (Datum.livesIn_form.2 (List.forall_mem_cons.2 ⟨?_, ?_⟩)) frame
      · exact hprocedure.mono hextends
      · exact fun item hmem => hlist.of_mem_items hmem
    · exact keeps_failPrinting hlives _ _ _
  · exact .fail hlives _

/-! ### Sources and files -/

theorem keepsDatum_evaluateForms (hcontext : context.KeepsCells) (hlives : store.LivesIn heap)
    (frame : FrameId) {forms : List Datum} (hforms : ∀ form ∈ forms, form.IsSyntax) :
    KeepsDatum heap store (evaluateForms context frame forms) :=
  .foldlM hlives (Datum.livesIn_of_cells_eq_nil rfl) fun _ _ _ hlives _ _ form hmem =>
    hcontext hlives (hforms form hmem).livesIn frame

theorem keeps_readSource (hlives : store.LivesIn heap) (limit : Nat) (text : String) :
    Keeps heap store (ofExcept (readSource limit text)) fun _ forms =>
      ∀ form ∈ forms, form.IsSyntax :=
  keeps_ofExcept hlives fun _ hread => isSyntax_of_readSource hread

theorem keepsDatum_evaluateWritten (hcontext : context.KeepsCells) (hlives : store.LivesIn heap)
    (frame : FrameId) (value : Datum) :
    KeepsDatum heap store (evaluateWritten context frame value) := by
  unfold evaluateWritten
  split
  · exact .throw hlives _
  · exact keeps_failPrinting hlives _ _ _
  · refine (keeps_checkPrintable hlives _ value).bind fun _ _ _ _ hlives _ => ?_
    refine (keeps_readSource hlives _ _).bind fun _ _ forms _ hlives hforms => ?_
    refine (keepsDatum_evaluateForms hcontext hlives frame hforms).tryCatch ?_
    intro _ _ interrupt _ hlives
    split
    · exact (keeps_record hlives _ _ _).bind fun _ _ _ _ hlives _ => keepsDatum_atom hlives rfl
    · exact .throw hlives _

theorem keepsDatum_evaluateEval (hcontext : context.KeepsCells) (hlives : store.LivesIn heap)
    (frame : FrameId) (hoperands : ∀ operand ∈ operands, operand.LivesIn heap) :
    KeepsDatum heap store (evaluateEval context frame operands) := by
  unfold evaluateEval
  split
  · have hoperand := List.forall_mem_singleton.1 hoperands
    exact (hcontext hlives hoperand frame).bind fun _ _ value _ hlives _ =>
      keepsDatum_evaluateWritten hcontext hlives frame value
  · exact .fail hlives _

theorem keepsDatum_guarded {evaluation : Machine Datum}
    (hevaluation : KeepsDatum heap store evaluation) :
    KeepsDatum heap store (guarded evaluation) := by
  refine hevaluation.tryCatch fun _ _ interrupt _ hlives => ?_
  split
  · exact .fail hlives _
  · exact .throw hlives _

theorem keepsDatum_attempt (hcontext : context.KeepsCells) (hlives : store.LivesIn heap)
    (frame : FrameId) {previous form : Datum} (hprevious : previous.LivesIn heap)
    (hform : form.LivesIn heap) : KeepsDatum heap store (attempt context frame previous form) := by
  refine (keepsDatum_guarded (hcontext hlives hform frame)).tryCatch ?_
  intro _ _ interrupt hextends hlives
  split
  · refine (keeps_record hlives _ _ _).bind fun _ _ _ hextends' hlives _ => ?_
    exact .pure hlives (hprevious.mono (hextends.trans hextends'))
  · exact .throw hlives _

theorem keepsDatum_runForms (hcontext : context.KeepsCells) (hlives : store.LivesIn heap)
    (frame : FrameId) {forms : List Datum} (hforms : ∀ form ∈ forms, form.IsSyntax) :
    KeepsDatum heap store (runForms context frame forms) :=
  .foldlM hlives (Datum.livesIn_of_cells_eq_nil rfl) fun _ _ _ hlives _ hprevious form hmem =>
    keepsDatum_attempt hcontext hlives frame hprevious (hforms form hmem).livesIn

theorem keeps_readFileText (hlives : store.LivesIn heap) (host : Host) (path : Path) :
    Keeps heap store (readFileText host path) fun _ _ => True := by
  refine (keeps_noteOpened hlives _).bind fun _ _ _ _ hlives _ => ?_
  split
  · exact .pure hlives trivial
  · exact .fail hlives _
  · exact .fail hlives _
  · exact .throw hlives _

theorem keepsDatum_loadFile (hcontext : context.KeepsCells) (hlives : store.LivesIn heap)
    (frame : FrameId) (name : String) : KeepsDatum heap store (loadFile context frame name) := by
  unfold loadFile
  split
  · exact .throw hlives _
  · refine (keeps_readFileText hlives _ _).bind fun _ _ text _ hlives _ => ?_
    refine (keeps_record hlives _ _ _).bind fun _ _ _ _ hlives _ => ?_
    refine (keeps_readSource hlives _ _).bind fun _ _ forms _ hlives hforms => ?_
    exact keepsDatum_runForms hcontext hlives frame hforms

theorem keeps_loadLeniently (hcontext : context.KeepsCells) (hlives : store.LivesIn heap)
    (frame : FrameId) (name : String) :
    Keeps heap store (loadLeniently context frame name) fun _ _ => True := by
  unfold loadLeniently
  refine (keepsDatum_loadFile hcontext hlives frame name).discard.tryCatch ?_
  intro _ _ interrupt _ hlives
  split
  · exact keeps_record hlives _ _ _
  · exact .throw hlives _

theorem keeps_loadTarget (hcontext : context.KeepsCells) (hlives : store.LivesIn heap)
    (frame : FrameId) (limit : Nat) (datum : Datum) :
    Keeps heap store (loadTarget context frame limit datum) fun _ _ => True := by
  induction limit generalizing heap store datum with
  | zero => exact .throw hlives _
  | succ limit ih =>
    unfold loadTarget
    split
    · exact keeps_loadLeniently hcontext hlives frame _
    · exact keeps_loadLeniently hcontext hlives frame _
    · exact .pure hlives trivial
    · split
      · exact .forM hlives fun _ _ hlives item _ => ih hlives item
      · exact keeps_failPrinting hlives _ _ _

theorem keepsDatum_evaluateLoad (hcontext : context.KeepsCells) (hlives : store.LivesIn heap)
    (frame : FrameId) (hoperands : ∀ operand ∈ operands, operand.LivesIn heap) :
    KeepsDatum heap store (evaluateLoad context frame operands) := by
  unfold evaluateLoad
  split
  · have hoperand := List.forall_mem_singleton.1 hoperands
    refine (hcontext hlives hoperand frame).bind fun _ _ target _ hlives _ => ?_
    exact (keeps_loadTarget hcontext hlives frame _ target).bind fun _ _ _ _ hlives _ =>
      keepsDatum_atom hlives rfl
  · exact .fail hlives _

/-! ### Quotation -/

theorem keeps_quoteItems {limit : Nat} {items : List Datum}
    (hquote : ∀ item ∈ items, ∀ {heap : Heap} {store : Store}, store.LivesIn heap →
      KeepsDatum heap store (quoteDatum limit item)) (hlives : store.LivesIn heap) :
    Keeps heap store (quoteItems limit items) fun later quoted =>
      ∀ value ∈ quoted, value.LivesIn later := by
  induction items generalizing heap store with
  | nil => exact .pure hlives fun _ hmem => absurd hmem List.not_mem_nil
  | cons item rest ih =>
    rw [List.forall_mem_cons] at hquote
    rw [quoteItems]
    refine (hquote.1 hlives).bind fun _ _ first _ hlives hfirst => ?_
    refine (ih hquote.2 hlives).bind fun _ _ others hextends hlives hothers => ?_
    exact .pure hlives (List.forall_mem_cons.2 ⟨hfirst.mono hextends, hothers⟩)

/-- A quoted form is a new list, and no cell of what is quoted is left in it. -/
theorem keepsDatum_quoteDatum (hlives : store.LivesIn heap) (limit : Nat) (datum : Datum) :
    KeepsDatum heap store (quoteDatum limit datum) := by
  induction limit using Nat.strongRecOn generalizing heap store datum with
  | ind limit ih =>
    unfold quoteDatum
    split
    · next items =>
      split
      · exact .throw hlives _
      · next hlimit =>
        have hitems : Keeps heap store (quoteItems (limit - 1) items) fun later quoted =>
            ∀ value ∈ quoted, value.LivesIn later :=
          keeps_quoteItems
            (fun item _ _ _ hlives => ih _ (Nat.pred_lt hlimit) hlives item) hlives
        exact hitems.bind fun _ _ quoted _ hlives hquoted =>
          keepsDatum_listOf hlives hquoted (Datum.livesIn_of_cells_eq_nil rfl)
    · exact keepsDatum_atom hlives rfl
    · exact (keeps_orBreakDown hlives _ _).bind fun _ _ _ _ hlives _ => keepsDatum_atom hlives rfl
    iterate 5 exact keepsDatum_atom hlives rfl
    exact keeps_failDiagnosing hlives _ _ _

/-! ### All forms -/

theorem keeps_done {computation : Machine Datum} (hvalue : KeepsDatum heap store computation) :
    Keeps heap store (Step.done <$> computation) fun later step => step.LivesIn later :=
  hvalue.map fun _ _ hvalue => hvalue

theorem keeps_evaluateSpecial (hcontext : context.KeepsCells) (hlives : store.LivesIn heap)
    (frame : FrameId) (hoperands : ∀ operand ∈ operands, operand.LivesIn heap)
    (form : SpecialForm) :
    Keeps heap store (evaluateSpecial context frame operands form) fun later step =>
      step.LivesIn later := by
  cases form with
  | define => exact keeps_done (keepsDatum_evaluateDefine hcontext hlives frame hoperands)
  | eval => exact keeps_done (keepsDatum_evaluateEval hcontext hlives frame hoperands)
  | apply => exact keeps_done (keepsDatum_evaluateApply hcontext hlives frame hoperands)
  | branch => exact keeps_evaluateBranch hcontext hlives frame hoperands
  | cond =>
    have hexpansion : Keeps heap store (ofExcept (expandConditional context.limit operands))
        fun later expansion => expansion.LivesIn later :=
      keeps_ofExcept hlives fun _ hexpand => Datum.livesIn_of_expandClauses hoperands hexpand
    exact hexpansion.bind fun _ _ _ _ hlives hexpansion => .pure hlives hexpansion
  | begin => exact keeps_evaluateBegin hcontext hlives frame hoperands
  | lambda => exact keeps_done (keepsDatum_makeClosure hlives frame none hoperands)
  | load => exact keeps_done (keepsDatum_evaluateLoad hcontext hlives frame hoperands)
  | delay =>
    refine keeps_done ?_
    unfold evaluateDelay
    split
    · exact keepsDatum_newPromise hlives frame (List.forall_mem_singleton.1 hoperands)
    · exact .fail hlives _
  | and =>
    refine keeps_done ?_
    unfold evaluateAnd
    split
    · exact .fail hlives _
    · exact (keeps_allTrue hcontext hlives frame hoperands).bind fun _ _ _ _ hlives _ =>
        keepsDatum_atom hlives rfl
  | or =>
    refine keeps_done ?_
    unfold evaluateOr
    split
    · exact .fail hlives _
    · exact (keeps_anyTrue hcontext hlives frame hoperands).bind fun _ _ _ _ hlives _ =>
        keepsDatum_atom hlives rfl
  | quote =>
    refine keeps_done ?_
    unfold evaluateQuote
    split
    · exact keepsDatum_quoteDatum hlives _ _
    · exact .fail hlives _

end Machine

end SmallScheme
