import SmallScheme.Evaluator.Forms
import SmallScheme.Proofs.Soundness.Builtins
/-!
# Special forms on syntax

Every special form is safe on operands that are syntax, and what it ends with is fit for the next
step, as long as the evaluations inside it are safe.
-/

namespace SmallScheme

open Machine

/-! ### Interrupts of reading and of expansion -/

theorem Interrupt.IsOfText.isExpected {interrupt : Interrupt} (htext : interrupt.IsOfText) :
    interrupt.IsExpected := by
  cases interrupt with
  | breakdown => exact htext.elim
  | _ => trivial

theorem Datum.IsSyntax.of_mem_form {label : Option Label} {items : List Datum}
    (hwritten : (Datum.form label items).IsSyntax) : ∀ item ∈ items, item.IsSyntax := by
  cases hwritten with
  | form hitems => exact hitems

/-- What clauses stand for can be evaluated, and a defect of theirs is a fault. -/
theorem safe_expandClause {limit number : Nat} {clause alternative : Datum} {store : Store}
    (hsound : store.Sound) (hclause : clause.IsSyntax)
    (halternative : alternative.IsExpression store) (isLast : Bool) :
    Safe store (Machine.ofExcept (expandClause limit number isLast alternative clause))
      fun after expansion => expansion.IsExpression after := by
  have hbranch : ∀ {test : Datum} {body : List Datum}, (∀ item ∈ test :: body, item.IsSyntax) →
      (Datum.form none [.keyword .branch, test, .ofBody body, alternative]).IsExpression store := by
    intro test body hitems
    rw [List.forall_mem_cons] at hitems
    exact .branch (.source hitems.1) (Datum.isExpression_ofBody hitems.2) halternative
  unfold expandClause
  split
  · exact .fail hsound _
  · have hitems := hclause.of_mem_form
    split
    · exact .pure hsound (hbranch hitems)
    · split
      · exact .pure hsound (Datum.isExpression_ofBody (List.forall_mem_cons.1 hitems).2)
      · exact .fail hsound _
  · exact .pure hsound (hbranch hclause.of_mem_form)
  · split
    · exact .throw hsound trivial
    · exact .fail hsound _

theorem safe_expandClauses {limit : Nat} {clauses : List Datum} {store : Store}
    (hsound : store.Sound) (hclauses : ∀ clause ∈ clauses, clause.IsSyntax) (number : Nat) :
    Safe store (Machine.ofExcept (expandClauses limit number clauses)) fun after expansion =>
      expansion.IsExpression after := by
  induction clauses generalizing number with
  | nil => exact .pure hsound (.value .unspecified)
  | cons clause rest ih =>
    rw [List.forall_mem_cons] at hclauses
    have hrest := ih hclauses.2 (number + 1)
    rw [expandClauses]
    cases hexpand : expandClauses limit (number + 1) rest with
    | error interrupt =>
      rw [hexpand] at hrest
      exact hrest
    | ok alternative =>
      rw [hexpand] at hrest
      exact safe_expandClause hsound hclauses.1 (hrest.ok rfl).2.2 rest.isEmpty

namespace Machine

variable {context : Context} {store : Store} {frame : FrameId} {operands : List Datum}

/-! ### Definitions and closures -/

theorem safe_symbolName (hsound : store.Sound) (limit : Nat) (form : SpecialForm) {datum : Datum}
    (hwritten : datum.IsSyntax) :
    Safe store (symbolName limit form datum) fun _ name => IsIdentifier name := by
  cases hwritten with
  | symbol hname => exact .pure hsound hname
  | _ => exact safe_failDiagnosing hsound _ _ _

theorem safe_symbolNames (hsound : store.Sound) (limit : Nat) (form : SpecialForm)
    {parameters : List Datum} (hwritten : ∀ parameter ∈ parameters, parameter.IsSyntax) :
    Safe store (parameters.mapM (symbolName limit form)) fun _ names =>
      ∀ name ∈ names, IsIdentifier name :=
  .mapM (fun _ _ _ _ hname => hname) hsound
    fun _ _ hsound parameter hmem => safe_symbolName hsound _ _ (hwritten parameter hmem)

theorem safe_readFormals (hsound : store.Sound) (limit : Nat) {parameters : Datum}
    (hwritten : parameters.IsSyntax) :
    Safe store (readFormals limit parameters) fun _ formals =>
      ∀ formal ∈ formals.names, IsIdentifier formal := by
  unfold readFormals
  split
  · exact (safe_symbolNames hsound _ _ hwritten.of_mem_form).bind fun _ _ _ hsound hnames =>
      .pure hsound hnames
  · exact (safe_symbolName hsound _ _ hwritten).bind fun _ _ _ hsound hname =>
      .pure hsound (List.forall_mem_singleton.2 hname)

theorem givesValue_makeClosure (hsound : store.Sound) (hframe : frame < store.frames.size)
    {name : Option String} (hname : ∀ text ∈ name, IsIdentifier text)
    (hoperands : ∀ operand ∈ operands, operand.IsSyntax) :
    GivesValue store (makeClosure context frame name operands) := by
  cases operands with
  | nil => exact .fail hsound _
  | cons parameters body =>
    rw [List.forall_mem_cons] at hoperands
    exact (safe_readFormals hsound _ hoperands.1).bind fun _ _ hextends hsound hformals =>
      givesValue_closure hsound hname hformals hoperands.2 (hextends.frame_lt hframe)

theorem givesValue_defineAs {computation : Machine Datum} (hvalue : GivesValue store computation)
    (frame : FrameId) (name : String) : GivesValue store (defineAs frame name computation) :=
  hvalue.bind fun _ _ _ hsound hvalue =>
    (safe_define hsound frame name hvalue).bind fun _ _ _ hsound _ => .pure hsound .unspecified

theorem givesValue_defineProcedure (hsound : store.Sound) (hframe : frame < store.frames.size)
    {target : Datum} {parameters body : List Datum} (htarget : target.IsSyntax)
    (hparameters : ∀ parameter ∈ parameters, parameter.IsSyntax)
    (hbody : ∀ form ∈ body, form.IsSyntax) :
    GivesValue store (defineProcedure context frame target parameters body) := by
  refine (safe_symbolName hsound _ _ htarget).bind fun _ name hextends hsound hname => ?_
  have hframe := hextends.frame_lt hframe
  refine (safe_symbolNames hsound _ _ hparameters).bind fun _ names hextends hsound hnames => ?_
  have hformals : ∀ formal ∈ (Formals.fixed names).names, IsIdentifier formal := hnames
  refine givesValue_defineAs (givesValue_closure hsound ?_ hformals hbody ?_) _ _
  · rintro text ⟨⟩
    exact hname
  · exact hextends.frame_lt hframe

theorem givesValue_evaluateNamed (hcontext : context.IsSafe) (hsound : store.Sound)
    (hframe : frame < store.frames.size) {name : String} (hname : IsIdentifier name)
    {expression : Datum} (hexpression : expression.IsSyntax) :
    GivesValue store (evaluateNamed context frame name expression) := by
  unfold evaluateNamed
  split
  · next operands hlambda =>
    refine givesValue_makeClosure hsound hframe ?_ ?_
    · rintro text ⟨⟩
      exact hname
    · rw [Datum.operandsOf?.eq_def] at hlambda
      split at hlambda
      · split at hlambda <;> cases hlambda
        exact (List.forall_mem_cons.1 hexpression.of_mem_form).2
      · cases hlambda
  · exact hcontext hsound (.source hexpression) hframe

theorem givesValue_defineVariable (hcontext : context.IsSafe) (hsound : store.Sound)
    (hframe : frame < store.frames.size) {target : Datum} {expressions : List Datum}
    (htarget : target.IsSyntax) (hexpressions : ∀ expression ∈ expressions, expression.IsSyntax) :
    GivesValue store (defineVariable context frame target expressions) := by
  refine (safe_symbolName hsound _ _ htarget).bind fun _ name hextends hsound hname => ?_
  split
  · have hexpression := List.forall_mem_singleton.1 hexpressions
    exact givesValue_defineAs
      (givesValue_evaluateNamed hcontext hsound (hextends.frame_lt hframe) hname hexpression) _ _
  · exact .fail hsound _

theorem givesValue_evaluateDefine (hcontext : context.IsSafe) (hsound : store.Sound)
    (hframe : frame < store.frames.size) (hoperands : ∀ operand ∈ operands, operand.IsSyntax) :
    GivesValue store (evaluateDefine context frame operands) := by
  unfold evaluateDefine
  split
  · exact .fail hsound _
  · exact .fail hsound _
  · rw [List.forall_mem_cons] at hoperands
    have hitems := List.forall_mem_cons.1 hoperands.1.of_mem_form
    exact givesValue_defineProcedure hsound hframe hitems.1 hitems.2 hoperands.2
  · rw [List.forall_mem_cons] at hoperands
    exact givesValue_defineVariable hcontext hsound hframe hoperands.1 hoperands.2

/-! ### Choices and sequences -/

theorem safe_evaluateBranch (hcontext : context.IsSafe) (hsound : store.Sound)
    (hframe : frame < store.frames.size)
    (hoperands : ∀ operand ∈ operands, operand.IsExpression store) :
    Safe store (evaluateBranch context frame operands) fun after step => step.IsSound after := by
  unfold evaluateBranch
  split
  · next test consequent =>
    simp only [List.forall_mem_cons] at hoperands
    refine (hcontext hsound hoperands.1 hframe).bind fun _ value hextends hsound _ => ?_
    refine .pure hsound ?_
    split
    · exact ⟨hoperands.2.1.mono hextends, hextends.frame_lt hframe⟩
    · exact .unspecified
  · next test consequent alternative =>
    simp only [List.forall_mem_cons] at hoperands
    refine (hcontext hsound hoperands.1 hframe).bind fun _ value hextends hsound _ => ?_
    refine .pure hsound ⟨?_, hextends.frame_lt hframe⟩
    split
    · exact hoperands.2.1.mono hextends
    · exact hoperands.2.2.1.mono hextends
  · exact .fail hsound _

theorem safe_evaluateBegin (hcontext : context.IsSafe) (hsound : store.Sound)
    (hframe : frame < store.frames.size) (hoperands : ∀ operand ∈ operands, operand.IsSyntax) :
    Safe store (evaluateBegin context frame operands) fun after step => step.IsSound after := by
  fun_induction evaluateBegin context frame operands generalizing store with
  | case1 => exact .pure hsound .unspecified
  | case2 last => exact .pure hsound ⟨.source (List.forall_mem_singleton.1 hoperands), hframe⟩
  | case3 expression rest _ ih =>
    rw [List.forall_mem_cons] at hoperands
    refine (hcontext hsound (.source hoperands.1) hframe).discard.bind ?_
    intro _ _ hextends hsound _
    exact ih hsound (hextends.frame_lt hframe) hoperands.2

theorem safe_allTrue (hcontext : context.IsSafe) (hsound : store.Sound)
    (hframe : frame < store.frames.size) (hoperands : ∀ operand ∈ operands, operand.IsSyntax) :
    Safe store (allTrue context frame operands) fun _ _ => True := by
  induction operands generalizing store with
  | nil => exact .pure hsound trivial
  | cons expression rest ih =>
    rw [List.forall_mem_cons] at hoperands
    refine (hcontext hsound (.source hoperands.1) hframe).bind fun _ _ hextends hsound _ => ?_
    split
    · exact ih hsound (hextends.frame_lt hframe) hoperands.2
    · exact .pure hsound trivial

theorem safe_anyTrue (hcontext : context.IsSafe) (hsound : store.Sound)
    (hframe : frame < store.frames.size) (hoperands : ∀ operand ∈ operands, operand.IsSyntax) :
    Safe store (anyTrue context frame operands) fun _ _ => True := by
  induction operands generalizing store with
  | nil => exact .pure hsound trivial
  | cons expression rest ih =>
    rw [List.forall_mem_cons] at hoperands
    refine (hcontext hsound (.source hoperands.1) hframe).bind fun _ _ hextends hsound _ => ?_
    split
    · exact .pure hsound trivial
    · exact ih hsound (hextends.frame_lt hframe) hoperands.2

theorem givesValue_evaluateApply (hcontext : context.IsSafe) (hsound : store.Sound)
    (hframe : frame < store.frames.size) (hoperands : ∀ operand ∈ operands, operand.IsSyntax) :
    GivesValue store (evaluateApply context frame operands) := by
  unfold evaluateApply
  split
  · next procedureExpression listExpression =>
    simp only [List.forall_mem_cons] at hoperands
    refine (hcontext hsound (.source hoperands.1) hframe).bind ?_
    intro _ procedure hextends hsound hprocedure
    have hframe := hextends.frame_lt hframe
    refine (hcontext hsound (.source hoperands.2.1) hframe).bind ?_
    intro _ list hextends hsound hlist
    split
    · -- procedure and arguments are values already, and are evaluated once more
      refine hcontext hsound (.application (List.forall_mem_cons.2 ⟨?_, ?_⟩))
        (hextends.frame_lt hframe)
      · exact hprocedure.mono hextends
      · exact fun item hmem => hlist.of_mem_items hmem
    · exact safe_failPrinting hsound hlist _ _
  · exact .fail hsound _

/-! ### Sources and files -/

theorem givesValue_evaluateForms (hcontext : context.IsSafe) (hsound : store.Sound)
    (hframe : frame < store.frames.size) {forms : List Datum}
    (hforms : ∀ form ∈ forms, form.IsSyntax) :
    GivesValue store (evaluateForms context frame forms) :=
  .foldlM hsound .unspecified fun _ hextends hsound _ _ form hmem =>
    hcontext hsound (.source (hforms form hmem)) (hextends.frame_lt hframe)

theorem safe_readSource (hsound : store.Sound) (limit : Nat) (text : String) :
    Safe store (ofExcept (readSource limit text)) fun _ forms =>
      ∀ form ∈ forms, form.IsSyntax :=
  safe_ofExcept hsound (fun _ hread => isSyntax_of_readSource hread)
    fun _ hread => (isOfText_of_readSource hread).isExpected

theorem givesValue_evaluateWritten (hcontext : context.IsSafe) (hsound : store.Sound)
    (hframe : frame < store.frames.size) {value : Datum} (hvalue : value.IsValue store) :
    GivesValue store (evaluateWritten context frame value) := by
  unfold evaluateWritten
  split
  · exact .throw hsound trivial
  · exact safe_failPrinting hsound hvalue _ _
  · refine (safe_checkPrintable hsound hvalue _).bind fun _ _ hextends hsound _ => ?_
    have hframe := hextends.frame_lt hframe
    refine (safe_readSource hsound _ _).bind fun _ forms hextends hsound hforms => ?_
    have hframe := hextends.frame_lt hframe
    refine (givesValue_evaluateForms hcontext hsound hframe hforms).tryCatch ?_
    intro _ interrupt _ hsound hexpected
    split
    · exact (safe_record hsound _ _ _).bind fun _ _ _ hsound _ => .pure hsound .unspecified
    · exact .throw hsound hexpected

theorem givesValue_evaluateEval (hcontext : context.IsSafe) (hsound : store.Sound)
    (hframe : frame < store.frames.size) (hoperands : ∀ operand ∈ operands, operand.IsSyntax) :
    GivesValue store (evaluateEval context frame operands) := by
  unfold evaluateEval
  split
  · have hoperand := List.forall_mem_singleton.1 hoperands
    exact (hcontext hsound (.source hoperand) hframe).bind fun _ _ hextends hsound hvalue =>
      givesValue_evaluateWritten hcontext hsound (hextends.frame_lt hframe) hvalue
  · exact .fail hsound _

theorem givesValue_guarded {evaluation : Machine Datum}
    (hevaluation : GivesValue store evaluation) :
    GivesValue store (guarded evaluation) := by
  refine hevaluation.tryCatch fun _ interrupt _ hsound hexpected => ?_
  split
  · exact .fail hsound _
  · exact .throw hsound hexpected

theorem givesValue_attempt (hcontext : context.IsSafe) (hsound : store.Sound)
    (hframe : frame < store.frames.size) {previous form : Datum}
    (hprevious : previous.IsValue store) (hform : form.IsSyntax) :
    GivesValue store (attempt context frame previous form) := by
  refine (givesValue_guarded (hcontext hsound (.source hform) hframe)).tryCatch ?_
  intro _ interrupt hextends hsound hexpected
  split
  · refine (safe_record hsound _ _ _).bind fun _ _ hextends' hsound _ => ?_
    exact .pure hsound (hprevious.mono (hextends.trans hextends'))
  · exact .throw hsound hexpected

theorem givesValue_runForms (hcontext : context.IsSafe) (hsound : store.Sound)
    (hframe : frame < store.frames.size) {forms : List Datum}
    (hforms : ∀ form ∈ forms, form.IsSyntax) :
    GivesValue store (runForms context frame forms) :=
  .foldlM hsound .unspecified fun _ hextends hsound _ hprevious form hmem =>
    givesValue_attempt hcontext hsound (hextends.frame_lt hframe) hprevious (hforms form hmem)

/-- There is no path for a name that has no last part or would get an impossible one, and none if
the search for it is refused. -/
theorem exists_of_resolve {host : Host} {name : String} {breakdown : Breakdown}
    (hresolve : host.resolve name = .error breakdown) :
    let path := Path.ofText name
    let fileName := path.name ++ host.settings.extension
    (path.name.isEmpty ∧ breakdown = .emptyName path.text) ∨
      (Path.isFileName fileName = false ∧ breakdown = .invalidName fileName) ∨
      ∃ candidate refusal, host.files.isFile candidate = .error refusal ∧
        breakdown = .searchRefused refusal candidate.text := by
  intro path fileName
  rw [Host.resolve] at hresolve
  cases hextended : (Path.ofText name).withExtension host.settings.extension with
  | error other =>
    rw [hextended] at hresolve
    cases hresolve
    rw [Path.withExtension, Path.withName] at hextended
    split at hextended
    · cases hextended
    · split at hextended
      · next hempty =>
        cases hextended
        exact .inl ⟨hempty, rfl⟩
      · split at hextended <;> cases hextended
        next hinvalid => exact .inr (.inl ⟨Bool.not_eq_true' _ ▸ hinvalid, rfl⟩)
  | ok extended =>
    simp only [hextended, bind, Except.bind] at hresolve
    split at hresolve
    · cases hresolve
    · split at hresolve
      · next hsearch =>
        cases hresolve
        obtain ⟨candidate, -, refusal, hrefused, rfl⟩ := FileSystem.exists_of_search? hsearch
        exact .inr (.inr ⟨candidate, refusal, hrefused, rfl⟩)
      · cases hresolve

theorem isExpected_of_resolve {host : Host} {name : String} {breakdown : Breakdown}
    (hresolve : host.resolve name = .error breakdown) :
    (Interrupt.breakdown breakdown).IsExpected := by
  rcases exists_of_resolve hresolve with ⟨-, rfl⟩ | ⟨-, rfl⟩ | ⟨candidate, refusal, -, rfl⟩
  all_goals trivial

theorem safe_readFileText (hsound : store.Sound) (host : Host) (path : Path) :
    Safe store (readFileText host path) fun _ _ => True := by
  refine (safe_noteOpened hsound _).bind fun _ _ _ hsound _ => ?_
  split
  · exact .pure hsound trivial
  · exact .fail hsound _
  · exact .fail hsound _
  · exact .throw hsound trivial

theorem givesValue_loadFile (hcontext : context.IsSafe) (hsound : store.Sound)
    (hframe : frame < store.frames.size) (name : String) :
    GivesValue store (loadFile context frame name) := by
  unfold loadFile
  split
  · next hresolve => exact .throw hsound (isExpected_of_resolve hresolve)
  · refine (safe_readFileText hsound _ _).bind fun _ text hextends hsound _ => ?_
    have hframe := hextends.frame_lt hframe
    refine (safe_record hsound _ _ _).bind fun _ _ hextends hsound _ => ?_
    have hframe := hextends.frame_lt hframe
    refine (safe_readSource hsound _ _).bind fun _ forms hextends hsound hforms => ?_
    exact givesValue_runForms hcontext hsound (hextends.frame_lt hframe) hforms

theorem safe_loadLeniently (hcontext : context.IsSafe) (hsound : store.Sound)
    (hframe : frame < store.frames.size) (name : String) :
    Safe store (loadLeniently context frame name) fun _ _ => True := by
  unfold loadLeniently
  refine (givesValue_loadFile hcontext hsound hframe name).discard.tryCatch ?_
  intro _ interrupt _ hsound hexpected
  split
  · exact safe_record hsound _ _ _
  · exact .throw hsound hexpected

theorem safe_loadTarget (hcontext : context.IsSafe) (hsound : store.Sound)
    (hframe : frame < store.frames.size) (limit : Nat) {datum : Datum}
    (hvalue : datum.IsValue store) :
    Safe store (loadTarget context frame limit datum) fun _ _ => True := by
  induction limit generalizing store datum with
  | zero => exact .throw hsound trivial
  | succ limit ih =>
    unfold loadTarget
    split
    · exact safe_loadLeniently hcontext hsound hframe _
    · exact safe_loadLeniently hcontext hsound hframe _
    · exact .pure hsound trivial
    · split
      · refine .forM hsound fun _ hextends hsound item hmem => ?_
        exact ih hsound (hextends.frame_lt hframe) ((hvalue.of_mem_items hmem).mono hextends)
      · exact safe_failPrinting hsound hvalue _ _

theorem givesValue_evaluateLoad (hcontext : context.IsSafe) (hsound : store.Sound)
    (hframe : frame < store.frames.size) (hoperands : ∀ operand ∈ operands, operand.IsSyntax) :
    GivesValue store (evaluateLoad context frame operands) := by
  unfold evaluateLoad
  split
  · next operand =>
    have hoperand := List.forall_mem_singleton.1 hoperands
    refine (hcontext hsound (.source hoperand) hframe).bind fun _ value hextends hsound hvalue => ?_
    refine (safe_loadTarget hcontext hsound (hextends.frame_lt hframe) _ hvalue).bind ?_
    exact fun _ _ _ hsound _ => .pure hsound .unspecified
  · exact .fail hsound _

/-! ### Quotation -/

theorem givesValue_quoteDatum (hsound : store.Sound) (limit : Nat) {datum : Datum}
    (hwritten : datum.IsSyntax) : GivesValue store (quoteDatum limit datum) := by
  induction hwritten generalizing limit store with
  | bool value => exact .pure hsound (.bool value)
  | num _ => exact .pure hsound (.num _)
  | str text => exact .pure hsound (.str text)
  | symbol hname => exact .pure hsound (.quoted hname)
  | @form items _ ih =>
    have hitems : ∀ (items : List Datum) {store : Store}, store.Sound →
        (∀ item ∈ items, ∀ {store : Store}, store.Sound → ∀ limit,
          GivesValue store (quoteDatum limit item)) →
        Safe store (quoteItems (limit - 1) items) fun after quoted =>
          ∀ value ∈ quoted, value.IsValue after := by
      intro items
      induction items with
      | nil => exact fun hsound _ => .pure hsound fun _ hmem => absurd hmem List.not_mem_nil
      | cons item rest ihrest =>
        intro store hsound hquote
        rw [List.forall_mem_cons] at hquote
        rw [quoteItems]
        refine (hquote.1 hsound _).bind fun _ first hextends hsound hfirst => ?_
        refine (ihrest hsound hquote.2).bind fun _ others hextends hsound hothers => ?_
        exact .pure hsound (List.forall_mem_cons.2 ⟨hfirst.mono hextends, hothers⟩)
    rw [quoteDatum]
    split
    · exact .throw hsound trivial
    · refine (hitems items hsound fun item hmem _ hsound limit => ih item hmem hsound limit).bind ?_
      exact fun _ _ _ hsound hquoted => givesValue_listOf hsound hquoted .empty

/-! ### All forms -/

theorem safe_done {computation : Machine Datum} (hvalue : GivesValue store computation) :
    Safe store (Step.done <$> computation) fun after step => step.IsSound after :=
  hvalue.map fun _ _ hvalue => hvalue

theorem safe_evaluateSpecial (hcontext : context.IsSafe) (hsound : store.Sound)
    (hframe : frame < store.frames.size) (hoperands : ∀ operand ∈ operands, operand.IsSyntax)
    (form : SpecialForm) :
    Safe store (evaluateSpecial context frame operands form) fun after step =>
      step.IsSound after := by
  cases form with
  | define => exact safe_done (givesValue_evaluateDefine hcontext hsound hframe hoperands)
  | eval => exact safe_done (givesValue_evaluateEval hcontext hsound hframe hoperands)
  | apply => exact safe_done (givesValue_evaluateApply hcontext hsound hframe hoperands)
  | branch =>
    exact safe_evaluateBranch hcontext hsound hframe fun operand hmem =>
      .source (hoperands operand hmem)
  | cond =>
    exact (safe_expandClauses hsound hoperands 1).bind fun _ _ hextends hsound hexpansion =>
      .pure hsound ⟨hexpansion, hextends.frame_lt hframe⟩
  | begin => exact safe_evaluateBegin hcontext hsound hframe hoperands
  | lambda =>
    exact safe_done (givesValue_makeClosure hsound hframe (by rintro _ ⟨⟩) hoperands)
  | load => exact safe_done (givesValue_evaluateLoad hcontext hsound hframe hoperands)
  | delay =>
    refine safe_done ?_
    unfold evaluateDelay
    split
    · exact givesValue_newPromise hsound (List.forall_mem_singleton.1 hoperands) hframe
    · exact .fail hsound _
  | and =>
    refine safe_done ?_
    unfold evaluateAnd
    split
    · exact .fail hsound _
    · exact (safe_allTrue hcontext hsound hframe hoperands).bind fun _ _ _ hsound _ =>
        .pure hsound (.bool _)
  | or =>
    refine safe_done ?_
    unfold evaluateOr
    split
    · exact .fail hsound _
    · exact (safe_anyTrue hcontext hsound hframe hoperands).bind fun _ _ _ hsound _ =>
        .pure hsound (.bool _)
  | quote =>
    refine safe_done ?_
    unfold evaluateQuote
    split
    · exact givesValue_quoteDatum hsound _ (List.forall_mem_singleton.1 hoperands)
    · exact .fail hsound _

end Machine

end SmallScheme
