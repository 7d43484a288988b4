import SmallScheme.Proofs.Comparison.Procedures
import SmallScheme.Proofs.Soundness.Forms
/-!
# Comparing special forms

Every special form is related to itself, with the same operands in two contexts of which one
evaluates like the other.
-/

namespace SmallScheme

namespace Comparison

variable {comparison : Comparison} {left right : Context} {frame : FrameId}
  {operands : List Datum}

/-! ### Definitions and closures -/

variable (comparison) in
theorem symbolName (limit : Nat) (form : SpecialForm) (datum : Datum) :
    comparison.Relates (fun _ => True) (Machine.symbolName limit form datum)
      (Machine.symbolName (limit + comparison.slack) form datum) := by
  cases datum with
  | symbol name => exact comparison.pure trivial
  | _ => exact comparison.failDiagnosing _ _ _

variable (comparison) in
theorem symbolNames (limit : Nat) (form : SpecialForm) (parameters : List Datum) :
    comparison.Relates (fun _ => True) (parameters.mapM (Machine.symbolName limit form))
      (parameters.mapM (Machine.symbolName (limit + comparison.slack) form)) :=
  mono (mapM fun parameter _ => comparison.symbolName limit form parameter) fun _ _ => trivial

theorem makeClosure (hcontexts : comparison.Matches left right)
    (hframe : comparison.scope (.frame frame)) (name : Option String)
    (hoperands : ∀ operand ∈ operands, operand.InScope comparison.scope) :
    comparison.RelatesData (Machine.makeClosure left frame name operands)
      (Machine.makeClosure right frame name operands) := by
  have hformals : ∀ parameters, comparison.Relates (fun _ => True)
      (Machine.readFormals left.limit parameters) (Machine.readFormals right.limit parameters) := by
    intro parameters
    rw [hcontexts.limit]
    unfold Machine.readFormals
    split
    · exact comparison.bind (comparison.symbolNames _ _ _) fun _ _ => comparison.pure trivial
    · exact comparison.bind (comparison.symbolName _ _ _) fun _ _ => comparison.pure trivial
  cases operands with
  | nil => exact comparison.fail _
  | cons parameters body =>
    rw [List.forall_mem_cons] at hoperands
    exact comparison.bind (hformals parameters) fun _ _ => closure hoperands.2 hframe

theorem defineAs {computation computation' : Machine Datum}
    (hvalue : comparison.RelatesData computation computation')
    (hframe : comparison.scope (.frame frame)) (name : String) :
    comparison.RelatesData (Machine.defineAs frame name computation)
      (Machine.defineAs frame name computation') := by
  refine comparison.bind hvalue fun value hvalue => ?_
  exact comparison.bind (comparison.define hframe hvalue) fun _ _ =>
    comparison.pure Datum.inScope_unspecified

theorem evaluateNamed (hcontexts : comparison.Matches left right)
    (hframe : comparison.scope (.frame frame)) (name : String) {expression : Datum}
    (hexpression : expression.InScope comparison.scope) :
    comparison.RelatesData (Machine.evaluateNamed left frame name expression)
      (Machine.evaluateNamed right frame name expression) := by
  unfold Machine.evaluateNamed
  split
  · next hlambda =>
    exact makeClosure hcontexts hframe _ (Datum.inScope_of_operandsOf? hexpression hlambda)
  · exact hcontexts.evaluate hexpression hframe

theorem evaluateDefine (hcontexts : comparison.Matches left right)
    (hframe : comparison.scope (.frame frame))
    (hoperands : ∀ operand ∈ operands, operand.InScope comparison.scope) :
    comparison.RelatesData (Machine.evaluateDefine left frame operands)
      (Machine.evaluateDefine right frame operands) := by
  unfold Machine.evaluateDefine
  split
  · exact comparison.fail _
  · exact comparison.fail _
  · simp only [Machine.defineProcedure, hcontexts.limit]
    refine comparison.bind (comparison.symbolName _ _ _) fun name _ => ?_
    refine comparison.bind (comparison.symbolNames _ _ _) fun names _ => ?_
    exact defineAs (closure (List.forall_mem_cons.1 hoperands).2 hframe) hframe name
  · simp only [Machine.defineVariable, hcontexts.limit]
    refine comparison.bind (comparison.symbolName _ _ _) fun name _ => ?_
    split
    · refine defineAs (evaluateNamed hcontexts hframe name ?_) hframe name
      exact hoperands _ (by simp)
    · exact comparison.fail _

/-! ### Choices and sequences -/

theorem evaluateBranch (hcontexts : comparison.Matches left right)
    (hframe : comparison.scope (.frame frame))
    (hoperands : ∀ operand ∈ operands, operand.InScope comparison.scope) :
    comparison.Relates (Step.InScope comparison.scope)
      (Machine.evaluateBranch left frame operands)
      (Machine.evaluateBranch right frame operands) := by
  unfold Machine.evaluateBranch
  split
  · simp only [List.forall_mem_cons] at hoperands
    refine comparison.bind (hcontexts.evaluate hoperands.1 hframe) fun value _ => ?_
    refine comparison.pure ?_
    split
    · exact ⟨hoperands.2.1, hframe⟩
    · exact Datum.inScope_unspecified
  · simp only [List.forall_mem_cons] at hoperands
    refine comparison.bind (hcontexts.evaluate hoperands.1 hframe) fun value _ => ?_
    refine comparison.pure ⟨?_, hframe⟩
    split
    · exact hoperands.2.1
    · exact hoperands.2.2.1
  · exact comparison.fail _

theorem evaluateBegin (hcontexts : comparison.Matches left right)
    (hframe : comparison.scope (.frame frame))
    (hoperands : ∀ operand ∈ operands, operand.InScope comparison.scope) :
    comparison.Relates (Step.InScope comparison.scope)
      (Machine.evaluateBegin left frame operands) (Machine.evaluateBegin right frame operands) := by
  fun_induction Machine.evaluateBegin left frame operands with
  | case1 => exact comparison.pure Datum.inScope_unspecified
  | case2 last => exact comparison.pure ⟨List.forall_mem_singleton.1 hoperands, hframe⟩
  | case3 expression rest hrest ih =>
    rw [List.forall_mem_cons] at hoperands
    rw [Machine.evaluateBegin.eq_3 _ _ _ _ hrest]
    exact comparison.bind (discard (hcontexts.evaluate hoperands.1 hframe)) fun _ _ =>
      ih hoperands.2

theorem allTrue (hcontexts : comparison.Matches left right)
    (hframe : comparison.scope (.frame frame))
    (hoperands : ∀ operand ∈ operands, operand.InScope comparison.scope) :
    comparison.Relates (fun _ => True) (Machine.allTrue left frame operands)
      (Machine.allTrue right frame operands) := by
  induction operands with
  | nil => exact comparison.pure trivial
  | cons expression rest ih =>
    rw [List.forall_mem_cons] at hoperands
    refine comparison.bind (hcontexts.evaluate hoperands.1 hframe) fun value _ => ?_
    split
    · exact ih hoperands.2
    · exact comparison.pure trivial

theorem anyTrue (hcontexts : comparison.Matches left right)
    (hframe : comparison.scope (.frame frame))
    (hoperands : ∀ operand ∈ operands, operand.InScope comparison.scope) :
    comparison.Relates (fun _ => True) (Machine.anyTrue left frame operands)
      (Machine.anyTrue right frame operands) := by
  induction operands with
  | nil => exact comparison.pure trivial
  | cons expression rest ih =>
    rw [List.forall_mem_cons] at hoperands
    refine comparison.bind (hcontexts.evaluate hoperands.1 hframe) fun value _ => ?_
    split
    · exact comparison.pure trivial
    · exact ih hoperands.2

theorem evaluateApply (hcontexts : comparison.Matches left right)
    (hframe : comparison.scope (.frame frame))
    (hoperands : ∀ operand ∈ operands, operand.InScope comparison.scope) :
    comparison.RelatesData (Machine.evaluateApply left frame operands)
      (Machine.evaluateApply right frame operands) := by
  unfold Machine.evaluateApply
  split
  · simp only [List.forall_mem_cons] at hoperands
    refine comparison.bind (hcontexts.evaluate hoperands.1 hframe) fun procedure hprocedure => ?_
    refine comparison.bind (hcontexts.evaluate hoperands.2.1 hframe) fun list hlist => ?_
    split
    · refine hcontexts.evaluate (Datum.inScope_form.2 (List.forall_mem_cons.2 ⟨hprocedure, ?_⟩))
        hframe
      exact fun item hmem => hlist.of_mem_items hmem
    · rw [hcontexts.limit]
      exact comparison.failPrinting _ _ _
  · exact comparison.fail _

/-! ### Sources and files -/

variable (comparison) in
theorem readSource (limit : Nat) (text : String) :
    comparison.Relates (fun forms => ∀ form ∈ forms, form.InScope comparison.scope)
      (Machine.ofExcept (readSource limit text))
      (Machine.ofExcept (SmallScheme.readSource (limit + comparison.slack) text)) :=
  comparison.ofExcept (stable_readSource text) limit fun _ hread form hmem =>
    (isSyntax_of_readSource hread form hmem).inScope

theorem evaluateForms (hcontexts : comparison.Matches left right)
    (hframe : comparison.scope (.frame frame)) {forms : List Datum}
    (hforms : ∀ form ∈ forms, form.InScope comparison.scope) :
    comparison.RelatesData (Machine.evaluateForms left frame forms)
      (Machine.evaluateForms right frame forms) :=
  foldlM Datum.inScope_unspecified fun _ _ form hmem =>
    hcontexts.evaluate (hforms form hmem) hframe

theorem evaluateWritten (hcontexts : comparison.Matches left right)
    (hframe : comparison.scope (.frame frame)) (value : Datum) :
    comparison.RelatesData (Machine.evaluateWritten left frame value)
      (Machine.evaluateWritten right frame value) := by
  simp only [Machine.evaluateWritten, hcontexts.limit]
  rcases comparison.eq_or_cut value.stable_wellFormed? left.limit with heq | ⟨hforgives, hcut⟩
  · rw [heq]
    split
    · exact comparison.throw _
    · exact comparison.failPrinting _ _ _
    · refine comparison.bind (comparison.checkPrintable _ _) fun _ _ => ?_
      refine comparison.bind (comparison.readSource _ _) fun forms hforms => ?_
      refine comparison.tryCatch (evaluateForms hcontexts hframe hforms) (fun fault => ?_) ?_
      · exact comparison.bind (comparison.record _ _ _) fun _ _ =>
          comparison.pure Datum.inScope_unspecified
      · rintro (fault | _) hinterrupt
        · exact absurd rfl (hinterrupt fault)
        all_goals rfl
  · rw [hcut]
    exact comparison.tooDeep hforgives

theorem evaluateEval (hcontexts : comparison.Matches left right)
    (hframe : comparison.scope (.frame frame))
    (hoperands : ∀ operand ∈ operands, operand.InScope comparison.scope) :
    comparison.RelatesData (Machine.evaluateEval left frame operands)
      (Machine.evaluateEval right frame operands) := by
  unfold Machine.evaluateEval
  split
  · have hoperand := List.forall_mem_singleton.1 hoperands
    exact comparison.bind (hcontexts.evaluate hoperand hframe) fun value _ =>
      evaluateWritten hcontexts hframe value
  · exact comparison.fail _

theorem attempt (hcontexts : comparison.Matches left right)
    (hframe : comparison.scope (.frame frame)) {previous form : Datum}
    (hprevious : previous.InScope comparison.scope) (hform : form.InScope comparison.scope) :
    comparison.RelatesData (Machine.attempt left frame previous form)
      (Machine.attempt right frame previous form) := by
  have hguarded := comparison.guarded (hcontexts.evaluate hform hframe) fun hforgives =>
    hcontexts.neverTooDeep hforgives form frame
  refine comparison.tryCatch hguarded (fun fault => ?_) fun interrupt hinterrupt => ?_
  · exact comparison.bind (comparison.record _ _ _) fun _ _ => comparison.pure hprevious
  · cases interrupt with
    | fault fault => exact absurd rfl (hinterrupt fault)
    | _ => rfl

theorem runForms (hcontexts : comparison.Matches left right)
    (hframe : comparison.scope (.frame frame)) {forms : List Datum}
    (hforms : ∀ form ∈ forms, form.InScope comparison.scope) :
    comparison.RelatesData (Machine.runForms left frame forms)
      (Machine.runForms right frame forms) :=
  foldlM Datum.inScope_unspecified fun _ hprevious form hmem =>
    attempt hcontexts hframe hprevious (hforms form hmem)

variable (comparison) in
theorem readFileText (host : Host) (path : Path) :
    comparison.Relates (fun _ => True) (Machine.readFileText host path)
      (Machine.readFileText host path) := by
  refine comparison.bind (comparison.noteOpened _) fun _ _ => ?_
  split
  · exact comparison.pure trivial
  · exact comparison.fail _
  · exact comparison.fail _
  · exact comparison.throw _

theorem loadFile (hcontexts : comparison.Matches left right)
    (hframe : comparison.scope (.frame frame)) (name : String) :
    comparison.RelatesData (Machine.loadFile left frame name)
      (Machine.loadFile right frame name) := by
  unfold Machine.loadFile
  simp only [hcontexts.host, hcontexts.limit]
  split
  · exact comparison.throw _
  · refine comparison.bind (comparison.readFileText _ _) fun text _ => ?_
    refine comparison.bind (comparison.record _ _ _) fun _ _ => ?_
    exact comparison.bind (comparison.readSource _ _) fun forms hforms =>
      runForms hcontexts hframe hforms

theorem loadLeniently (hcontexts : comparison.Matches left right)
    (hframe : comparison.scope (.frame frame)) (name : String) :
    comparison.Relates (fun _ => True) (Machine.loadLeniently left frame name)
      (Machine.loadLeniently right frame name) := by
  refine comparison.tryCatch (discard (loadFile hcontexts hframe name)) (fun fault => ?_) ?_
  · cases fault with
    | unavailable path reason => exact comparison.record _ _ _
    | _ => exact comparison.throw _
  · rintro (fault | _) hinterrupt
    · exact absurd rfl (hinterrupt fault)
    all_goals rfl

theorem loadTarget (hcontexts : comparison.Matches left right)
    (hframe : comparison.scope (.frame frame)) (limit : Nat) (target : Datum) :
    comparison.Relates (fun _ => True) (Machine.loadTarget left frame limit target)
      (Machine.loadTarget right frame (limit + comparison.slack) target) := by
  induction limit generalizing target with
  | zero =>
    refine comparison.tooDeep_of_slack fun hslack => ?_
    rw [hslack]
    exact comparison.throw _
  | succ limit ih =>
    rw [Nat.add_right_comm]
    unfold Machine.loadTarget
    split
    · exact loadLeniently hcontexts hframe _
    · exact loadLeniently hcontexts hframe _
    · exact comparison.pure trivial
    · split
      · exact forM fun item _ => ih item
      · exact comparison.failPrinting _ _ _

theorem evaluateLoad (hcontexts : comparison.Matches left right)
    (hframe : comparison.scope (.frame frame))
    (hoperands : ∀ operand ∈ operands, operand.InScope comparison.scope) :
    comparison.RelatesData (Machine.evaluateLoad left frame operands)
      (Machine.evaluateLoad right frame operands) := by
  simp only [Machine.evaluateLoad, hcontexts.limit]
  split
  · have hoperand := List.forall_mem_singleton.1 hoperands
    refine comparison.bind (hcontexts.evaluate hoperand hframe) fun target _ => ?_
    exact comparison.bind (loadTarget hcontexts hframe left.limit target) fun _ _ =>
      comparison.pure Datum.inScope_unspecified
  · exact comparison.fail _

/-! ### Quotation -/

mutual

theorem quoteDatum (comparison : Comparison) (limit : Nat) :
    ∀ datum : Datum, comparison.RelatesData (Machine.quoteDatum limit datum)
      (Machine.quoteDatum (limit + comparison.slack) datum)
  | .form _ items => by
    simp only [Machine.quoteDatum]
    by_cases hzero : limit = 0
    · rw [if_pos hzero]
      refine comparison.tooDeep_of_slack fun hslack => ?_
      rw [if_pos (by rw [hzero, hslack])]
      exact comparison.throw _
    · have hpos : 1 ≤ limit := Nat.one_le_iff_ne_zero.2 hzero
      rw [if_neg hzero, if_neg (by omega), Nat.sub_add_comm hpos]
      exact comparison.bind (quoteItems comparison (limit - 1) items) fun quoted hquoted =>
        listOf hquoted Datum.inScope_empty
  | .symbol name => by
    simp only [Machine.quoteDatum]
    exact comparison.pure (Datum.inScope_quoted name)
  | .int value => by
    simp only [Machine.quoteDatum, Machine.numberOfInteger]
    cases Double.ofInt? value with
    | some number => exact comparison.pure (Datum.inScope_num number)
    | none => exact comparison.throw _
  | .num _ | .bool _ | .str _ | .quoted _ | .empty => by
    simp only [Machine.quoteDatum]
    exact comparison.pure (by rintro _ ⟨⟩)
  | .absent | .unspecified | .pair .. | .builtin _ | .closure .. | .promise _ | .foreign .. => by
    simp only [Machine.quoteDatum]
    exact comparison.failDiagnosing _ _ _

theorem quoteItems (comparison : Comparison) (limit : Nat) :
    ∀ items : List Datum,
      comparison.Relates (fun quoted => ∀ item ∈ quoted, item.InScope comparison.scope)
        (Machine.quoteItems limit items) (Machine.quoteItems (limit + comparison.slack) items)
  | [] => by
    simp only [Machine.quoteItems]
    exact comparison.pure fun _ hmem => absurd hmem List.not_mem_nil
  | item :: rest => by
    simp only [Machine.quoteItems]
    refine comparison.bind (quoteDatum comparison limit item) fun first hfirst => ?_
    refine comparison.bind (quoteItems comparison limit rest) fun others hothers => ?_
    exact comparison.pure (List.forall_mem_cons.2 ⟨hfirst, hothers⟩)

end

/-! ### All forms -/

theorem done {computation computation' : Machine Datum}
    (hvalue : comparison.RelatesData computation computation') :
    comparison.Relates (Step.InScope comparison.scope) (Step.done <$> computation)
      (Step.done <$> computation') :=
  map hvalue fun _ hvalue => hvalue

theorem evaluateSpecial (hcontexts : comparison.Matches left right)
    (hframe : comparison.scope (.frame frame))
    (hoperands : ∀ operand ∈ operands, operand.InScope comparison.scope) (form : SpecialForm) :
    comparison.Relates (Step.InScope comparison.scope)
      (Machine.evaluateSpecial left frame operands form)
      (Machine.evaluateSpecial right frame operands form) := by
  cases form with
  | define => exact done (evaluateDefine hcontexts hframe hoperands)
  | eval => exact done (evaluateEval hcontexts hframe hoperands)
  | apply => exact done (evaluateApply hcontexts hframe hoperands)
  | branch => exact evaluateBranch hcontexts hframe hoperands
  | cond =>
    simp only [Machine.evaluateSpecial, hcontexts.limit]
    have hexpand := comparison.ofExcept (stable_expandClauses 1 operands) left.limit
      fun expansion hexpand => inScope_of_expandClauses hoperands hexpand
    exact comparison.bind hexpand fun _ hexpansion => comparison.pure ⟨hexpansion, hframe⟩
  | begin => exact evaluateBegin hcontexts hframe hoperands
  | lambda => exact done (makeClosure hcontexts hframe none hoperands)
  | load => exact done (evaluateLoad hcontexts hframe hoperands)
  | delay =>
    refine done ?_
    unfold Machine.evaluateDelay
    split
    · exact comparison.newPromise (List.forall_mem_singleton.1 hoperands) hframe
    · exact comparison.fail _
  | and =>
    refine done ?_
    unfold Machine.evaluateAnd
    split
    · exact comparison.fail _
    · exact comparison.bind (allTrue hcontexts hframe hoperands) fun _ _ =>
        comparison.pure (Datum.inScope_bool _)
  | or =>
    refine done ?_
    unfold Machine.evaluateOr
    split
    · exact comparison.fail _
    · exact comparison.bind (anyTrue hcontexts hframe hoperands) fun _ _ =>
        comparison.pure (Datum.inScope_bool _)
  | quote =>
    refine done ?_
    simp only [Machine.evaluateQuote, hcontexts.limit]
    split
    · exact comparison.quoteDatum _ _
    · exact comparison.fail _

end Comparison

end SmallScheme
