import SmallScheme.Proofs.Comparison.Forms
import SmallScheme.Proofs.Evaluator.Sequence
import SmallScheme.Proofs.Machine.Application
import SmallScheme.Proofs.Relabelling.Evaluator
/-!
# Comparing evaluations

Evaluations are related if the applications of procedures are, and with them everything that a host
can have an interpreter do. How procedures are applied is left open here: a comparison may be with
an evaluation that does something more in each application.
-/

namespace SmallScheme

namespace Machine

/-! ### The forms of a stream in turn -/

variable {context : Context} {frame : FrameId} {previous : Datum} {stream rest : TokenStream}

theorem runStream_of_readForm {form : Datum}
    (hread : stream.readForm context.limit = (.ok (some form), rest)) :
    runStream context frame previous stream =
      attempt context frame previous form >>= fun value => runStream context frame value rest := by
  simp only [runStream_eq, readAll_of_readForm hread, List.foldlM_cons, bind_assoc]

theorem evaluateStream_of_readForm {form : Datum}
    (hread : stream.readForm context.limit = (.ok (some form), rest)) :
    evaluateStream context frame previous stream =
      guarded (context.evaluate form frame) >>= fun value =>
        evaluateStream context frame value rest := by
  simp only [evaluateStream_eq, readAll_of_readForm hread, List.foldlM_cons, bind_assoc]

theorem runStream_of_end (hread : stream.readForm context.limit = (.ok none, rest)) :
    runStream context frame previous stream = pure previous := by
  rw [runStream_eq, readAll_of_end hread]
  rfl

theorem evaluateStream_of_end (hread : stream.readForm context.limit = (.ok none, rest)) :
    evaluateStream context frame previous stream = pure previous := by
  rw [evaluateStream_eq, readAll_of_end hread]
  rfl

theorem runStream_of_failure {interrupt : Interrupt}
    (hread : stream.readForm context.limit = (.error interrupt, rest)) :
    runStream context frame previous stream = concludeResiliently (some interrupt) previous := by
  rw [runStream_eq, readAll_of_failure hread]
  rfl

theorem evaluateStream_of_failure {interrupt : Interrupt}
    (hread : stream.readForm context.limit = (.error interrupt, rest)) :
    evaluateStream context frame previous stream = throw interrupt := by
  rw [evaluateStream_eq, readAll_of_failure hread]
  rfl

end Machine

namespace Comparison

variable {comparison : Comparison} {left right : Context} {frame : FrameId}

/-! ### Steps -/

theorem stepWith {apply apply' : Datum → List Datum → Machine Step}
    (hcontexts : comparison.Matches left right)
    (happly : ∀ {callee : Datum} {arguments : List Datum}, callee.InScope comparison.scope →
      (∀ argument ∈ arguments, argument.InScope comparison.scope) →
      comparison.Relates (Step.InScope comparison.scope) (apply callee arguments)
        (apply' callee arguments))
    (hframe : comparison.scope (.frame frame)) {expression : Datum}
    (hexpression : expression.InScope comparison.scope) :
    comparison.Relates (Step.InScope comparison.scope)
      (Machine.stepWith apply left expression frame)
      (Machine.stepWith apply' right expression frame) := by
  cases expression with
  | absent | empty => exact comparison.pure Datum.inScope_empty
  | int value =>
    simp only [Machine.stepWith, Machine.step, Machine.numberOfInteger]
    cases Double.ofInt? value with
    | some number => exact comparison.pure (Datum.inScope_num number)
    | none => exact comparison.throw _
  | symbol name => exact comparison.bind (comparison.lookup hframe) fun _ hvalue =>
      comparison.pure hvalue
  | form label items =>
    cases items with
    | nil => exact comparison.pure Datum.inScope_empty
    | cons head operands =>
      rw [Datum.inScope_form, List.forall_mem_cons] at hexpression
      obtain ⟨hhead, hoperands⟩ := hexpression
      rw [Machine.stepWith_form, Machine.stepWith_form]
      cases head.specialForm? with
      | some form => exact evaluateSpecial hcontexts hframe hoperands form
      | none =>
        refine comparison.bind (hcontexts.evaluate hhead hframe) fun callee hcallee => ?_
        refine comparison.bind (mapM fun operand hmem =>
          hcontexts.evaluate (hoperands operand hmem) hframe) fun arguments harguments => ?_
        exact happly hcallee harguments
  | _ => exact comparison.pure hexpression

theorem iterate {next next' : Datum → FrameId → Machine Step}
    (hnext : ∀ {expression : Datum} {frame : FrameId}, expression.InScope comparison.scope →
      comparison.scope (.frame frame) → comparison.Relates (Step.InScope comparison.scope)
        (next expression frame) (next' expression frame))
    (steps : Nat) {expression : Datum} (hexpression : expression.InScope comparison.scope)
    (hframe : comparison.scope (.frame frame)) :
    comparison.RelatesData (Machine.iterate next steps expression frame)
      (Machine.iterate next' steps expression frame) := by
  induction steps generalizing expression frame with
  | zero => exact comparison.throw _
  | succ steps ih =>
    rw [Machine.iterate_succ, Machine.iterate_succ]
    refine comparison.bind (hnext hexpression hframe) fun step hstep => ?_
    cases step with
    | done value => exact comparison.pure hstep
    | proceed expression frame => exact ih hstep.1 hstep.2

/-- Evaluation is related to itself if keeping the value of a promise is. -/
theorem iterate_step (hcontexts : comparison.Matches left right)
    (hkeep : ∀ {id : PromiseId} {value : Datum}, comparison.scope (.promise id) →
      value.InScope comparison.scope →
      comparison.RelatesData (Machine.keepFirst id value) (Machine.keepFirst id value))
    (steps : Nat) {expression : Datum} (hexpression : expression.InScope comparison.scope)
    (hframe : comparison.scope (.frame frame)) :
    comparison.RelatesData (Machine.iterate (Machine.step left) steps expression frame)
      (Machine.iterate (Machine.step right) steps expression frame) := by
  rw [← Machine.stepWith_applyProcedure, ← Machine.stepWith_applyProcedure]
  refine iterate (fun hexpression hframe => ?_) steps hexpression hframe
  refine stepWith hcontexts (fun hcallee harguments => ?_) hframe hexpression
  refine applyProcedure hcontexts hcallee harguments fun {id} _ hid => ?_
  have hpromise : (Datum.promise id).InScope comparison.scope := harguments _ (by simp [hid])
  exact forcePromise hcontexts (Datum.inScope_promise.1 hpromise)
    (hkeep (Datum.inScope_promise.1 hpromise))

/-! ### Sources -/

theorem Matches.readForm_eq (hcontexts : comparison.Matches left right)
    {stream rest : TokenStream} {result : Except Interrupt (Option Datum)}
    (hread : stream.readForm left.limit = (result, rest)) (huncut : result ≠ .error .tooDeep) :
    stream.readForm right.limit = (result, rest) :=
  TokenStream.readForm_of_le (hcontexts.limit ▸ Nat.le_add_right _ _) hread huncut

/-- A failure of reading is the same with the slack, or the first stream is cut off. -/
theorem of_readForm_failure (hcontexts : comparison.Matches left right)
    {stream rest : TokenStream} {interrupt : Interrupt} {first second : Machine Datum}
    (hread : stream.readForm left.limit = (.error interrupt, rest))
    (hcut : interrupt = .tooDeep → first = MonadExcept.throw .tooDeep)
    (hrelated : stream.readForm right.limit = (.error interrupt, rest) →
      comparison.RelatesData first second) : comparison.RelatesData first second := by
  by_cases htooDeep : interrupt = .tooDeep
  · rw [hcut htooDeep] at hrelated ⊢
    refine comparison.tooDeep_of_slack fun hslack => hrelated ?_
    rw [hcontexts.limit, hslack]
    exact hread
  · exact hrelated (hcontexts.readForm_eq hread (by rintro ⟨⟩; exact htooDeep rfl))

theorem runStream (hcontexts : comparison.Matches left right)
    (hframe : comparison.scope (.frame frame)) {previous : Datum}
    (hprevious : previous.InScope comparison.scope) {stream : TokenStream}
    (hstream : stream.OfText) :
    comparison.RelatesData (Machine.runStream left frame previous stream)
      (Machine.runStream right frame previous stream) := by
  fun_induction Machine.runStream left frame previous stream with
  | case1 previous stream rest hread =>
    rw [Machine.runStream_of_end (hcontexts.readForm_eq hread (by rintro ⟨⟩))]
    exact comparison.pure hprevious
  | case2 previous stream form rest hread ih =>
    obtain ⟨hform, hrest⟩ := TokenStream.isSyntax_of_readForm hstream hread
    rw [Machine.runStream_of_readForm (hcontexts.readForm_eq hread (by rintro ⟨⟩))]
    exact comparison.bind (attempt hcontexts hframe hprevious hform.inScope) fun value hvalue =>
      ih value hvalue hrest
  | case3 previous stream fault rest hread =>
    rw [Machine.runStream_of_failure (hcontexts.readForm_eq hread (by rintro ⟨⟩))]
    exact comparison.bind (comparison.record _ _ _) fun _ _ => comparison.pure hprevious
  | case4 previous stream interrupt rest hfault hread =>
    refine of_readForm_failure hcontexts hread (fun htooDeep => by rw [htooDeep]) fun hother => ?_
    rw [Machine.runStream_of_failure hother]
    cases interrupt with
    | fault fault => exact absurd rfl (hfault fault)
    | _ => exact comparison.throw _

theorem evaluateStream (hcontexts : comparison.Matches left right)
    (hframe : comparison.scope (.frame frame)) {previous : Datum}
    (hprevious : previous.InScope comparison.scope) {stream : TokenStream}
    (hstream : stream.OfText) :
    comparison.RelatesData (Machine.evaluateStream left frame previous stream)
      (Machine.evaluateStream right frame previous stream) := by
  fun_induction Machine.evaluateStream left frame previous stream with
  | case1 previous stream rest hread =>
    rw [Machine.evaluateStream_of_end (hcontexts.readForm_eq hread (by rintro ⟨⟩))]
    exact comparison.pure hprevious
  | case2 previous stream form rest hread ih =>
    obtain ⟨hform, hrest⟩ := TokenStream.isSyntax_of_readForm hstream hread
    rw [Machine.evaluateStream_of_readForm (hcontexts.readForm_eq hread (by rintro ⟨⟩))]
    have hguarded := comparison.guarded (hcontexts.evaluate hform.inScope hframe)
      fun hforgives => hcontexts.neverTooDeep hforgives form frame
    exact comparison.bind hguarded fun value hvalue => ih value hvalue hrest
  | case3 previous stream interrupt rest hread =>
    refine of_readForm_failure hcontexts hread (fun htooDeep => by rw [htooDeep]) fun hother => ?_
    rw [Machine.evaluateStream_of_failure hother]
    exact comparison.throw _

end Comparison

/-! ### Tasks -/

namespace Interpreter

/-- What is run as a whole: the evaluation of an expression in a frame, or what a host asks for. -/
inductive Task where
  | evaluate (expression : Datum) (frame : FrameId)
  | serve (request : Request)

def Task.perform (context : Context) : Task → Machine Datum
  | .evaluate expression frame => context.evaluate expression frame
  | .serve request => request.serve context

/-- The task has only to do with what is in scope. -/
def Task.InScope (scope : Reference → Prop) : Task → Prop
  | .evaluate expression frame => expression.InScope scope ∧ scope (.frame frame)
  | .serve _ => scope (.frame rootFrame)

end Interpreter

open Interpreter

namespace Comparison

variable {comparison : Comparison} {left right : Context}

theorem perform (hcontexts : comparison.Matches left right) (task : Task)
    (htask : task.InScope comparison.scope) :
    comparison.RelatesData (task.perform left) (task.perform right) := by
  cases task with
  | evaluate expression frame => exact hcontexts.evaluate htask.1 htask.2
  | serve request =>
    cases request with
    | eval text => exact evaluateStream hcontexts htask Datum.inScope_unspecified (.rest _ _)
    | run text => exact runStream hcontexts htask Datum.inScope_unspecified (.rest _ _)
    | load name => exact loadFile hcontexts htask name

end Comparison

end SmallScheme
