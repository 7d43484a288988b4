import SmallScheme.Proofs.CommandLine.Files
import SmallScheme.Proofs.Evaluator.Concatenation
import SmallScheme.Proofs.Evaluator.Rejection
import SmallScheme.Proofs.Reader.NormalForm
/-!
# The lines of a session

A session that answers lines of input one by one gets to where running all of them as one text gets
to, if no form stretches over several lines and no line holds more than one. The forms are evaluated
in the same stores but for the traces, and a fault that the one writes out is what the other has in
its log. Besides, a session shows the values, and its prompt.
-/

namespace SmallScheme

open Machine

namespace CommandLine

/-! ### Answers -/

/-- What a session has to say about a line, besides what is displayed in its evaluation. -/
inductive Reply where
  | nothing
  | value (value : Datum)
  | fault (fault : Fault)

namespace Reply

def text : Reply → String
  | nothing | value .unspecified => ""
  | value datum => datum.source ++ "\n"
  | fault cause => cause.report ++ "\n"

/-- What a text that is run has in the log for it. -/
def records : Reply → Array LogRecord
  | fault cause => #[{ level := .error, logger := .sequence, message := cause.report }]
  | _ => #[]

def IsPrintable : Reply → Prop
  | value datum => datum.printObstacle? Interpreter.depthLimit = none
  | _ => True

end Reply

/-- The traces of the evaluation of a line, and the reply to it. -/
structure Answer where
  traces : Traces
  reply : Reply

namespace Answer

/-- What a session writes for the line. -/
def written (answer : Answer) : String :=
  prompt ++ answer.traces.output ++ answer.reply.text

/-- What there is when the line has been run behind others, whose traces are given. -/
def following (traces : Traces) (answer : Answer) : Traces where
  output := traces.output ++ answer.traces.output
  log := traces.log ++ (answer.traces.log ++ answer.reply.records)
  opened := traces.opened ++ answer.traces.opened

end Answer

/-- The answer to a line in a store, and the store after that, without the traces of the answer. -/
inductive AnswersLine (host : Host) (store : Store) (line : String) : Answer → Store → Prop where
  | nothing (hread : readSource Interpreter.depthLimit line = .ok []) :
    AnswersLine host store line ⟨⟨"", #[], #[]⟩, .nothing⟩ store
  | value {form value : Datum} {between : Store}
    (hread : readSource Interpreter.depthLimit line = .ok [form])
    (hform : (Interpreter.context host).evaluate form Interpreter.rootFrame store =
      .ok value between) :
    AnswersLine host store line ⟨between.traces, .value value⟩ between.withoutTraces
  | fault {form : Datum} {between : Store} {interrupt : Interrupt} {fault : Fault}
    (hread : readSource Interpreter.depthLimit line = .ok [form])
    (hform : (Interpreter.context host).evaluate form Interpreter.rootFrame store =
      .error interrupt between) (hfault : interrupt.fault? = some fault) :
    AnswersLine host store line ⟨between.traces, .fault fault⟩ between.withoutTraces

/-- The answers to lines, each in the store that the one before it leaves. -/
inductive AnswersLines (host : Host) : Store → List String → List Answer → Store → Prop where
  | nil (store : Store) : AnswersLines host store [] [] store
  | cons {store between after : Store} {line : String} {lines : List String} {answer : Answer}
    {answers : List Answer} (hline : AnswersLine host store line answer between)
    (hrest : AnswersLines host between lines answers after) :
    AnswersLines host store (line :: lines) (answer :: answers) after

/-- The session after the answers, which left the store, and the end of the input. -/
def Session.answered (session : Session) (answers : List Answer) (after : Store) : Session :=
  { session with
    store := { after with output := prompt ++ "\n" }
    output := answers.foldl (fun output answer => output ++ answer.written) session.output ++
      (prompt ++ "\n")
    errors := answers.foldl (fun errors answer =>
      errors ++ logText session.threshold answer.traces.log) session.errors }

end CommandLine

/-! ### Reading lines -/

theorem readAll_of_blank {limit : Nat} {text : List Char} (hblank : text.all isBlank)
    (position : Nat) : (TokenStream.ofRest text position).readAll limit = ([], none) := by
  induction text generalizing position with
  | nil => exact readAll_of_end (readForm_ofRest_nil position)
  | cons char rest ih =>
    rw [List.all_cons, Bool.and_eq_true] at hblank
    rw [TokenStream.readAll_blank hblank.1, ih hblank.2]

theorem readSource_of_blank {limit : Nat} {text : String} (hblank : text.toList.all isBlank) :
    readSource limit text = .ok [] := by
  have hall : (TokenStream.ofText text).readAll limit = ([], none) := readAll_of_blank hblank 0
  rw [readSource, hall]

theorem readSource_intercalate_cons {limit : Nat} {line : String} {lines : List String}
    {forms others : List Datum} (hline : readSource limit line = .ok forms)
    (hlines : readSource limit ("\n".intercalate lines) = .ok others) :
    readSource limit ("\n".intercalate (line :: lines)) = .ok (forms ++ others) := by
  cases lines with
  | nil =>
    rw [String.intercalate_nil, readSource_of_blank rfl] at hlines
    cases hlines
    rw [String.intercalate_singleton, List.append_nil, hline]
  | cons next rest => rw [String.intercalate_cons_cons, readSource_append_newline hline, hlines]

theorem exists_readSource_intercalate {limit : Nat} {lines : List String}
    (hlines : ∀ line ∈ lines, ∃ forms, readSource limit line = .ok forms) :
    ∃ forms, readSource limit ("\n".intercalate lines) = .ok forms := by
  induction lines with
  | nil => exact ⟨[], String.intercalate_nil ▸ readSource_of_blank rfl⟩
  | cons line rest ih =>
    rw [List.forall_mem_cons] at hlines
    obtain ⟨⟨forms, hline⟩, hrest⟩ := hlines
    obtain ⟨others, hothers⟩ := ih hrest
    exact ⟨forms ++ others, readSource_intercalate_cons hline hothers⟩

/-! ### One line -/

namespace CommandLine

variable {host : Host} {session : Session} {store next : Store} {line : String} {answer : Answer}

theorem isOblivious_context (host : Host) : (Interpreter.context host).IsOblivious :=
  Interpreter.isOblivious_contextWithin host Interpreter.stepBudget Interpreter.depthLimit

/-- A line with at most one form is answered, unless its evaluation ends with what is no fault. -/
theorem exists_answersLine_or_escape (host : Host)
    (hline : ∃ forms, readSource Interpreter.depthLimit line = .ok forms ∧ forms.length ≤ 1)
    (store : Store) :
    (∃ answer next, AnswersLine host store line answer next) ∨
      ∃ form interrupt between, readSource Interpreter.depthLimit line = .ok [form] ∧
        (Interpreter.context host).evaluate form Interpreter.rootFrame store =
          .error interrupt between ∧ interrupt.fault? = none := by
  obtain ⟨forms, hread, hlength⟩ := hline
  match forms with
  | [] => exact .inl ⟨_, _, .nothing hread⟩
  | [form] =>
    cases hform : (Interpreter.context host).evaluate form Interpreter.rootFrame store with
    | ok value between => exact .inl ⟨_, _, .value hread hform⟩
    | error interrupt between =>
      cases hfault : interrupt.fault? with
      | some fault => exact .inl ⟨_, _, .fault hread hform hfault⟩
      | none => exact .inr ⟨form, interrupt, between, hread, hform, hfault⟩
  | _ :: _ :: _ =>
    rw [List.length_cons, List.length_cons] at hlength
    omega

theorem AnswersLine.withoutTraces_eq (hline : AnswersLine host store line answer next)
    (hstore : store.withoutTraces = store) : next.withoutTraces = next := by
  cases hline with
  | nothing => exact hstore
  | value => rfl
  | fault => rfl

theorem evaluate_behind (host : Host) (form : Datum) (traces : Traces) (store : Store) :
    (Interpreter.context host).evaluate form Interpreter.rootFrame (store.behind traces) =
      Outcome.behind traces
        ((Interpreter.context host).evaluate form Interpreter.rootFrame store) :=
  isOblivious_context host form Interpreter.rootFrame traces store

theorem behind_eq_following (traces : Traces) (store : Store) {reply : Reply}
    (hreply : reply.records = #[]) :
    store.behind traces =
      store.withoutTraces.behind (Answer.following traces ⟨store.traces, reply⟩) := by
  simp [Store.behind, Store.withoutTraces, Store.traces, Answer.following, hreply]

theorem recordFault_behind (traces : Traces) (store : Store) (fault : Fault) :
    (store.behind traces).recordFault fault =
      store.withoutTraces.behind (Answer.following traces ⟨store.traces, .fault fault⟩) := by
  simp [Store.behind, Store.withoutTraces, Store.traces, Store.recordFault, Answer.following,
    Reply.records]

/-- To run the line is to do as is done for its answer, and to have a fault in the log. -/
theorem AnswersLine.exists_foldlM (hline : AnswersLine host store line answer next)
    (traces : Traces) (previous : Datum) :
    ∃ forms value, readSource Interpreter.depthLimit line = .ok forms ∧
      forms.foldlM (attempt (Interpreter.context host) Interpreter.rootFrame) previous
        (store.behind traces) = .ok value (next.behind (Answer.following traces answer)) := by
  cases hline with
  | nothing hread =>
    refine ⟨[], previous, hread, ?_⟩
    have hsame : Answer.following traces ⟨⟨"", #[], #[]⟩, .nothing⟩ = traces := by
      simp [Answer.following, Reply.records]
    rw [hsame]
    rfl
  | @value form value between hread hform =>
    refine ⟨[form], value, hread, ?_⟩
    have hbehind := evaluate_behind host form traces store
    rw [hform] at hbehind
    rw [List.foldlM_cons, bind_of_ok (attempt_of_ok hbehind),
      behind_eq_following traces between (Eq.refl (Reply.value value).records)]
    rfl
  | @fault form between interrupt fault hread hform hfault =>
    refine ⟨[form], previous, hread, ?_⟩
    have hbehind := evaluate_behind host form traces store
    rw [hform] at hbehind
    rw [List.foldlM_cons, bind_of_ok (attempt_of_fault hbehind hfault), recordFault_behind]
    rfl

theorem eval_of_readSource (host : Host) {forms : List Datum}
    (hread : readSource Interpreter.depthLimit line = .ok forms) :
    Interpreter.eval host line =
      forms.foldlM (fun _ form =>
        guarded ((Interpreter.context host).evaluate form Interpreter.rootFrame)) .unspecified := by
  have hall : (TokenStream.ofText line).readAll (Interpreter.context host).limit = (forms, none) :=
    readAll_eq_of_readSource hread
  rw [Interpreter.eval, evaluateStream_eq, hall]
  exact bind_pure _

theorem eval_of_form (host : Host) {form : Datum}
    (hread : readSource Interpreter.depthLimit line = .ok [form]) :
    Interpreter.eval host line =
      guarded ((Interpreter.context host).evaluate form Interpreter.rootFrame) := by
  rw [eval_of_readSource host hread, List.foldlM_cons]
  exact bind_pure _

/-! ### The answer to a line -/

namespace Session

variable {value : Datum} {after : Store}

theorem answer_of_blank (hblank : line.toList.all isBlank = true) :
    Session.answer host line = pure () :=
  if_pos hblank

theorem answer_of_ok (hblank : ¬ line.toList.all isBlank = true)
    (heval : Interpreter.eval host line store = .ok value after)
    (hprintable : (Reply.value value).IsPrintable) :
    Session.answer host line store =
      .ok () { after with output := after.output ++ (Reply.value value).text } := by
  unfold Session.answer
  rw [if_neg hblank]
  refine (bind_of_ok (tryCatch_of_ok (map_of_ok heval))).trans ?_
  have hcheck := checkPrintable_of_shown hprintable after
  cases value with
  | unspecified =>
    have hkept : after.output ++ (Reply.value .unspecified).text = after.output :=
      String.append_empty
    rw [hkept]
    rfl
  | _ => exact bind_of_ok hcheck

theorem answer_of_fault {fault : Fault} (hblank : ¬ line.toList.all isBlank = true)
    (heval : Interpreter.eval host line store = .error (.fault fault) after) :
    Session.answer host line store =
      .ok () { after with output := after.output ++ (Reply.fault fault).text } := by
  unfold Session.answer
  rw [if_neg hblank]
  let written : Store := { after with output := after.output ++ (Reply.fault fault).text }
  refine (bind_of_ok (?_ : _ = EStateM.Result.ok (none : Option Datum) written)).trans rfl
  exact (tryCatch_of_error (map_of_error heval)).trans rfl

theorem answer_of_escape {interrupt : Interrupt} (hblank : ¬ line.toList.all isBlank = true)
    (heval : Interpreter.eval host line store = .error interrupt after)
    (hescape : ∀ fault, interrupt ≠ .fault fault) :
    Session.answer host line store = .error interrupt after := by
  unfold Session.answer
  rw [if_neg hblank]
  refine bind_of_error ((tryCatch_of_error (map_of_error heval)).trans ?_)
  cases interrupt with
  | fault fault => exact absurd rfl (hescape fault)
  | _ => rfl

theorem answer_of_unprintable (hblank : ¬ line.toList.all isBlank = true)
    (heval : Interpreter.eval host line store = .ok value after)
    (hprintable : ¬ (Reply.value value).IsPrintable) :
    ∃ interrupt, Session.answer host line store = .error interrupt after := by
  unfold Session.answer
  rw [if_neg hblank]
  obtain ⟨interrupt, hcheck⟩ := exists_checkPrintable_of_hidden hprintable after
  refine ⟨interrupt, (bind_of_ok (tryCatch_of_ok (map_of_ok heval))).trans ?_⟩
  cases value with
  | unspecified => exact absurd rfl hprintable
  | _ => exact bind_of_error hcheck

end Session

theorem not_blank_of_form {form : Datum}
    (hread : readSource Interpreter.depthLimit line = .ok [form]) :
    ¬ line.toList.all isBlank = true := by
  intro hblank
  rw [readSource_of_blank hblank] at hread
  cases hread

/-- The store of a session that has asked for a line. -/
def prompted (store : Store) : Store := store.withoutTraces.behind ⟨prompt, #[], #[]⟩

theorem write_withoutTraces (text : String) (store : Store) :
    Machine.write text store.withoutTraces =
      .ok () (store.withoutTraces.behind ⟨text, #[], #[]⟩) := by
  change EStateM.Result.ok () { store.withoutTraces with output := "" ++ text } = _
  simp [Store.behind, Store.withoutTraces]

/-- The prompt in front does not matter for the evaluation of a form. -/
theorem eval_prompted (host : Host) {form : Datum}
    (hread : readSource Interpreter.depthLimit line = .ok [form]) (store : Store) :
    Interpreter.eval host line (prompted store) =
      Outcome.behind ⟨prompt, #[], #[]⟩
        (guarded ((Interpreter.context host).evaluate form Interpreter.rootFrame)
          store.withoutTraces) := by
  rw [eval_of_form host hread]
  exact oblivious_guarded (isOblivious_context host) _ form _ _

namespace Answer

/-- The store after an answer, with what it leaves. -/
def leftIn (answer : Answer) (store : Store) : Store :=
  { store with
    output := answer.written
    log := answer.traces.log
    opened := answer.traces.opened }

end Answer

/-- A line is answered as it says, if the value can be printed. -/
theorem AnswersLine.answer_eq (hline : AnswersLine host store.withoutTraces line answer next)
    (hprintable : answer.reply.IsPrintable) :
    Session.answer host line (prompted store) = .ok () (answer.leftIn next) := by
  cases hline with
  | nothing hread =>
    have hsame : Answer.leftIn ⟨⟨"", #[], #[]⟩, .nothing⟩ store.withoutTraces = prompted store := by
      simp [Answer.leftIn, Answer.written, Reply.text, prompted, Store.behind, Store.withoutTraces]
    rw [hsame]
    by_cases hblank : line.toList.all isBlank = true
    · rw [Session.answer_of_blank hblank]
      rfl
    · have heval := congrFun (eval_of_readSource host hread) (prompted store)
      refine (Session.answer_of_ok hblank heval rfl).trans ?_
      simp [Reply.text]
  | value hread hform =>
    have heval := eval_prompted host hread store
    rw [guarded_of_ok hform] at heval
    refine (Session.answer_of_ok (not_blank_of_form hread) heval hprintable).trans ?_
    simp [Answer.leftIn, Answer.written, Store.behind, Store.withoutTraces, Store.traces]
  | fault hread hform hfault =>
    have heval := eval_prompted host hread store
    rw [guarded_of_fault hform hfault] at heval
    refine (Session.answer_of_fault (not_blank_of_form hread) heval).trans ?_
    simp [Answer.leftIn, Answer.written, Store.behind, Store.withoutTraces, Store.traces]

/-! ### A line in a session -/

/-- What is asked of a session for a line. -/
def Session.exchange (host : Host) (line : String) : Machine Unit := do
  Machine.write prompt
  Session.answer host line

theorem exchange_eq (host : Host) (line : String) (store : Store) :
    Session.exchange host line store.withoutTraces = Session.answer host line (prompted store) :=
  bind_of_ok (write_withoutTraces prompt store)

theorem AnswersLine.perform_eq
    (hline : AnswersLine host session.store.withoutTraces line answer next)
    (hprintable : answer.reply.IsPrintable) :
    session.perform (Session.exchange host line) = (.ok (), session.after (answer.leftIn next)) :=
  Session.perform_of_ok ((exchange_eq host line session.store).trans (hline.answer_eq hprintable))

/-- A session goes on after a line only if that is answered. -/
theorem exists_answersLine_of_perform {between : Session}
    (hline : ∃ forms, readSource Interpreter.depthLimit line = .ok forms ∧ forms.length ≤ 1)
    (hperform : session.perform (Session.exchange host line) = (.ok (), between)) :
    ∃ answer next, AnswersLine host session.store.withoutTraces line answer next ∧
      answer.reply.IsPrintable ∧ between = session.after (answer.leftIn next) := by
  have hended : ∀ interrupt after,
      Session.answer host line (prompted session.store) ≠ .error interrupt after := by
    intro interrupt after hanswer
    have herror := Session.perform_of_error
      ((exchange_eq host line session.store).trans hanswer)
    cases herror.symm.trans hperform
  obtain ⟨answer, next, hanswers⟩ | ⟨form, interrupt, after, hread, hform, hescape⟩ :=
    exists_answersLine_or_escape host hline session.store.withoutTraces
  · by_cases hprintable : answer.reply.IsPrintable
    · cases (hanswers.perform_eq hprintable).symm.trans hperform
      exact ⟨answer, next, hanswers, hprintable, rfl⟩
    · cases hanswers with
      | nothing => exact absurd trivial hprintable
      | fault => exact absurd trivial hprintable
      | value hread hform =>
        have heval := eval_prompted host hread session.store
        rw [guarded_of_ok hform] at heval
        obtain ⟨interrupt, hanswer⟩ :=
          Session.answer_of_unprintable (not_blank_of_form hread) heval hprintable
        exact absurd hanswer (hended _ _)
  · have heval := eval_prompted host hread session.store
    rw [guarded_of_escape hform hescape] at heval
    refine absurd (Session.answer_of_escape (not_blank_of_form hread) heval ?_) (hended _ _)
    rintro fault rfl
    cases hescape

/-! ### All lines -/

theorem Session.answerLines_cons (host : Host) (session : Session) (line : String)
    (lines : List String) :
    session.answerLines host (line :: lines) =
      match session.perform (Session.exchange host line) with
      | (.ok (), session) => session.answerLines host lines
      | (.error interrupt, session) => (.error interrupt, session) := by
  rfl

/-- At the end of the input there is one more prompt. -/
theorem Session.answerLines_nil (host : Host) (session : Session) :
    session.answerLines host [] = (.ok (), session.answered [] session.store.withoutTraces) := by
  refine (perform_of_ok (write_withoutTraces (prompt ++ "\n") session.store)).trans ?_
  simp [Session.after, Session.answered, Store.behind, Store.withoutTraces, Session.logText]

variable {lines : List String} {answers : List Answer} {after : Store}

theorem AnswersLines.answerLines_eq
    (hanswers : AnswersLines host session.store.withoutTraces lines answers after)
    (hprintable : ∀ answer ∈ answers, answer.reply.IsPrintable) :
    session.answerLines host lines = (.ok (), session.answered answers after) := by
  induction lines generalizing session answers with
  | nil =>
    cases hanswers
    exact Session.answerLines_nil host session
  | cons line lines ih =>
    cases hanswers with
    | @cons _ between _ _ _ answer answers hline hrest =>
      rw [List.forall_mem_cons] at hprintable
      rw [Session.answerLines_cons, hline.perform_eq hprintable.1]
      have hstore : (session.after (answer.leftIn between)).store.withoutTraces = between :=
        hline.withoutTraces_eq rfl
      rw [← hstore] at hrest
      exact ih hrest hprintable.2

theorem exists_answersLines_of_answerLines {final : Session}
    (hlines : ∀ line ∈ lines, ∃ forms,
      readSource Interpreter.depthLimit line = .ok forms ∧ forms.length ≤ 1)
    (hsession : session.answerLines host lines = (.ok (), final)) :
    ∃ answers after, AnswersLines host session.store.withoutTraces lines answers after ∧
      (∀ answer ∈ answers, answer.reply.IsPrintable) ∧ final = session.answered answers after := by
  induction lines generalizing session with
  | nil =>
    rw [Session.answerLines_nil] at hsession
    cases hsession
    exact ⟨[], _, .nil _, List.forall_mem_nil _, rfl⟩
  | cons line lines ih =>
    rw [List.forall_mem_cons] at hlines
    rw [Session.answerLines_cons] at hsession
    cases hperform : session.perform (Session.exchange host line) with
    | mk result between =>
      rw [hperform] at hsession
      cases result with
      | error interrupt => cases hsession
      | ok =>
        obtain ⟨answer, next, hline, hprintable, rfl⟩ :=
          exists_answersLine_of_perform hlines.1 hperform
        obtain ⟨answers, after, hanswers, hall, rfl⟩ := ih hlines.2 hsession
        have hstore : (session.after (answer.leftIn next)).store.withoutTraces = next :=
          hline.withoutTraces_eq rfl
        rw [hstore] at hanswers
        exact ⟨answer :: answers, after, .cons hline hanswers,
          List.forall_mem_cons.2 ⟨hprintable, hall⟩, rfl⟩

/-! ### All lines as one text -/

/-- To run the lines as one text is to do as is done for the answers. -/
theorem AnswersLines.exists_foldlM (hanswers : AnswersLines host store lines answers after)
    (traces : Traces) (previous : Datum) :
    ∃ forms value, readSource Interpreter.depthLimit ("\n".intercalate lines) = .ok forms ∧
      forms.foldlM (attempt (Interpreter.context host) Interpreter.rootFrame) previous
          (store.behind traces) =
        .ok value (after.behind (answers.foldl Answer.following traces)) := by
  induction hanswers generalizing traces previous with
  | nil => exact ⟨[], previous, String.intercalate_nil ▸ readSource_of_blank rfl, rfl⟩
  | cons hline _ ih =>
    obtain ⟨forms, between, hread, hforms⟩ := hline.exists_foldlM traces previous
    obtain ⟨others, value, hothers, hrest⟩ := ih (Answer.following traces _) between
    refine ⟨forms ++ others, value, readSource_intercalate_cons hread hothers, ?_⟩
    rw [List.foldlM_append, bind_of_ok hforms, hrest]
    rfl

theorem run_of_readSource (host : Host) {text : String} {forms : List Datum}
    (hread : readSource Interpreter.depthLimit text = .ok forms) :
    Interpreter.run host text =
      forms.foldlM (attempt (Interpreter.context host) Interpreter.rootFrame) .unspecified := by
  have hcontext : readSource (Interpreter.context host).limit text = .ok forms := hread
  exact Interpreter.serve_run_of_readSource hcontext

/-- If the lines can be run as one text to its end, they have answers. -/
theorem exists_answersLines_of_foldlM {forms : List Datum} {traces : Traces}
    {previous value : Datum} {ran : Store}
    (hlines : ∀ line ∈ lines, ∃ forms,
      readSource Interpreter.depthLimit line = .ok forms ∧ forms.length ≤ 1)
    (hread : readSource Interpreter.depthLimit ("\n".intercalate lines) = .ok forms)
    (hruns : forms.foldlM (attempt (Interpreter.context host) Interpreter.rootFrame) previous
      (store.behind traces) = .ok value ran) :
    ∃ answers after, AnswersLines host store lines answers after := by
  induction lines generalizing forms store traces previous with
  | nil => exact ⟨[], store, .nil store⟩
  | cons line lines ih =>
    rw [List.forall_mem_cons] at hlines
    obtain ⟨others, hothers⟩ := exists_readSource_intercalate fun other hmem =>
      (hlines.2 other hmem).imp fun _ => And.left
    obtain ⟨answer, next, hline⟩ | ⟨form, interrupt, between, hform, hevaluates, hescape⟩ :=
      exists_answersLine_or_escape host hlines.1 store
    · obtain ⟨own, middle, hown, hforms⟩ := hline.exists_foldlM traces previous
      cases hread.symm.trans (readSource_intercalate_cons hown hothers)
      rw [List.foldlM_append, bind_of_ok hforms] at hruns
      obtain ⟨answers, after, hanswers⟩ := ih hlines.2 hothers hruns
      exact ⟨answer :: answers, after, .cons hline hanswers⟩
    · cases hread.symm.trans (readSource_intercalate_cons hform hothers)
      have hbehind := evaluate_behind host form traces store
      rw [hevaluates] at hbehind
      rw [List.singleton_append, List.foldlM_cons,
        bind_of_error (attempt_of_escape hbehind hescape)] at hruns
      cases hruns

theorem AnswersLines.withoutTraces_eq (hanswers : AnswersLines host store lines answers after)
    (hstore : store.withoutTraces = store) : after.withoutTraces = after := by
  induction hanswers with
  | nil => exact hstore
  | cons hline _ ih => exact ih (hline.withoutTraces_eq hstore)

theorem traces_behind {traces : Traces} (hafter : after.withoutTraces = after) :
    (after.behind traces).traces = traces := by
  rw [← hafter]
  simp [Store.behind, Store.traces, Store.withoutTraces]

/-- To run the lines as one text leaves the store of the answers, and their traces. -/
theorem AnswersLines.exists_run
    (hanswers : AnswersLines host session.store.withoutTraces lines answers after) :
    ∃ value ran, Interpreter.run host ("\n".intercalate lines) session.store = .ok value ran ∧
      ran.withoutTraces = after ∧
      ran.traces = answers.foldl Answer.following session.store.traces := by
  obtain ⟨forms, value, hread, hforms⟩ :=
    hanswers.exists_foldlM session.store.traces .unspecified
  rw [Store.behind_traces] at hforms
  have hafter := hanswers.withoutTraces_eq rfl
  exact ⟨value, _, (congrFun (run_of_readSource host hread) _).trans hforms, hafter,
    traces_behind hafter⟩

/-- Lines are given, each of which can be read and has one form at most. A session that answers them
gets to the end of the input just where they can be run as one text and the values can be printed.
It is then in the store that the text leaves, traces apart: each line was answered in the store that
the one before it left, with the text of its value, if that says something, or with the text of its
fault, of which the log of the run has a record at this place. -/
theorem answerLines_agrees_with_run (host : Host) (session : Session) (lines : List String)
    (hlines : ∀ line ∈ lines, ∃ forms,
      readSource Interpreter.depthLimit line = .ok forms ∧ forms.length ≤ 1) :
    let text := "\n".intercalate lines
    (∀ final, session.answerLines host lines = (.ok (), final) →
      ∃ answers value ran, Interpreter.run host text session.store = .ok value ran ∧
        final.store.withoutTraces = ran.withoutTraces ∧
        AnswersLines host session.store.withoutTraces lines answers ran.withoutTraces ∧
        final = session.answered answers ran.withoutTraces ∧
        ran.traces = answers.foldl Answer.following session.store.traces) ∧
    ∀ value ran, Interpreter.run host text session.store = .ok value ran →
      ∃ answers, AnswersLines host session.store.withoutTraces lines answers ran.withoutTraces ∧
        ran.traces = answers.foldl Answer.following session.store.traces ∧
        ((∀ answer ∈ answers, answer.reply.IsPrintable) →
          session.answerLines host lines =
            (.ok (), session.answered answers ran.withoutTraces)) := by
  intro text
  refine ⟨fun final hsession => ?_, fun value ran hrun => ?_⟩
  · obtain ⟨answers, after, hanswers, -, rfl⟩ :=
      exists_answersLines_of_answerLines hlines hsession
    obtain ⟨value, ran, hrun, rfl, htraces⟩ := hanswers.exists_run
    exact ⟨answers, value, ran, hrun, rfl, hanswers, rfl, htraces⟩
  · obtain ⟨forms, hread⟩ := exists_readSource_intercalate fun line hmem =>
      (hlines line hmem).imp fun _ => And.left
    have hforms := (congrFun (run_of_readSource host hread) session.store).symm.trans hrun
    rw [← Store.behind_traces session.store] at hforms
    obtain ⟨answers, after, hanswers⟩ := exists_answersLines_of_foldlM hlines hread hforms
    obtain ⟨_, _, hsame, rfl, htraces⟩ := hanswers.exists_run
    cases hsame.symm.trans hrun
    exact ⟨answers, hanswers, htraces, hanswers.answerLines_eq⟩

/-- A blank line, a line with a value and one with a fault. -/
theorem answerLines_of_three_lines :
    let host : Host := { settings := .ofVariables ⟨none, none, none⟩, files := .catalogue [] }
    let lines := [" ", String.ofList (Literal.encode "done".toList), "lost"]
    let session := Session.start 30
    (∀ line ∈ lines, ∃ forms,
      readSource Interpreter.depthLimit line = .ok forms ∧ forms.length ≤ 1) ∧
    ∃ final, session.answerLines host lines = (.ok (), final) ∧
      final.output = "sable> sable> \"done\"\n" ++
        "sable> SableUnboundSymbol: Unbound symbol: lost\nsable> \n" ∧
      ∃ answers value ran,
        Interpreter.run host ("\n".intercalate lines) session.store = .ok value ran ∧
        final.store.withoutTraces = ran.withoutTraces ∧
        final = session.answered answers ran.withoutTraces ∧
        ran.traces = answers.foldl Answer.following session.store.traces := by
  intro host lines session
  have hblank : readSource Interpreter.depthLimit " " = .ok [] := readSource_of_blank rfl
  have hdone : readSource Interpreter.depthLimit (String.ofList (Literal.encode "done".toList)) =
      .ok [.str "done"] := by
    have hreads : ReadsAs Interpreter.depthLimit 0 (Literal.encode "done".toList)
      (.str (String.ofList "done".toList)) := readsAs_string "done".toList
    exact readSource_of_readsAs hreads (by decide)
  have hlost : readSource Interpreter.depthLimit "lost" = .ok [.symbol "lost"] := by
    have hidentifier : IsIdentifier "lost" :=
      ⟨isSymbolToken_iff.2 ⟨by decide, List.all_eq_true.1 (by decide)⟩, rfl⟩
    have hreads : ReadsAs Interpreter.depthLimit 0 "lost".toList (.symbol "lost") :=
      readsAs_identifier hidentifier
    exact readSource_of_readsAs hreads (by decide)
  have hlines : ∀ line ∈ lines, ∃ forms,
      readSource Interpreter.depthLimit line = .ok forms ∧ forms.length ≤ 1 := by
    intro line hmem
    obtain rfl | rfl | rfl : line = " " ∨ line = String.ofList (Literal.encode "done".toList) ∨
        line = "lost" := by simpa [lines] using hmem
    · exact ⟨_, hblank, by decide⟩
    · exact ⟨_, hdone, by decide⟩
    · exact ⟨_, hlost, by decide⟩
  have hunbound : (Interpreter.context host).evaluate (.symbol "lost") Interpreter.rootFrame
      Interpreter.initialStore =
        .error (.fault (.unbound "lost")) Interpreter.initialStore := by
    have hfree : Interpreter.initialStore.lookup? "lost" Interpreter.rootFrame = none := by
      rw [Store.lookup?, Store.find?]
      rfl
    refine (congrFun (Interpreter.evaluate_symbol_eq host 999999999999999 999 "lost" _) _).trans ?_
    rw [lookup_eq, hfree]
  let three : List Answer := [⟨⟨"", #[], #[]⟩, .nothing⟩, ⟨⟨"", #[], #[]⟩, .value (.str "done")⟩,
    ⟨⟨"", #[], #[]⟩, .fault (.unbound "lost")⟩]
  have hanswers : AnswersLines host session.store.withoutTraces lines three session.store :=
    .cons (.nothing hblank) (.cons (.value hdone rfl) (.cons (.fault hlost hunbound rfl) (.nil _)))
  have hsession : session.answerLines host lines = (.ok (), session.answered three session.store) :=
    hanswers.answerLines_eq (by simp [three, Reply.IsPrintable]; rfl)
  obtain ⟨answers, value, ran, hrun, hstore, -, hfinal, htraces⟩ :=
    (answerLines_agrees_with_run host session lines hlines).1 _ hsession
  exact ⟨hlines, _, hsession, rfl, answers, value, ran, hrun, hstore, hfinal, htraces⟩

end CommandLine

end SmallScheme
