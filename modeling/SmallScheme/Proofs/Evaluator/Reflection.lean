import SmallScheme.Interpreter
import SmallScheme.Proofs.Evaluator.RoundTrip
import SmallScheme.Proofs.Relabelling.Evaluator
import SmallScheme.Proofs.Soundness.Reachable
/-!
# Evaluating a quoted form

To evaluate the value of a quoted form is to print it, to read the text, and to evaluate what was
read. For a form whose numbers are finite and no negative zeros, that is the form itself; so it does
what the form does, except that a fault is reported and leaves no value. The pairs that quoting
takes move the labels of those that come later, and nothing else depends on them.
-/

namespace SmallScheme

open Machine

/-! ### Labels that a store has not given out -/

/-- The labels that a store has not given out are moved up. -/
def Store.shift (store : Store) (count : Nat) : Shift := ⟨store.nextLabel, count⟩

theorem Datum.IsValue.relabel_eq {store : Store} {value : Datum} (hvalue : value.IsValue store)
    (count : Nat) : value.relabel (store.shift count) = value := by
  induction hvalue with
  | pair hlabel _ _ ihhead ihtail =>
    rw [relabel, ihhead, ihtail, Shift.apply_of_lt hlabel]
  | closure hlabel _ _ hbody _ =>
    rw [relabel, relabelAll_eq_map, Shift.apply_of_lt hlabel,
      List.map_congr_left fun form hmem => (hbody form hmem).relabel_eq _, List.map_id']
  | _ => rfl

/-- A sound store has no labels but those that it has given out. -/
theorem Store.Sound.relabel_eq {store : Store} (hsound : store.Sound) (count : Nat) :
    store.relabel (store.shift count) =
      { store with nextLabel := store.nextLabel + count } := by
  have hframes : store.frames.map (Frame.relabel (store.shift count)) = store.frames := by
    refine Array.ext_getElem? fun id => ?_
    rw [Array.getElem?_map]
    cases hframe : store.frames[id]? with
    | none => rfl
    | some frame =>
      have hbindings : frame.bindings.relabel (store.shift count) = frame.bindings := by
        rw [Bindings.relabel, List.map_congr_left fun binding hmem =>
          congrArg (Prod.mk binding.1)
            (((hsound.frames hframe).bindings binding hmem).relabel_eq count), List.map_id']
      rw [Option.map_some, Frame.relabel, hbindings]
  have hpromises : store.promises.map (Promise.relabel (store.shift count)) = store.promises := by
    refine Array.ext_getElem? fun id => ?_
    rw [Array.getElem?_map]
    cases hpromise : store.promises[id]? with
    | none => rfl
    | some promise =>
      have hsame := hsound.promises hpromise
      cases promise with
      | pending expression frame =>
        rw [Option.map_some, Promise.relabel, hsame.1.relabel_eq]
      | forced value => rw [Option.map_some, Promise.relabel, hsame.relabel_eq]
  have hlabel : (store.shift count).apply store.nextLabel = store.nextLabel + count :=
    Shift.apply_of_le (Nat.le_refl store.nextLabel)
  rw [relabel, hframes, hpromises, hlabel]

/-! ### Reflection -/

/-- The application of evaluation to the quoted form. -/
def Datum.reflected (form : Datum) : Datum :=
  .form none [.keyword .eval, .form none [.keyword .quote, form]]

/-- What evaluating a text makes of the outcome of the form in it: a fault becomes a record of the
log, and there is no value then. -/
def Outcome.reflected (source : String) : Outcome Datum → Outcome Datum
  | .error (.fault fault) after =>
    .ok .unspecified
      { after with
        log := after.log.push
          { level := .error
            logger := .evalForm
            message := "eval of " ++ source ++ " failed: " ++ fault.message } }
  | outcome => outcome

namespace Machine

variable {host : Host} {steps limit : Nat} {frame : FrameId} {store : Store}

theorem evaluate_of_done {label : Option Label} {form : SpecialForm} {operands : List Datum}
    {computation : Machine Datum}
    (hform : evaluateSpecial { host, limit, evaluate := evaluate host (steps + 1) limit } frame
      operands form = Step.done <$> computation) :
    evaluate host (steps + 1) (limit + 1) (.form label (.keyword form :: operands)) frame =
      computation := by
  rw [evaluate, iterate_succ, step_keyword, hform, Step.done_map_finish]

theorem evaluateWritten_of_forms {context : Context} {value : Datum} {forms : List Datum}
    (hwell : value.wellFormed? context.limit = some true)
    (hprint : value.printObstacle? context.limit = none)
    (hread : readSource context.limit value.source = .ok forms) :
    evaluateWritten context frame value store =
      Outcome.reflected value.source (evaluateForms context frame forms store) := by
  have hparse : (ofExcept (readSource context.limit value.source) : Machine (List Datum)) store =
      .ok forms store := by
    rw [hread]
    rfl
  rw [evaluateWritten, hwell]
  refine (bind_of_ok (checkPrintable_of_shown hprint store)).trans ((bind_of_ok hparse).trans ?_)
  cases houtcome : evaluateForms context frame forms store with
  | ok value after => exact tryCatch_of_ok houtcome
  | error interrupt after =>
    refine (tryCatch_of_error houtcome).trans ?_
    cases interrupt <;> rfl

theorem evaluateWritten_of_readSource {context : Context} {value form : Datum}
    (hwell : value.wellFormed? context.limit = some true)
    (hprint : value.printObstacle? context.limit = none)
    (hread : readSource context.limit value.source = .ok [form]) :
    evaluateWritten context frame value store =
      Outcome.reflected value.source (context.evaluate form frame store) := by
  have hforms : evaluateForms context frame [form] = context.evaluate form frame := by
    rw [evaluateForms, List.foldlM_cons]
    exact bind_pure _
  rw [evaluateWritten_of_forms hwell hprint hread, hforms]

/-- Evaluating a quoted form does what the form does, up to the labels of new values. -/
theorem evaluate_reflected {text : String} {readLimit : Nat} {form : Datum}
    (hread : form ∈ ((TokenStream.ofText text).readAll readLimit).1)
    (hliterals : ∀ number ∈ form.literals, number.IsFinite ∧ number ≠ .zero true)
    (hsound : store.Sound) (hdeep : form.nesting < limit)
    (hfinished : Outcome.IsFinished (evaluate host steps limit form frame store)) :
    ∃ count, evaluate host steps (limit + 1) form.reflected frame store =
      Outcome.reflected form.source
        (Outcome.relabel (store.shift count) (Datum.relabel (store.shift count))
          (evaluate host steps limit form frame store)) := by
  have hwritten : form.IsSyntax :=
    TokenStream.isSyntax_of_mem_readAll (.rest text.toList 0) form hread
  cases limit with
  | zero => exact absurd hdeep (Nat.not_lt_zero _)
  | succ limit =>
    cases steps with
    | zero => exact absurd rfl hfinished
    | succ steps =>
      obtain ⟨quoted, count, hquote, hdata, hwell, hshown, hchars⟩ :=
        quotesTo_of_isPlain (hwritten.isPlain hliterals) (Nat.le_of_lt_succ hdeep) store
      have hanswer : quoted.wellFormed? (limit + 1) = some true := by
        refine Datum.wellFormed?_of_wellFormed hwell ?_
        rwa [← Datum.nesting_syntaxOf hwell, hshown]
      have hsource : quoted.source = form.source := congrArg String.ofList hchars
      have hread : readSource (limit + 1) quoted.source = .ok [form] := by
        rw [← hshown]
        exact readSource_of_readsAs (readsAs_chars hdata hanswer) (Nat.le_refl _)
      have heval : evaluate host (steps + 1) (limit + 1 + 1) form.reflected frame =
          evaluate host (steps + 1) (limit + 1) (.form none [.keyword .quote, form]) frame >>=
            evaluateWritten
              { host, limit := limit + 1, evaluate := evaluate host (steps + 1) (limit + 1) }
              frame :=
        evaluate_of_done rfl
      have hinner : evaluate host (steps + 1) (limit + 1) (.form none [.keyword .quote, form])
          frame = quoteDatum limit form :=
        evaluate_of_done rfl
      -- quoting has taken `count` labels and nothing else: the form is evaluated in a shifted store
      have hsame : Simulates (store.shift count) (Datum.relabel (store.shift count))
          (evaluate host (steps + 1) (limit + 1) form frame)
          fun _ => evaluate host (steps + 1) (limit + 1) (form.relabel (store.shift count)) frame :=
        simulates_evaluate host (steps + 1) (fun _ => Nat.le_refl _) (limit + 1) form frame
      obtain ⟨-, least, hrun⟩ := hsame.run (Nat.le_refl store.nextLabel) hfinished
      rw [hwritten.relabel_eq, hsound.relabel_eq] at hrun
      refine ⟨count, ?_⟩
      rw [heval, hinner, bind_of_ok hquote,
        evaluateWritten_of_readSource hanswer (hdata.printObstacle?_eq_none hanswer) hread, hsource]
      exact congrArg (Outcome.reflected form.source) (hrun least (Nat.le_refl least))

/-- A conditional without operands is reported when the value of its quotation is evaluated. -/
theorem evaluate_reflected_branch :
    ∃ count,
      evaluate { settings := .ofVariables ⟨none, none, none⟩, files := .catalogue [] } 1 3
          (Datum.form none [.keyword .branch]).reflected Interpreter.rootFrame
          Interpreter.initialStore =
        .ok .unspecified
          { Interpreter.initialStore.relabel (Interpreter.initialStore.shift count) with
            log := #[{
              level := .error
              logger := .evalForm
              message := "eval of (if) failed: " ++ (Fault.operandCount .branch).message }] } := by
  have hdata : (Datum.pair 0 (.quoted "if") .empty).IsData :=
    .pair (.quoted (isIdentifier_keyword .branch)) .empty
  have hwell : (Datum.pair 0 (.quoted "if") .empty).wellFormed? 2 = some true := rfl
  have hsource : readSource 2 "(if)" = .ok [.form none [.keyword .branch]] :=
    readSource_of_readsAs (readsAs_chars hdata hwell) (Nat.le_refl 2)
  have hread : Datum.form none [.keyword .branch] ∈ ((TokenStream.ofText "(if)").readAll 2).1 := by
    rw [readAll_of_readSource hsource]
    exact List.mem_cons_self
  have hfinished : Outcome.IsFinished (evaluate
      { settings := .ofVariables ⟨none, none, none⟩, files := .catalogue [] } 1 2
      (Datum.form none [.keyword .branch]) Interpreter.rootFrame Interpreter.initialStore) := by
    rintro ⟨⟩
  obtain ⟨count, hreflected⟩ := evaluate_reflected hread
    (fun _ hmem => absurd hmem List.not_mem_nil) Interpreter.sound_initialStore (by decide)
    hfinished
  exact ⟨count, hreflected⟩

end Machine

end SmallScheme
