import SmallScheme.Proofs.Evaluator.Sequence
import SmallScheme.Proofs.Traces.Evaluator
/-!
# Loading a file

To load a file is to evaluate its forms in the frame that asks for it, as if they stood there, but
only if all of it can be read. Besides, the loading itself leaves a path and a record among the
traces, where no form can see them.
-/

namespace SmallScheme

open Machine

namespace Store

/-- The store when the text of a file has been read. -/
def noteLoading (store : Store) (path : Path) : Store :=
  { store with
    opened := store.opened.push path.text
    log := store.log.push
      { level := .debug, logger := .sourceLoader, message := "loading " ++ path.text } }

/-- A store as it is after a loading, given how it would be without: the file and the record of the
loading come right after the traces from before. -/
def AfterLoading (path : Path) (before after loaded : Store) : Prop :=
  ∃ records paths, after.log = before.log ++ records ∧ after.opened = before.opened ++ paths ∧
    loaded = { after with
      log := (before.noteLoading path).log ++ records
      opened := (before.noteLoading path).opened ++ paths }

end Store

theorem Fault.IsOfText.kind_eq {fault : Fault} (htext : fault.IsOfText) :
    fault.kind = .illFormed := by
  cases fault <;> first | rfl | exact htext.elim

/-- Why a file cannot be opened or decoded, unless there is no file of that name at all. -/
def ReadFailure.reason? (path : Path) : ReadFailure → Option String
  | .refused refusal => some (refusal.message path.text)
  | .undecodable defect => some ("not valid text (" ++ defect.message ++ ")")
  | .zeroInName => none

namespace Machine

variable {context : Context} {frame : FrameId} {name text : String} {path : Path} {store : Store}

/-! ### The steps of a loading -/

theorem readFileText_of_ok {host : Host} (hread : host.files.read path = .ok text) :
    readFileText host path store =
      .ok text { store with opened := store.opened.push path.text } := by
  unfold readFileText
  rw [hread]
  rfl

theorem readFileText_of_error {host : Host} {failure : ReadFailure} {reason : String}
    (hread : host.files.read path = .error failure) (hreason : failure.reason? path = some reason) :
    readFileText host path store =
      .error (.fault (.unavailable path.text reason))
        { store with opened := store.opened.push path.text } := by
  unfold readFileText
  rw [hread]
  cases failure <;> cases hreason <;> rfl

theorem loadFile_of_ok (hresolve : context.host.resolve name = .ok path)
    (hread : context.host.files.read path = .ok text) :
    loadFile context frame name store =
      (ofExcept (readSource context.limit text) >>= runForms context frame)
        (store.noteLoading path) := by
  unfold loadFile
  simp only [hresolve]
  exact bind_of_ok (readFileText_of_ok hread)

theorem loadFile_of_error {failure : ReadFailure} {reason : String}
    (hresolve : context.host.resolve name = .ok path)
    (hread : context.host.files.read path = .error failure)
    (hreason : failure.reason? path = some reason) :
    loadFile context frame name store =
      .error (.fault (.unavailable path.text reason))
        { store with opened := store.opened.push path.text } := by
  unfold loadFile
  simp only [hresolve]
  exact bind_of_error (readFileText_of_error hread hreason)

theorem loadLeniently_of_error {failure : ReadFailure} {reason : String}
    (hresolve : context.host.resolve name = .ok path)
    (hread : context.host.files.read path = .error failure)
    (hreason : failure.reason? path = some reason) :
    loadLeniently context frame name store =
      .ok PUnit.unit
        { store with
          opened := store.opened.push path.text
          log := store.log.push
            { level := .error, logger := .loadForm,
              message := "load " ++ path.text ++ " failed: " ++ reason } } := by
  exact tryCatch_of_error (discard_of_error (loadFile_of_error hresolve hread hreason))

theorem loadLeniently_of_loadFile {value : Datum} {after : Store}
    (hload : loadFile context frame name store = .ok value after) :
    loadLeniently context frame name store = .ok PUnit.unit after :=
  tryCatch_of_ok (discard_of_ok hload)

/-- What is no report of the file passes through. -/
theorem loadLeniently_of_loadFile_error {interrupt : Interrupt} {after : Store}
    (hload : loadFile context frame name store = .error interrupt after)
    (hpasses : ∀ path reason, interrupt ≠ .fault (.unavailable path reason)) :
    loadLeniently context frame name store = .error interrupt after := by
  refine (tryCatch_of_error (discard_of_error hload)).trans ?_
  split
  · next path reason => exact absurd rfl (hpasses path reason)
  · rfl

theorem RunsForms.fault?_eq_none {previous : Datum} {forms : List Datum} {interrupt : Interrupt}
    {after : Store}
    (hruns : RunsForms context frame previous forms store (.error interrupt after)) :
    interrupt.fault? = none := by
  generalize houtcome : EStateM.Result.error interrupt after = outcome at hruns
  induction hruns with
  | nil => cases houtcome
  | value _ _ ih => exact ih houtcome
  | fault _ _ _ ih => exact ih houtcome
  | escape _ hescape =>
    cases houtcome
    exact hescape

/-- Evaluating the form is loading the target that its operand has for a value. -/
theorem evaluate_load_eq {host : Host} {steps limit : Nat} {operand target : Datum}
    {between : Store} (label : Option Label)
    (htarget : evaluate host steps limit operand frame store = .ok target between)
    (hname : target = .str name ∨ target = .quoted name) :
    evaluate host steps (limit + 1) (.form label [.keyword .load, operand]) frame store =
      (loadLeniently (Interpreter.contextWithin host steps limit) frame name >>= fun _ =>
        pure .unspecified) between := by
  cases limit with
  | zero => cases htarget
  | succ limit =>
    cases steps with
    | zero => cases htarget
    | succ steps =>
      let context := Interpreter.contextWithin host (steps + 1) (limit + 1)
      have hload : loadTarget context frame context.limit target =
          loadLeniently context frame name := by
        rcases hname with rfl | rfl <;> rfl
      have hcontext : context.evaluate operand frame store = .ok target between := htarget
      rw [evaluate, iterate_succ, step_keyword, evaluateSpecial, Step.done_map_finish, ← hload]
      exact bind_of_ok hcontext

end Machine

/-! ### Pasting -/

/-- What is done after a loading is noted is what is done without it, but for what is noted. -/
theorem Machine.Oblivious.exists_afterLoading {computation : Machine Datum}
    (hoblivious : Oblivious computation) (path : Path) (store : Store) :
    ∃ loaded, store.AfterLoading path (Outcome.store (computation store)) loaded ∧
      computation (store.noteLoading path) =
        match computation store with
        | .ok value _ => .ok value loaded
        | .error interrupt _ => .error interrupt loaded := by
  have hplain := hoblivious store.traces store.withoutTraces
  have hnoted := hoblivious (store.noteLoading path).traces store.withoutTraces
  rw [store.behind_traces] at hplain
  have hbehind : store.withoutTraces.behind (store.noteLoading path).traces =
      store.noteLoading path := (store.noteLoading path).behind_traces
  rw [hbehind] at hnoted
  rw [hplain, hnoted]
  cases computation store.withoutTraces with
  | ok value after =>
    exact ⟨after.behind (store.noteLoading path).traces, ⟨after.log, after.opened, rfl, rfl, rfl⟩,
      rfl⟩
  | error interrupt after =>
    exact ⟨after.behind (store.noteLoading path).traces, ⟨after.log, after.opened, rfl, rfl, rfl⟩,
      rfl⟩

namespace Machine

variable {context : Context} {frame : FrameId} {name text : String} {path : Path} {store : Store}

/-- A text that is read is loaded with its forms. -/
theorem exists_loadLeniently_of_readSource (hcontext : context.IsOblivious) {forms : List Datum}
    (hresolve : context.host.resolve name = .ok path)
    (hread : context.host.files.read path = .ok text)
    (hforms : readSource context.limit text = .ok forms) :
    ∃ outcome loaded, RunsForms context frame .unspecified forms store outcome ∧
      (∀ interrupt after, outcome = .error interrupt after → interrupt.fault? = none) ∧
      store.AfterLoading path (Outcome.store outcome) loaded ∧
      loadLeniently context frame name store =
        match outcome with
        | .ok _ _ => .ok PUnit.unit loaded
        | .error interrupt _ => .error interrupt loaded := by
  have hruns : RunsForms context frame .unspecified forms store
      (runForms context frame forms store) := runsForms_iff.2 rfl
  obtain ⟨loaded, hafter, hnoted⟩ :=
    (oblivious_runForms hcontext frame forms).exists_afterLoading path store
  have hload : loadFile context frame name store =
      runForms context frame forms (store.noteLoading path) := by
    rw [loadFile_of_ok hresolve hread, hforms]
    rfl
  rw [hnoted] at hload
  generalize runForms context frame forms store = outcome at hruns hafter hload
  refine ⟨outcome, loaded, hruns, ?_, hafter, ?_⟩
  · rintro interrupt after rfl
    exact hruns.fault?_eq_none
  · cases outcome with
    | ok value after => exact loadLeniently_of_loadFile hload
    | error interrupt after =>
      refine loadLeniently_of_loadFile_error hload ?_
      rintro path reason rfl
      cases hruns.fault?_eq_none

/-- A text that cannot be read as a whole is not loaded. -/
theorem loadLeniently_of_readSource_error {interrupt : Interrupt}
    (hresolve : context.host.resolve name = .ok path)
    (hread : context.host.files.read path = .ok text)
    (hfailure : readSource context.limit text = .error interrupt) :
    loadLeniently context frame name store = .error interrupt (store.noteLoading path) := by
  have hload : loadFile context frame name store =
      .error interrupt (store.noteLoading path) := by
    rw [loadFile_of_ok hresolve hread, hfailure]
    rfl
  refine loadLeniently_of_loadFile_error hload ?_
  rintro path reason rfl
  exact isOfText_of_readSource hfailure

end Machine

theorem readAll_of_readSource_error {limit : Nat} {text : String} {interrupt : Interrupt}
    (hfailure : readSource limit text = .error interrupt) :
    ((TokenStream.ofText text).readAll limit).2 = some interrupt := by
  rw [readSource] at hfailure
  split at hfailure
  · cases hfailure
  · next hall =>
    cases hfailure
    rw [hall]

namespace Interpreter

theorem isOblivious_contextWithin (host : Host) (steps limit : Nat) :
    (contextWithin host steps limit).IsOblivious :=
  oblivious_evaluate host steps limit

/-- Loading a file of readable text does what its forms do one after the other in the same frame,
each fault reported and none raised, and so at the top level what running the text does; but its
value is unspecified. If the text cannot be read as a whole, that is raised, and no form is
evaluated. A file that cannot be opened or decoded is reported, and nothing else happens. -/
theorem evaluate_load_of_resolve {host : Host} {steps limit : Nat} {operand target : Datum}
    {frame : FrameId} {store between : Store} {name : String} {path : Path}
    (htarget : evaluate host steps limit operand frame store = .ok target between)
    (hname : target = .str name ∨ target = .quoted name)
    (hresolve : host.resolve name = .ok path) (label : Option Label) :
    let context := contextWithin host steps limit
    let load := evaluate host steps (limit + 1) (.form label [.keyword .load, operand]) frame store
    (∀ text forms, host.files.read path = .ok text → readSource limit text = .ok forms →
      ∃ outcome loaded, RunsForms context frame .unspecified forms between outcome ∧
        (frame = rootFrame → (Request.run text).serve context between = outcome) ∧
        (∀ interrupt after, outcome = .error interrupt after → interrupt.fault? = none) ∧
        between.AfterLoading path (Outcome.store outcome) loaded ∧
        load = match outcome with
          | .ok _ _ => .ok .unspecified loaded
          | .error interrupt _ => .error interrupt loaded) ∧
    (∀ text interrupt, host.files.read path = .ok text →
      readSource limit text = .error interrupt →
        load = .error interrupt (between.noteLoading path) ∧
        (∀ fault, interrupt = .fault fault → fault.kind = .illFormed) ∧
        ∃ outcome, RunsForms context rootFrame .unspecified
            ((TokenStream.ofText text).readAll limit).1 between outcome ∧
          (Request.run text).serve context between = outcome.reporting (some interrupt)) ∧
    ∀ failure reason, host.files.read path = .error failure →
      failure.reason? path = some reason →
        load = .ok .unspecified
          { between with
            opened := between.opened.push path.text
            log := between.log.push
              { level := .error, logger := .loadForm,
                message := "load " ++ path.text ++ " failed: " ++ reason } } := by
  intro context load
  have hload : load = (loadLeniently context frame name >>= fun _ => pure .unspecified) between :=
    evaluate_load_eq label htarget hname
  refine ⟨?_, ?_, ?_⟩
  · intro text forms hread hforms
    obtain ⟨outcome, loaded, hruns, hpasses, hafter, hlenient⟩ :=
      exists_loadLeniently_of_readSource (isOblivious_contextWithin host steps limit) hresolve hread
        hforms
    refine ⟨outcome, loaded, hruns, ?_, hpasses, hafter, ?_⟩
    · rintro rfl
      rw [serve_run_of_readSource hforms]
      exact runsForms_iff.1 hruns
    · cases outcome with
      | ok value after => exact hload.trans (bind_of_ok hlenient)
      | error interrupt after => exact hload.trans (bind_of_error hlenient)
  · intro text interrupt hread hfailure
    have hlenient : loadLeniently context frame name between =
        .error interrupt (between.noteLoading path) :=
      loadLeniently_of_readSource_error hresolve hread hfailure
    have hall : ((TokenStream.ofText text).readAll context.limit).2 = some interrupt :=
      readAll_of_readSource_error hfailure
    refine ⟨hload.trans (bind_of_error hlenient), ?_, _, runsForms_iff.2 rfl, ?_⟩
    · rintro fault rfl
      exact (isOfText_of_readSource hfailure).kind_eq
    · rw [serve_run_eq, hall]
      rfl
  · intro failure reason hread hreason
    exact hload.trans (bind_of_ok (loadLeniently_of_error hresolve hread hreason))

/-- A file with a definition and a form that fails leaves the binding and a report of the failure. A
file that does not close its last list is refused, whatever stands before that. -/
theorem evaluate_load_of_two_files :
    let host : Host :=
      { settings := .ofVariables ⟨none, none, none⟩
        files :=
          { isFile := fun _ => .ok true
            read := fun path => .ok
              (if path.text = "good.scm" then "(define x car) (y)" else "(define x car) (y") } }
    let load : String → Outcome Datum := fun name =>
      evaluate host 9 9 (.form none [.keyword .load, .str name]) rootFrame initialStore
    (∃ loaded, load "good" = .ok .unspecified loaded ∧
      (loaded.bindings rootFrame).get? "x" = some (.builtin .car) ∧
      loaded.log.map (·.message) =
        #["loading good.scm", "SableUnboundSymbol: Unbound symbol: y"]) ∧
    load "bad" = .error (.fault .unclosedList)
      (initialStore.noteLoading (Path.ofText "bad.scm")) := by
  intro host load
  have htarget : ∀ name, evaluate host 9 8 (.str name) rootFrame initialStore =
      .ok (.str name) initialStore := fun _ => rfl
  -- to read is by well-founded recursion, which only unfolds on request
  have hforms : readSource 8 "(define x car) (y)" = .ok
      [.form none [.keyword .define, .symbol "x", .symbol "car"], .form none [.symbol "y"]] := by
    with_unfolding_all rfl
  have hfailure : readSource 8 "(define x car) (y" = .error (.fault .unclosedList) := by
    with_unfolding_all rfl
  have hextension : host.settings.extension = ".scm" := rfl
  have hgood : host.resolve "good" = .ok (Path.ofText "good.scm") := by
    have hextended : (Path.ofText "good").withExtension ".scm" = .ok (Path.ofText "good.scm") := rfl
    rw [Host.resolve, hextension, hextended]
    rfl
  have hbad : host.resolve "bad" = .ok (Path.ofText "bad.scm") := by
    have hextended : (Path.ofText "bad").withExtension ".scm" = .ok (Path.ofText "bad.scm") := rfl
    rw [Host.resolve, hextension, hextended]
    rfl
  obtain ⟨hload, -⟩ := evaluate_load_of_resolve (htarget "good") (.inl rfl) hgood none
  obtain ⟨outcome, loaded, hruns, -, -, ⟨records, paths, hrecords, -, hloaded⟩, hends⟩ :=
    hload _ _ rfl hforms
  have houtcome : outcome = .ok .unspecified
      { initialStore with
        frames := #[⟨initialBindings ++ [("x", .builtin .car)], none⟩]
        log := #[⟨.error, .sequence, "SableUnboundSymbol: Unbound symbol: y"⟩] } := by
    refine (runsForms_iff.1 hruns).symm.trans ?_
    with_unfolding_all rfl
  subst houtcome
  have hreported := hrecords.trans Array.empty_append
  obtain ⟨-, hunread, -⟩ := evaluate_load_of_resolve (htarget "bad") (.inl rfl) hbad none
  obtain ⟨hrefused, -⟩ := hunread _ _ rfl hfailure
  refine ⟨⟨loaded, hends, ?_, ?_⟩, hrefused⟩
  · rw [hloaded]
    with_unfolding_all rfl
  · rw [hloaded, ← hreported]
    with_unfolding_all rfl

end Interpreter

end SmallScheme
