import SmallScheme.Proofs.Evaluator.Sequence
import SmallScheme.Proofs.Reader.Concatenation
/-!
# Running one text after another

Forms that are evaluated resiliently leave nothing behind but the store and the value of the last
one that had a value. So to run a text and another one on the next line is to run the one and then
the other.
-/

namespace SmallScheme

open Machine

/-- The outcome with another value, if it has one. -/
def Outcome.withValue (value : Datum) : Outcome Datum → Outcome Datum
  | .ok _ after => .ok value after
  | .error interrupt after => .error interrupt after

namespace Machine

/-- Some form has a value when the forms are evaluated in turn. -/
inductive HasValue (context : Context) (frame : FrameId) : List Datum → Store → Prop where
  | here {form value : Datum} {rest : List Datum} {store between : Store}
    (hform : context.evaluate form frame store = .ok value between) :
    HasValue context frame (form :: rest) store
  | later {form : Datum} {rest : List Datum} {store between : Store} {interrupt : Interrupt}
    {fault : Fault} (hform : context.evaluate form frame store = .error interrupt between)
    (hfault : interrupt.fault? = some fault)
    (hrest : HasValue context frame rest (between.recordFault fault)) :
    HasValue context frame (form :: rest) store

namespace RunsForms

variable {context : Context} {frame : FrameId} {previous : Datum} {forms : List Datum}
  {store : Store} {outcome : Outcome Datum}

/-- Where some form has a value, the previous one does not matter. -/
theorem of_hasValue (hruns : RunsForms context frame previous forms store outcome)
    (hvalue : HasValue context frame forms store) (other : Datum) :
    RunsForms context frame other forms store outcome := by
  induction hruns with
  | nil => cases hvalue
  | value hform hrest => exact .value hform hrest
  | fault hform hfault _ ih =>
    cases hvalue with
    | here hother => cases hother.symm.trans hform
    | later hother hotherFault hrest =>
      cases hother.symm.trans hform
      cases hotherFault.symm.trans hfault
      exact .fault hform hfault (ih hrest)
  | escape hform hescape => exact .escape hform hescape

/-- Where no form has a value, the previous one stays. -/
theorem of_not_hasValue (hruns : RunsForms context frame previous forms store outcome)
    (hvalue : ¬ HasValue context frame forms store) (other : Datum) :
    RunsForms context frame other forms store (outcome.withValue other) := by
  induction hruns with
  | nil previous store => exact .nil other store
  | value hform => exact absurd (.here hform) hvalue
  | fault hform hfault _ ih =>
    exact .fault hform hfault (ih fun hrest => hvalue (.later hform hfault hrest))
  | escape hform hescape => exact .escape hform hescape

theorem append {value : Datum} {between : Store} {others : List Datum}
    (hruns : RunsForms context frame previous forms store (.ok value between))
    (hothers : RunsForms context frame value others between outcome) :
    RunsForms context frame previous (forms ++ others) store outcome := by
  rw [runsForms_iff] at hruns hothers ⊢
  rw [List.foldlM_append, bind_of_ok hruns, hothers]

theorem append_of_error {interrupt : Interrupt} {after : Store}
    (hruns : RunsForms context frame previous forms store (.error interrupt after))
    (others : List Datum) :
    RunsForms context frame previous (forms ++ others) store (.error interrupt after) := by
  rw [runsForms_iff] at hruns ⊢
  rw [List.foldlM_append, bind_of_error hruns]

end RunsForms

end Machine

namespace Interpreter

/-- A text and another one on the next line read as the forms of both, and to run them is to run the
first and, in the store that it leaves, the second, whose value counts if one of its forms has a
value. All that moves is the position of an unexpected character. -/
theorem serve_run_append_newline (host : Host) (steps limit : Nat) {first : String}
    {forms : List Datum} (hfirst : readSource limit first = .ok forms) (second : String)
    (store : Store) :
    let context := contextWithin host steps limit
    let joined := first ++ "\n" ++ second
    let others := ((TokenStream.ofText second).readAll limit).1
    let failure := ((TokenStream.ofText second).readAll limit).2
    let moved := failure.map (Interrupt.movedBy (first.length + 1))
    (readSource limit joined = match readSource limit second with
      | .ok others => .ok (forms ++ others)
      | .error interrupt => .error (interrupt.movedBy (first.length + 1))) ∧
    (TokenStream.ofText joined).readAll limit = (forms ++ others, moved) ∧
    (∀ interrupt after, (Request.run first).serve context store = .error interrupt after →
      (Request.run joined).serve context store = .error interrupt after) ∧
    ∀ value between, (Request.run first).serve context store = .ok value between →
      ∃ outcome, RunsForms context rootFrame .unspecified others between outcome ∧
        (Request.run second).serve context between = outcome.reporting failure ∧
        (HasValue context rootFrame others between →
          (Request.run joined).serve context store = outcome.reporting moved) ∧
        (¬ HasValue context rootFrame others between →
          (Request.run joined).serve context store =
            (outcome.withValue value).reporting moved) := by
  intro context joined others failure moved
  have hjoined : (TokenStream.ofText joined).readAll limit = (forms ++ others, moved) :=
    TokenStream.readAll_append_newline hfirst second
  have hserve : ∀ {outcome},
      RunsForms context rootFrame .unspecified (forms ++ others) store outcome →
        (Request.run joined).serve context store = outcome.reporting moved := by
    intro outcome hruns
    have hread : (TokenStream.ofText joined).readAll context.limit = (forms ++ others, moved) :=
      hjoined
    rw [serve_run_eq, hread, runsForms_iff.1 hruns]
  have hforms : (Request.run first).serve context store =
      forms.foldlM (attempt context rootFrame) .unspecified store := by
    rw [serve_run_of_readSource hfirst]
  refine ⟨readSource_append_newline hfirst second, hjoined, fun interrupt after hrun => ?_,
    fun value between hrun => ?_⟩
  · rw [hforms] at hrun
    exact hserve ((runsForms_iff.2 hrun).append_of_error others)
  · rw [hforms] at hrun
    have hruns := runsForms_iff.2 hrun
    have hothers := runsForms_iff.2 (Eq.refl
      (others.foldlM (attempt context rootFrame) .unspecified between))
    refine ⟨_, hothers, serve_run_eq context second between, fun hvalue => ?_, fun hvalue => ?_⟩
    · exact hserve (hruns.append (hothers.of_hasValue hvalue value))
    · exact hserve (hruns.append (hothers.of_not_hasValue hvalue value))

/-- A literal that is not closed on the second line is reported at its place in the whole, and the
value is that of the first line. -/
theorem serve_run_of_unclosed_line :
    let host : Host := { settings := .ofVariables ⟨none, none, none⟩, files := .catalogue [] }
    let context := contextWithin host 4 4
    let first := String.ofList (Literal.encode "done".toList)
    readSource 4 first = .ok [.str "done"] ∧
      (Request.run (first ++ "\n" ++ "\"")).serve context initialStore =
        .ok (.str "done") (initialStore.recordFault (.unexpectedChar 7 '"')) := by
  have hdone : ReadsAs 4 0 (Literal.encode "done".toList) (.str (String.ofList "done".toList)) :=
    readsAs_string "done".toList
  intro host context first
  have hread : readSource 4 first = .ok [.str "done"] :=
    readSource_of_readsAs hdone (by decide)
  have hpartition : Partition "\"".toList [] ['"'] := ⟨rfl, trivial, .inr ⟨[], rfl, unclosed_nil⟩⟩
  have hsecond : (TokenStream.ofText "\"").readAll 4 =
      ([], some (.fault (.unexpectedChar 0 '"'))) := by
    rw [TokenStream.readAll_ofText, tokenize_of_partition hpartition]
    rfl
  obtain ⟨-, -, -, hrun⟩ := serve_run_append_newline host 4 4 hread "\"" initialStore
  have hlength : first.length = 6 := by decide
  rw [hsecond, hlength] at hrun
  have hfirst : (Request.run first).serve context initialStore =
      .ok (.str "done") initialStore := by
    rw [serve_run_of_readSource hread]
    rfl
  obtain ⟨outcome, hruns, -, -, hjoined⟩ := hrun _ _ hfirst
  cases hruns
  exact ⟨hread, hjoined (by rintro ⟨⟩)⟩

end Interpreter

end SmallScheme
