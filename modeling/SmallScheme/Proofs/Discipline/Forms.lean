import SmallScheme.Evaluator.Forms
import SmallScheme.Proofs.Discipline.Procedures
import SmallScheme.Proofs.Reader.Syntax
/-!
# Special forms under rules

Every special form obeys rules in a frame that may be used, if the evaluations inside it do, and
proceeds in that frame only. Loading a file needs leave, as there is no file of some names.
-/

namespace SmallScheme

open Machine

theorem Interrupt.IsOfText.mayEndWith {interrupt : Interrupt} (htext : interrupt.IsOfText)
    (rules : Discipline) : rules.mayEndWith interrupt := by
  cases interrupt with
  | breakdown => exact htext.elim
  | _ => trivial

/-- How the loading of a name breaks down before there is a text to read. -/
def Host.breakdown? (host : Host) (name : String) : Option Breakdown :=
  match host.resolve name with
  | .error breakdown => some breakdown
  | .ok path =>
    match host.files.read path with
    | .error .zeroInName => some .zeroInName
    | _ => none

theorem Host.breakdown?_of_search {host : Host} {name : String} {breakdown : Breakdown}
    (hresolve : host.resolve name = .error breakdown) :
    host.breakdown? name = some breakdown := by
  unfold breakdown?
  rw [hresolve]

theorem Host.breakdown?_of_read {host : Host} {name : String} {path : Path}
    (hresolve : host.resolve name = .ok path)
    (hread : host.files.read path = .error .zeroInName) :
    host.breakdown? name = some .zeroInName := by
  unfold breakdown?
  simp only [hresolve, hread]

def Discipline.AllowsLoad (rules : Discipline) (host : Host) (name : String) : Prop :=
  ∀ breakdown ∈ host.breakdown? name, rules.mayBreak breakdown

theorem mayEndWith_of_expandClause {limit number : Nat} {isLast : Bool} {alternative clause : Datum}
    {interrupt : Interrupt} (rules : Discipline)
    (hexpand : expandClause limit number isLast alternative clause = .error interrupt) :
    rules.mayEndWith interrupt := by
  unfold expandClause at hexpand
  split at hexpand
  · cases hexpand
    trivial
  · split at hexpand
    · cases hexpand
    · split at hexpand <;> cases hexpand
      trivial
  · cases hexpand
  · split at hexpand <;> cases hexpand <;> trivial

theorem mayEndWith_of_expandClauses {limit number : Nat} {clauses : List Datum}
    {interrupt : Interrupt} (rules : Discipline)
    (hexpand : expandClauses limit number clauses = .error interrupt) :
    rules.mayEndWith interrupt := by
  induction clauses generalizing number interrupt with
  | nil => cases hexpand
  | cons clause rest ih =>
    rw [expandClauses] at hexpand
    cases hrest : expandClauses limit (number + 1) rest with
    | error earlier =>
      rw [hrest] at hexpand
      cases hexpand
      exact ih hrest
    | ok alternative =>
      rw [hrest] at hexpand
      exact mayEndWith_of_expandClause rules hexpand

namespace Machine

variable {rules : Discipline} {context : Context} {store : Store} {frame : FrameId}

/-! ### Definitions and closures -/

theorem obeys_symbolName (hholds : rules.holds store) (limit : Nat) (form : SpecialForm)
    (datum : Datum) : Obeys rules store (symbolName limit form datum) := by
  unfold symbolName
  split
  · exact .pure hholds trivial
  · exact obeys_failDiagnosing hholds _ _ _

theorem obeys_symbolNames (hholds : rules.holds store) (limit : Nat) (form : SpecialForm)
    (parameters : List Datum) :
    Obeys rules store (parameters.mapM (symbolName limit form)) :=
  .mapM hholds parameters fun _ parameter hholds => obeys_symbolName hholds limit form parameter

theorem obeys_readFormals (hholds : rules.holds store) (limit : Nat) (parameters : Datum) :
    Obeys rules store (readFormals limit parameters) := by
  unfold readFormals
  split
  · exact (obeys_symbolNames hholds _ _ _).bind fun _ _ hholds _ => .pure hholds trivial
  · exact (obeys_symbolName hholds _ _ _).bind fun _ _ hholds _ => .pure hholds trivial

theorem obeys_makeClosure (hholds : rules.holds store) (frame : FrameId) (name : Option String)
    (operands : List Datum) : Obeys rules store (makeClosure context frame name operands) := by
  unfold makeClosure
  split
  · exact .fail hholds _
  · exact (obeys_readFormals hholds _ _).bind fun _ _ hholds _ => obeys_closure hholds _ _ _ _

theorem obeys_defineAs {computation : Machine Datum} (hvalue : Obeys rules store computation)
    (hframe : rules.mayUse frame) (name : String) :
    Obeys rules store (defineAs frame name computation) :=
  hvalue.bind fun _ value hholds _ =>
    (obeys_define hholds hframe name value).bind fun _ _ hholds _ => .pure hholds trivial

theorem obeys_defineProcedure (hholds : rules.holds store) (hframe : rules.mayUse frame)
    (target : Datum) (parameters body : List Datum) :
    Obeys rules store (defineProcedure context frame target parameters body) :=
  (obeys_symbolName hholds _ _ target).bind fun _ name hholds _ =>
    (obeys_symbolNames hholds _ _ parameters).bind fun _ _ hholds _ =>
      obeys_defineAs (obeys_closure hholds _ _ _ _) hframe name

theorem obeys_evaluateNamed (hcontext : context.IsObedient rules) (hholds : rules.holds store)
    (hframe : rules.mayUse frame) (name : String) (expression : Datum) :
    Obeys rules store (evaluateNamed context frame name expression) := by
  unfold evaluateNamed
  split
  · exact obeys_makeClosure hholds _ _ _
  · exact hcontext hholds hframe expression

theorem obeys_defineVariable (hcontext : context.IsObedient rules) (hholds : rules.holds store)
    (hframe : rules.mayUse frame) (target : Datum) (expressions : List Datum) :
    Obeys rules store (defineVariable context frame target expressions) := by
  refine (obeys_symbolName hholds _ _ target).bind fun _ name hholds _ => ?_
  split
  · exact obeys_defineAs (obeys_evaluateNamed hcontext hholds hframe name _) hframe name
  · exact .fail hholds _

theorem obeys_evaluateDefine (hcontext : context.IsObedient rules) (hholds : rules.holds store)
    (hframe : rules.mayUse frame) (operands : List Datum) :
    Obeys rules store (evaluateDefine context frame operands) := by
  unfold evaluateDefine
  split
  · exact .fail hholds _
  · exact .fail hholds _
  · exact obeys_defineProcedure hholds hframe _ _ _
  · exact obeys_defineVariable hcontext hholds hframe _ _

/-! ### Choices and sequences -/

theorem obeys_evaluateBranch (hcontext : context.IsObedient rules) (hholds : rules.holds store)
    (hframe : rules.mayUse frame) (operands : List Datum) :
    Obeys rules store (evaluateBranch context frame operands) (Step.IsAllowed rules) := by
  unfold evaluateBranch
  split
  · refine (hcontext hholds hframe _).bind fun _ value hholds _ => .pure hholds ?_
    split
    · exact hframe
    · trivial
  · exact (hcontext hholds hframe _).bind fun _ value hholds _ => .pure hholds hframe
  · exact .fail hholds _

theorem obeys_evaluateBegin (hcontext : context.IsObedient rules) (hholds : rules.holds store)
    (hframe : rules.mayUse frame) (operands : List Datum) :
    Obeys rules store (evaluateBegin context frame operands) (Step.IsAllowed rules) := by
  induction operands generalizing store with
  | nil => exact .pure hholds trivial
  | cons expression rest ih =>
    cases rest with
    | nil => exact .pure hholds hframe
    | cons next rest =>
      exact (hcontext hholds hframe expression).discard.bind fun _ _ hholds _ => ih hholds

theorem obeys_allTrue (hcontext : context.IsObedient rules) (hholds : rules.holds store)
    (hframe : rules.mayUse frame) (operands : List Datum) :
    Obeys rules store (allTrue context frame operands) := by
  induction operands generalizing store with
  | nil => exact .pure hholds trivial
  | cons expression rest ih =>
    refine (hcontext hholds hframe expression).bind fun _ _ hholds _ => ?_
    split
    · exact ih hholds
    · exact .pure hholds trivial

theorem obeys_anyTrue (hcontext : context.IsObedient rules) (hholds : rules.holds store)
    (hframe : rules.mayUse frame) (operands : List Datum) :
    Obeys rules store (anyTrue context frame operands) := by
  induction operands generalizing store with
  | nil => exact .pure hholds trivial
  | cons expression rest ih =>
    refine (hcontext hholds hframe expression).bind fun _ _ hholds _ => ?_
    split
    · exact .pure hholds trivial
    · exact ih hholds

theorem obeys_evaluateApply (hcontext : context.IsObedient rules) (hholds : rules.holds store)
    (hframe : rules.mayUse frame) (operands : List Datum) :
    Obeys rules store (evaluateApply context frame operands) := by
  unfold evaluateApply
  split
  · refine (hcontext hholds hframe _).bind fun _ procedure hholds _ => ?_
    refine (hcontext hholds hframe _).bind fun _ list hholds _ => ?_
    split
    · exact hcontext hholds hframe _
    · exact obeys_failPrinting hholds _ _ _
  · exact .fail hholds _

/-! ### Sources and files -/

theorem obeys_readSource (hholds : rules.holds store) (limit : Nat) (text : String) :
    Obeys rules store (ofExcept (readSource limit text)) :=
  obeys_ofExcept hholds fun _ hread => (isOfText_of_readSource hread).mayEndWith rules

theorem obeys_evaluateForms (hcontext : context.IsObedient rules) (hholds : rules.holds store)
    (hframe : rules.mayUse frame) (forms : List Datum) :
    Obeys rules store (evaluateForms context frame forms) :=
  .foldlM hholds forms fun _ _ form hholds => hcontext hholds hframe form

theorem obeys_evaluateWritten (hcontext : context.IsObedient rules) (hholds : rules.holds store)
    (hframe : rules.mayUse frame) (value : Datum) :
    Obeys rules store (evaluateWritten context frame value) := by
  unfold evaluateWritten
  split
  · exact .throw hholds trivial
  · exact obeys_failPrinting hholds _ _ _
  · refine (obeys_checkPrintable hholds _ _).bind fun _ _ hholds _ => ?_
    refine (obeys_readSource hholds _ _).bind fun _ forms hholds _ => ?_
    refine (obeys_evaluateForms hcontext hholds hframe forms).tryCatch ?_
    intro _ interrupt hholds hinterrupt
    split
    · exact (obeys_record hholds _ _ _).bind fun _ _ hholds _ => .pure hholds trivial
    · exact .throw hholds hinterrupt

theorem obeys_evaluateEval (hcontext : context.IsObedient rules) (hholds : rules.holds store)
    (hframe : rules.mayUse frame) (operands : List Datum) :
    Obeys rules store (evaluateEval context frame operands) := by
  unfold evaluateEval
  split
  · exact (hcontext hholds hframe _).bind fun _ value hholds _ =>
      obeys_evaluateWritten hcontext hholds hframe value
  · exact .fail hholds _

theorem obeys_guarded {evaluation : Machine Datum} (hevaluation : Obeys rules store evaluation) :
    Obeys rules store (guarded evaluation) := by
  refine hevaluation.tryCatch fun _ interrupt hholds hinterrupt => ?_
  split
  · exact .fail hholds _
  · exact .throw hholds hinterrupt

theorem obeys_attempt (hcontext : context.IsObedient rules) (hholds : rules.holds store)
    (hframe : rules.mayUse frame) (previous form : Datum) :
    Obeys rules store (attempt context frame previous form) := by
  refine (obeys_guarded (hcontext hholds hframe form)).tryCatch ?_
  intro _ interrupt hholds hinterrupt
  split
  · exact (obeys_record hholds _ _ _).bind fun _ _ hholds _ => .pure hholds trivial
  · exact .throw hholds hinterrupt

theorem obeys_runForms (hcontext : context.IsObedient rules) (hholds : rules.holds store)
    (hframe : rules.mayUse frame) (forms : List Datum) :
    Obeys rules store (runForms context frame forms) :=
  .foldlM hholds forms fun _ previous form hholds =>
    obeys_attempt hcontext hholds hframe previous form

theorem obeys_readFileText {host : Host} {path : Path} (hholds : rules.holds store)
    (hallows : host.files.read path = .error .zeroInName → rules.mayBreak .zeroInName) :
    Obeys rules store (readFileText host path) := by
  refine (obeys_noteOpened hholds _).bind fun _ _ hholds _ => ?_
  split
  · exact .pure hholds trivial
  · exact .fail hholds _
  · exact .fail hholds _
  · next hread => exact .throw hholds (hallows hread)

theorem obeys_loadFile (hcontext : context.IsObedient rules) (hholds : rules.holds store)
    (hframe : rules.mayUse frame) {name : String}
    (hallows : rules.AllowsLoad context.host name) :
    Obeys rules store (loadFile context frame name) := by
  unfold loadFile
  split
  · next hresolve => exact .throw hholds (hallows _ (Host.breakdown?_of_search hresolve))
  · next path hresolve =>
    have hread : context.host.files.read path = .error .zeroInName →
        rules.mayBreak .zeroInName :=
      fun hread => hallows _ (Host.breakdown?_of_read hresolve hread)
    refine (obeys_readFileText hholds hread).bind fun _ text hholds _ => ?_
    refine (obeys_record hholds _ _ _).bind fun _ _ hholds _ => ?_
    exact (obeys_readSource hholds _ text).bind fun _ forms hholds _ =>
      obeys_runForms hcontext hholds hframe forms

theorem obeys_loadLeniently (hcontext : context.IsObedient rules) (hholds : rules.holds store)
    (hframe : rules.mayUse frame) {name : String}
    (hallows : rules.AllowsLoad context.host name) :
    Obeys rules store (loadLeniently context frame name) := by
  refine (obeys_loadFile hcontext hholds hframe hallows).discard.tryCatch ?_
  intro _ interrupt hholds hinterrupt
  split
  · exact obeys_record hholds _ _ _
  · exact .throw hholds hinterrupt

/-! ### Quotation -/

mutual

theorem obeys_quoteDatum (limit : Nat) : ∀ (datum : Datum) {store : Store}, rules.holds store →
    Obeys rules store (quoteDatum limit datum)
  | .form label items, store, hholds => by
    rw [quoteDatum]
    split
    · exact .throw hholds trivial
    · exact (obeys_quoteItems (limit - 1) items hholds).bind fun _ quoted hholds _ =>
        obeys_listOf hholds quoted .empty
  | .symbol name, _, hholds => .pure hholds trivial
  | .int value, _, hholds =>
    (obeys_numberOfInteger hholds value).bind fun _ _ hholds _ => .pure hholds trivial
  | .num _, _, hholds | .bool _, _, hholds | .str _, _, hholds | .quoted _, _, hholds
  | .empty, _, hholds => .pure hholds trivial
  | .absent, _, hholds | .unspecified, _, hholds | .pair .., _, hholds | .builtin _, _, hholds
  | .closure .., _, hholds | .promise _, _, hholds | .foreign .., _, hholds =>
    obeys_failDiagnosing hholds limit _ _

theorem obeys_quoteItems (limit : Nat) : ∀ (items : List Datum) {store : Store},
    rules.holds store → Obeys rules store (quoteItems limit items)
  | [], _, hholds => .pure hholds trivial
  | item :: rest, _, hholds =>
    (obeys_quoteDatum limit item hholds).bind fun _ _ hholds _ =>
      (obeys_quoteItems limit rest hholds).bind fun _ _ hholds _ => .pure hholds trivial

end

/-! ### All forms but loading -/

theorem obeys_done {computation : Machine Datum} (hvalue : Obeys rules store computation) :
    Obeys rules store (Step.done <$> computation) (Step.IsAllowed rules) :=
  hvalue.map fun _ _ => trivial

theorem obeys_evaluateSpecial (hcontext : context.IsObedient rules) (hholds : rules.holds store)
    (hframe : rules.mayUse frame) (operands : List Datum) {form : SpecialForm}
    (hform : form ≠ .load) :
    Obeys rules store (evaluateSpecial context frame operands form) (Step.IsAllowed rules) := by
  cases form with
  | define => exact obeys_done (obeys_evaluateDefine hcontext hholds hframe operands)
  | eval => exact obeys_done (obeys_evaluateEval hcontext hholds hframe operands)
  | apply => exact obeys_done (obeys_evaluateApply hcontext hholds hframe operands)
  | branch => exact obeys_evaluateBranch hcontext hholds hframe operands
  | cond =>
    refine (obeys_ofExcept hholds ?_).bind fun _ _ hholds _ => .pure hholds hframe
    exact fun _ hexpand => mayEndWith_of_expandClauses rules hexpand
  | begin => exact obeys_evaluateBegin hcontext hholds hframe operands
  | lambda => exact obeys_done (obeys_makeClosure hholds frame none operands)
  | load => exact absurd rfl hform
  | delay =>
    refine obeys_done ?_
    unfold evaluateDelay
    split
    · exact obeys_newPromise hholds _ frame
    · exact .fail hholds _
  | and =>
    refine obeys_done ?_
    unfold evaluateAnd
    split
    · exact .fail hholds _
    · exact (obeys_allTrue hcontext hholds hframe operands).bind fun _ _ hholds _ =>
        .pure hholds trivial
  | or =>
    refine obeys_done ?_
    unfold evaluateOr
    split
    · exact .fail hholds _
    · exact (obeys_anyTrue hcontext hholds hframe operands).bind fun _ _ hholds _ =>
        .pure hholds trivial
  | quote =>
    refine obeys_done ?_
    unfold evaluateQuote
    split
    · exact obeys_quoteDatum _ _ hholds
    · exact .fail hholds _

end Machine

end SmallScheme
