import SmallScheme.Proofs.Evaluator.DeepPrograms
import SmallScheme.Proofs.Evaluator.Endings
import SmallScheme.Proofs.Scoping.Bindings
/-!
# The two spellings of a procedure's definition

The name and the parameters of a procedure can be written in one list, or the name before a lambda
expression with the parameters. Both definitions need the same data to be symbols, and then bind the
same closure; otherwise both are refused before anything has changed. Of all definitions it holds
that one which fails has bound nothing: what has changed then is what the evaluation of the value
expression has done.
-/

namespace SmallScheme

open Machine SmallScheme.Configuration

namespace Datum

def isName : Datum → Bool
  | .symbol _ => true
  | _ => false

/-- The first of the data that is no name. -/
def firstUnnamed? (data : List Datum) : Option Datum := data.find? fun datum => !datum.isName

theorem isName_iff {datum : Datum} : datum.isName ↔ ∃ name, datum = .symbol name := by
  cases datum <;> simp [isName]

theorem isTooDeepToDiagnose_zero (datum : Datum) : datum.isTooDeepToDiagnose 0 = true := by
  cases datum <;> rfl

/-- Every pair of a chain is a level deeper than the one before. -/
theorem isTooDeepToDiagnose_chain {limit : Nat} (label : Label) {heads : List Datum}
    (ending : Datum) (hlimit : limit ≤ heads.length) :
    (chain label heads ending).isTooDeepToDiagnose limit = true := by
  induction heads generalizing label limit with
  | nil =>
    rw [Nat.le_zero.1 hlimit]
    exact isTooDeepToDiagnose_zero _
  | cons head rest ih =>
    cases limit with
    | zero => exact isTooDeepToDiagnose_zero _
    | succ limit =>
      rw [chain, isTooDeepToDiagnose, Nat.add_sub_cancel,
        ih (label + 1) (Nat.le_of_succ_le_succ hlimit), Bool.or_true]

end Datum

namespace Definitions

/-- What a datum is refused with that stands where a name has to be: a fault of form, unless the
datum nests too deep to be shown in one. -/
def RefusedWith (limit : Nat) (datum : Datum) (interrupt : Interrupt) : Prop :=
  (∃ fault : Fault, interrupt = .fault fault ∧ fault.kind = .illFormed) ∨
    interrupt = .tooDeep ∧ datum.isTooDeepToDiagnose limit = true

/-- The refusal of a datum where a special form needs a name. -/
def refusal (limit : Nat) (form : SpecialForm) (datum : Datum) : Interrupt :=
  if datum.isTooDeepToDiagnose limit then .tooDeep else .fault (.notSymbol form datum)

variable {context : Context} {limit : Nat} {form : SpecialForm} {frame : FrameId}
  {store after : Store} {datum target : Datum} {data parameters body operands : List Datum}
  {interrupt : Interrupt}

theorem RefusedWith.ne_outOfSteps (hrefused : RefusedWith limit datum interrupt) :
    interrupt ≠ .outOfSteps := by
  rintro rfl
  obtain ⟨fault, ⟨⟩, -⟩ | ⟨⟨⟩, -⟩ := hrefused

theorem refusedWith_diagnosing {fault : Fault} (hkind : fault.kind = .illFormed) (limit : Nat)
    (datum : Datum) : RefusedWith limit datum (diagnosing limit datum fault) :=
  (diagnosing_cases limit datum fault).imp (fun hfault => ⟨fault, hfault, hkind⟩) id

theorem refusedWith_refusal (limit : Nat) (form : SpecialForm) (datum : Datum) :
    RefusedWith limit datum (refusal limit form datum) :=
  refusedWith_diagnosing rfl limit datum

/-! ### Names -/

theorem symbolName_of_unnamed (hunnamed : datum.isName = false) :
    symbolName limit form datum = throw (refusal limit form datum) := by
  have hrefused : symbolName limit form datum =
      failDiagnosing limit datum (.notSymbol form datum) := by
    cases datum with
    | symbol name => cases hunnamed
    | _ => rfl
  rw [hrefused, failDiagnosing_eq]
  rfl

theorem firstUnnamed?_cons_of_unnamed (hunnamed : datum.isName = false) (rest : List Datum) :
    Datum.firstUnnamed? (datum :: rest) = some datum :=
  List.find?_cons_of_pos (by rw [hunnamed]; rfl)

/-- Names are read up to the first datum that is none. -/
theorem mapM_symbolName_cases (limit : Nat) (form : SpecialForm) (data : List Datum) :
    (∃ names : List String, data = names.map .symbol ∧
        data.mapM (symbolName limit form) = pure names) ∨
      ∃ unnamed, Datum.firstUnnamed? data = some unnamed ∧
        data.mapM (symbolName limit form) = throw (refusal limit form unnamed) := by
  induction data with
  | nil => exact .inl ⟨[], rfl, rfl⟩
  | cons datum rest ih =>
    simp only [List.mapM_cons]
    cases hname : datum.isName with
    | true =>
      obtain ⟨name, rfl⟩ := Datum.isName_iff.1 hname
      rcases ih with ⟨names, rfl, hnames⟩ | ⟨unnamed, hfind, hnames⟩
      · exact .inl ⟨name :: names, rfl, by rw [hnames]; rfl⟩
      · exact .inr ⟨unnamed, hfind, by rw [hnames]; rfl⟩
    | false =>
      refine .inr ⟨datum, firstUnnamed?_cons_of_unnamed hname rest, ?_⟩
      rw [symbolName_of_unnamed hname]
      rfl

theorem firstUnnamed?_map_symbol (names : List String) :
    Datum.firstUnnamed? (names.map .symbol) = none := by
  refine List.find?_eq_none.2 fun datum hdatum => ?_
  obtain ⟨name, -, rfl⟩ := List.mem_map.1 hdatum
  exact Bool.noConfusion

theorem mapM_symbolName_of_names (names : List String) :
    (names.map Datum.symbol).mapM (symbolName limit form) = pure names := by
  rcases mapM_symbolName_cases limit form (names.map .symbol) with
    ⟨others, heq, hnames⟩ | ⟨_, hfind, -⟩
  · rw [hnames, (List.map_inj_right fun _ _ => Datum.symbol.inj).1 heq]
  · rw [firstUnnamed?_map_symbol] at hfind
    cases hfind

theorem mapM_symbolName_of_unnamed (hfind : Datum.firstUnnamed? data = some datum) :
    data.mapM (symbolName limit form) = throw (refusal limit form datum) := by
  rcases mapM_symbolName_cases limit form data with ⟨names, rfl, -⟩ | ⟨_, hother, hnames⟩
  · rw [firstUnnamed?_map_symbol] at hfind
    cases hfind
  · cases hother.symm.trans hfind
    exact hnames

/-! ### Both spellings -/

/-- The store in which the name is bound to the closure that a definition makes. -/
def binding (store : Store) (frame : FrameId) (name : String) (names : List String)
    (body : List Datum) : Store :=
  { store with nextLabel := store.nextLabel + 1 }.define frame name
    (.closure store.nextLabel (some name) (.fixed names) body frame)

theorem definesOnly_binding (store : Store) (frame : FrameId) (name : String) (names : List String)
    (body : List Datum) :
    store.DefinesOnly (binding store frame name names body) frame name
      (.closure store.nextLabel (some name) (.fixed names) body frame) := by
  obtain ⟨hbound, hothers, hsize, houter, hpromises, houtput, hlog, hopened⟩ :=
    Store.definesOnly_define { store with nextLabel := store.nextLabel + 1 } frame name
      (.closure store.nextLabel (some name) (.fixed names) body frame)
  exact ⟨hbound, hothers, hsize, houter, hpromises, houtput, hlog, hopened⟩

theorem defineProcedure_of_names {name : String} {names : List String}
    (hnames : target :: parameters = (name :: names).map .symbol) :
    defineProcedure context frame target parameters body store =
      .ok .unspecified (binding store frame name names body) := by
  obtain ⟨rfl, rfl⟩ := List.cons.inj hnames
  rw [defineProcedure, mapM_symbolName_of_names]
  rfl

theorem defineProcedure_of_unnamed
    (hfind : Datum.firstUnnamed? (target :: parameters) = some datum) :
    defineProcedure context frame target parameters body =
      throw (refusal context.limit .define datum) := by
  rw [defineProcedure]
  cases hname : target.isName with
  | true =>
    obtain ⟨name, rfl⟩ := Datum.isName_iff.1 hname
    have hparameter : Datum.firstUnnamed? parameters = some datum := hfind
    rw [mapM_symbolName_of_unnamed hparameter]
    rfl
  | false =>
    cases (firstUnnamed?_cons_of_unnamed hname parameters).symm.trans hfind
    rw [symbolName_of_unnamed hname]
    rfl

/-- A lambda expression with these formals. -/
def lambda (label formalsLabel : Option Label) (parameters body : List Datum) : Datum :=
  .form label (.keyword .lambda :: .form formalsLabel parameters :: body)

theorem evaluateNamed_lambda (label formalsLabel : Option Label) (name : String) :
    evaluateNamed context frame name (lambda label formalsLabel parameters body) =
      (parameters.mapM (symbolName context.limit .lambda) >>= fun names =>
        closure (some name) (.fixed names) body frame) := by
  have hoperands : (lambda label formalsLabel parameters body).operandsOf? .lambda =
      some (.form formalsLabel parameters :: body) := by
    rw [lambda, Datum.keyword, Datum.operandsOf?, if_pos rfl]
  rw [evaluateNamed, hoperands]
  exact bind_assoc ..

theorem evaluateDefine_lambda_of_names (label formalsLabel : Option Label) {name : String}
    {names : List String} (hnames : target :: parameters = (name :: names).map .symbol) :
    evaluateDefine context frame [target, lambda label formalsLabel parameters body] store =
      .ok .unspecified (binding store frame name names body) := by
  obtain ⟨rfl, rfl⟩ := List.cons.inj hnames
  change defineAs frame name (evaluateNamed context frame name _) store = _
  rw [evaluateNamed_lambda, mapM_symbolName_of_names]
  rfl

theorem exists_evaluateDefine_of_unnamed (limit : Nat) (frame : FrameId)
    (hunnamed : target.isName = false)
    (htarget : ∀ label head rest, target ≠ .form label (head :: rest)) (expressions : List Datum) :
    ∃ interrupt, RefusedWith limit target interrupt ∧ ∀ context : Context, context.limit = limit →
      evaluateDefine context frame (target :: expressions) = throw interrupt := by
  have hvariable : ∀ context : Context, context.limit = limit →
      defineVariable context frame target expressions = throw (refusal limit .define target) := by
    rintro context rfl
    rw [defineVariable, symbolName_of_unnamed hunnamed]
    rfl
  cases target with
  | form label items =>
    cases items with
    | nil => exact ⟨_, .inl ⟨_, rfl, rfl⟩, fun _ _ => rfl⟩
    | cons head rest => exact absurd rfl (htarget label head rest)
  | _ => exact ⟨_, refusedWith_refusal .., hvariable⟩

theorem exists_evaluateDefine_lambda_of_unnamed (limit : Nat) (frame : FrameId)
    (label formalsLabel : Option Label) (body : List Datum)
    (htarget : ∀ label head rest, target ≠ .form label (head :: rest))
    (hfind : Datum.firstUnnamed? (target :: parameters) = some datum) :
    ∃ interrupt, RefusedWith limit datum interrupt ∧ ∀ context : Context, context.limit = limit →
      evaluateDefine context frame [target, lambda label formalsLabel parameters body] =
        throw interrupt := by
  cases hname : target.isName with
  | true =>
    obtain ⟨name, rfl⟩ := Datum.isName_iff.1 hname
    have hparameter : Datum.firstUnnamed? parameters = some datum := hfind
    refine ⟨_, refusedWith_refusal limit .lambda datum, ?_⟩
    rintro context rfl
    change defineAs frame name (evaluateNamed context frame name _) = _
    rw [evaluateNamed_lambda, mapM_symbolName_of_unnamed hparameter]
    rfl
  | false =>
    cases (firstUnnamed?_cons_of_unnamed hname parameters).symm.trans hfind
    exact exists_evaluateDefine_of_unnamed limit frame hname htarget _

/-! ### Definitions that fail -/

variable {host : Host} {outcome : Outcome Datum} {label : Option Label}

theorem endsWith_define_iff :
    EndsWith host (limit + 1) ⟨.form label (.keyword .define :: operands), frame, store⟩ outcome ↔
      Machine.EndsWith (fun steps =>
        evaluateDefine (Interpreter.contextWithin host steps limit) frame operands) store
        outcome :=
  endsWith_special_iff (fun context => evaluateDefine context frame operands) fun _ => rfl

theorem readFormals_cases (limit : Nat) (formals : Datum) :
    (∃ read, readFormals limit formals = pure read) ∨
      ∃ interrupt, readFormals limit formals = throw interrupt := by
  rw [readFormals.eq_def]
  split
  · next parameters =>
    rcases mapM_symbolName_cases limit .lambda parameters with
      ⟨names, -, hnames⟩ | ⟨unnamed, -, hnames⟩
    · exact .inl ⟨.fixed names, by rw [hnames]; rfl⟩
    · exact .inr ⟨refusal limit .lambda unnamed, by rw [hnames]; rfl⟩
  · cases hname : formals.isName with
    | true =>
      obtain ⟨name, rfl⟩ := Datum.isName_iff.1 hname
      exact .inl ⟨.rest name, rfl⟩
    | false => exact .inr ⟨refusal limit .lambda formals, by rw [symbolName_of_unnamed hname]; rfl⟩

theorem makeClosure_eq_error {name : Option String}
    (hmake : makeClosure context frame name operands store = .error interrupt after) :
    after = store := by
  cases operands with
  | nil =>
    cases hmake
    rfl
  | cons formals body =>
    rw [makeClosure] at hmake
    rcases readFormals_cases context.limit formals with ⟨read, hread⟩ | ⟨refusal, hread⟩
    · rw [hread] at hmake
      cases hmake
    · rw [hread] at hmake
      cases hmake
      rfl

theorem defineProcedure_eq_error
    (hdefine : defineProcedure context frame target parameters body store =
      .error interrupt after) : after = store := by
  rcases mapM_symbolName_cases context.limit .define (target :: parameters) with
    ⟨names, hnames, -⟩ | ⟨unnamed, hfind, -⟩
  · cases names with
    | nil => cases hnames
    | cons name names =>
      rw [defineProcedure_of_names hnames] at hdefine
      cases hdefine
  · rw [defineProcedure_of_unnamed hfind] at hdefine
    cases hdefine
    rfl

theorem defineAs_eq_error {name : String} {computation : Machine Datum}
    (hdefine : defineAs frame name computation store = .error interrupt after) :
    computation store = .error interrupt after := by
  cases hvalue : computation store with
  | ok value between =>
    rw [defineAs, bind_of_ok hvalue] at hdefine
    cases hdefine
  | error cause between =>
    rw [defineAs, bind_of_error hvalue] at hdefine
    exact hdefine

theorem evaluateNamed_eq_error {name : String} {expression : Datum}
    (hnamed : evaluateNamed context frame name expression store = .error interrupt after) :
    expression.operandsOf? .lambda = none ∧
        context.evaluate expression frame store = .error interrupt after ∨
      expression.operandsOf? .lambda ≠ none ∧ after = store := by
  rw [evaluateNamed] at hnamed
  cases hlambda : expression.operandsOf? .lambda with
  | none =>
    rw [hlambda] at hnamed
    exact .inl ⟨rfl, hnamed⟩
  | some operands =>
    rw [hlambda] at hnamed
    exact .inr ⟨Option.some_ne_none operands, makeClosure_eq_error hnamed⟩

theorem defineVariable_eq_error {expressions : List Datum}
    (hdefine : defineVariable context frame target expressions store = .error interrupt after) :
    (∃ name expression, target :: expressions = [.symbol name, expression] ∧
        expression.operandsOf? .lambda = none ∧
        context.evaluate expression frame store = .error interrupt after) ∨
      after = store ∧ ∀ name expression, target :: expressions = [.symbol name, expression] →
        expression.operandsOf? .lambda ≠ none := by
  rw [defineVariable] at hdefine
  cases hname : target.isName with
  | true =>
    obtain ⟨name, rfl⟩ := Datum.isName_iff.1 hname
    rw [symbolName, pure_bind] at hdefine
    split at hdefine
    · next expression =>
      rcases evaluateNamed_eq_error (defineAs_eq_error hdefine) with
        ⟨hlambda, hvalue⟩ | ⟨hlambda, rfl⟩
      · exact .inl ⟨name, expression, rfl, hlambda, hvalue⟩
      · refine .inr ⟨rfl, ?_⟩
        rintro _ _ ⟨⟩
        exact hlambda
    · next hexpressions =>
      cases hdefine
      refine .inr ⟨rfl, ?_⟩
      rintro _ expression ⟨⟩
      exact absurd rfl (hexpressions expression)
  | false =>
    rw [symbolName_of_unnamed hname] at hdefine
    cases hdefine
    refine .inr ⟨rfl, ?_⟩
    rintro _ _ ⟨⟩
    cases hname

/-- A definition that fails has evaluated a value expression, and failed as that did, or has done
nothing: then there is no such expression, or it is a lambda expression, whose closure is named. -/
theorem evaluateDefine_eq_error
    (hdefine : evaluateDefine context frame operands store = .error interrupt after) :
    (∃ name expression, operands = [.symbol name, expression] ∧
        expression.operandsOf? .lambda = none ∧
        context.evaluate expression frame store = .error interrupt after) ∨
      after = store ∧ ∀ name expression, operands = [.symbol name, expression] →
        expression.operandsOf? .lambda ≠ none := by
  rw [evaluateDefine.eq_def] at hdefine
  split at hdefine
  · cases hdefine
    exact .inr ⟨rfl, by rintro _ _ ⟨⟩⟩
  · cases hdefine
    exact .inr ⟨rfl, by rintro _ _ ⟨⟩⟩
  · exact .inr ⟨defineProcedure_eq_error hdefine, by rintro _ _ ⟨⟩⟩
  · next target expressions _ _ =>
    exact defineVariable_eq_error hdefine

/-- What succeeds with names alone, and is refused with anything else, needs all to be names. -/
theorem exists_ok_iff_forall_isName (store : Store) {ends : Outcome Datum → Prop}
    {bound : String → List String → Store}
    (hnamed : ∀ name names, target :: parameters = (name :: names).map .symbol → ∀ outcome,
      ends outcome ↔ outcome = .ok .unspecified (bound name names))
    (hunnamed : ∀ unnamed, Datum.firstUnnamed? (target :: parameters) = some unnamed →
      ∃ refusal, ∀ outcome, ends outcome ↔ outcome = .error refusal store) :
    (∃ value after, ends (.ok value after)) ↔ ∀ datum ∈ target :: parameters, datum.isName := by
  rcases mapM_symbolName_cases 0 .define (target :: parameters) with
    ⟨names, hnames, -⟩ | ⟨unnamed, hfind, -⟩
  · have hall : ∀ datum ∈ target :: parameters, datum.isName := by
      rw [hnames]
      exact List.forall_mem_map.2 fun _ _ => rfl
    cases names with
    | nil => cases hnames
    | cons name names =>
      exact iff_of_true ⟨_, _, (hnamed name names hnames _).2 rfl⟩ hall
  · obtain ⟨refusal, hrefused⟩ := hunnamed unnamed hfind
    refine iff_of_false ?_ fun hall => ?_
    · rintro ⟨value, after, hends⟩
      cases (hrefused _).1 hends
    · have hname := List.find?_some hfind
      rw [hall unnamed (List.mem_of_find?_eq_some hfind)] at hname
      cases hname

/-- The definition of a procedure, and that of its name as a lambda expression, in which the name is
no list with items of its own. Both succeed if the name and all parameters are symbols, and only
then, and have then bound the name to the same closure and changed nothing else. Otherwise both are
refused with a fault of form, unless the first that is no symbol nests too deep to be shown, and
nothing has changed. Of all definitions it holds that one that fails has evaluated the value
expression and leaves the store as that did, or has evaluated nothing and leaves it as it was. -/
theorem endsWith_define_iff_of_spelling (host : Host) (limit : Nat) (frame : FrameId)
    (store : Store) (label targetLabel lambdaLabel formalsLabel : Option Label) {target : Datum}
    (htarget : ∀ label head rest, target ≠ .form label (head :: rest))
    (parameters body : List Datum) :
    let definition : List Datum → Configuration := fun operands =>
      ⟨.form label (.keyword .define :: operands), frame, store⟩
    let short := definition (.form targetLabel (target :: parameters) :: body)
    let long := definition [target, lambda lambdaLabel formalsLabel parameters body]
    (∀ name names, target :: parameters = (name :: names).map .symbol →
      ∃ after, store.DefinesOnly after frame name
          (.closure store.nextLabel (some name) (.fixed names) body frame) ∧
        ∀ outcome,
          (short.EndsWith host (limit + 1) outcome ↔ outcome = .ok .unspecified after) ∧
          (long.EndsWith host (limit + 1) outcome ↔ outcome = .ok .unspecified after)) ∧
    (∀ unnamed, Datum.firstUnnamed? (target :: parameters) = some unnamed →
      ∃ refusal other, RefusedWith limit unnamed refusal ∧ RefusedWith limit unnamed other ∧
        ∀ outcome,
          (short.EndsWith host (limit + 1) outcome ↔ outcome = .error refusal store) ∧
          (long.EndsWith host (limit + 1) outcome ↔ outcome = .error other store)) ∧
    ((∃ value after, short.EndsWith host (limit + 1) (.ok value after)) ↔
      ∀ datum ∈ target :: parameters, datum.isName) ∧
    ((∃ value after, long.EndsWith host (limit + 1) (.ok value after)) ↔
      ∀ datum ∈ target :: parameters, datum.isName) ∧
    ∀ operands interrupt after,
      (definition operands).EndsWith host (limit + 1) (.error interrupt after) →
        (∃ name expression, operands = [.symbol name, expression] ∧
          EndsWith host limit ⟨expression, frame, store⟩ (.error interrupt after)) ∨
        after = store ∧ ∀ name expression, operands = [.symbol name, expression] →
          expression.operandsOf? .lambda ≠ none := by
  intro definition short long
  have hnamed : ∀ name names, target :: parameters = (name :: names).map .symbol → ∀ outcome,
      (short.EndsWith host (limit + 1) outcome ↔
        outcome = .ok .unspecified (binding store frame name names body)) ∧
      (long.EndsWith host (limit + 1) outcome ↔
        outcome = .ok .unspecified (binding store frame name names body)) := by
    intro name names hnames outcome
    let result : Outcome Datum := .ok .unspecified (binding store frame name names body)
    exact ⟨endsWith_define_iff.trans (endsWith_iff_of_forall_eq result trivial fun _ =>
        defineProcedure_of_names hnames),
      endsWith_define_iff.trans (endsWith_iff_of_forall_eq result trivial fun _ =>
        evaluateDefine_lambda_of_names lambdaLabel formalsLabel hnames)⟩
  have hunnamed : ∀ unnamed, Datum.firstUnnamed? (target :: parameters) = some unnamed →
      ∃ refusal other, RefusedWith limit unnamed refusal ∧ RefusedWith limit unnamed other ∧
        ∀ outcome,
          (short.EndsWith host (limit + 1) outcome ↔ outcome = .error refusal store) ∧
          (long.EndsWith host (limit + 1) outcome ↔ outcome = .error other store) := by
    intro unnamed hfind
    have hshort := refusedWith_refusal limit .define unnamed
    obtain ⟨other, hlong, hthrow⟩ := exists_evaluateDefine_lambda_of_unnamed limit frame lambdaLabel
      formalsLabel body htarget hfind
    exact ⟨_, other, hshort, hlong, fun outcome =>
      ⟨endsWith_define_iff.trans (endsWith_iff_of_forall_eq (.error _ store)
          hshort.ne_outOfSteps fun _ => congrFun (defineProcedure_of_unnamed hfind) store),
        endsWith_define_iff.trans (endsWith_iff_of_forall_eq (.error other store)
          hlong.ne_outOfSteps fun _ => congrFun (hthrow _ rfl) store)⟩⟩
  refine ⟨fun name names hnames => ?_, hunnamed, ?_, ?_, fun operands interrupt after hends => ?_⟩
  · exact ⟨_, definesOnly_binding store frame name names body, hnamed name names hnames⟩
  · refine exists_ok_iff_forall_isName store (fun name names hnames outcome =>
      (hnamed name names hnames outcome).1) fun unnamed hfind => ?_
    obtain ⟨interrupt, _, -, -, hends⟩ := hunnamed unnamed hfind
    exact ⟨interrupt, fun outcome => (hends outcome).1⟩
  · refine exists_ok_iff_forall_isName store (fun name names hnames outcome =>
      (hnamed name names hnames outcome).2) fun unnamed hfind => ?_
    obtain ⟨_, interrupt, -, -, hends⟩ := hunnamed unnamed hfind
    exact ⟨interrupt, fun outcome => (hends outcome).2⟩
  · obtain ⟨hfinished, steps, hrun⟩ := endsWith_define_iff.1 hends
    rcases evaluateDefine_eq_error hrun with ⟨name, expression, hoperands, -, hvalue⟩ | hkept
    · exact .inl ⟨name, expression, hoperands, hfinished, steps, hvalue⟩
    · exact .inr hkept

/-- Both spellings of a procedure with a parameter bind the name; and both are refused if a
parameter is a string. -/
theorem define_of_spelling_of_parameter :
    let host : Host := { settings := .ofVariables ⟨none, none, none⟩, files := .catalogue [] }
    let store : Store := Interpreter.initialStore
    let definition : List Datum → Configuration := fun operands =>
      ⟨.form none (.keyword .define :: operands), 0, store⟩
    let long : Datum → Configuration := fun parameter =>
      definition [.symbol "f", lambda none none [parameter] [.symbol "x"]]
    (∀ label head rest, Datum.symbol "f" ≠ .form label (head :: rest)) ∧
      (∃ after, (long (.symbol "x")).EndsWith host 1 (.ok .unspecified after) ∧
        (definition [.form none [.symbol "f", .symbol "x"], .symbol "x"]).EndsWith host 1
          (.ok .unspecified after)) ∧
      ∃ interrupt, (long (.str "x")).EndsWith host 1 (.error interrupt store) := by
  intro host store definition long
  have htarget : ∀ label head rest, Datum.symbol "f" ≠ .form label (head :: rest) :=
    fun _ _ _ => Datum.noConfusion
  refine ⟨htarget, ?_, ?_⟩
  · obtain ⟨after, -, hends⟩ := (endsWith_define_iff_of_spelling host 0 0 store none none none none
      htarget [.symbol "x"] [.symbol "x"]).1 "f" ["x"] rfl
    exact ⟨after, (hends _).2.2 rfl, (hends _).1.2 rfl⟩
  · obtain ⟨_, interrupt, -, -, hends⟩ := (endsWith_define_iff_of_spelling host 0 0 store none none
      none none htarget [.str "x"] [.symbol "x"]).2.1 (.str "x") rfl
    exact ⟨interrupt, (hends _).2.2 rfl⟩

/-- Every list is a level deeper than the one around it. -/
theorem isTooDeepToDiagnose_nestedForms {limit count : Nat} (hlimit : limit ≤ count) :
    (Datum.nestedForms count).isTooDeepToDiagnose limit = true := by
  induction count generalizing limit with
  | zero =>
    rw [Nat.le_zero.1 hlimit]
    exact Datum.isTooDeepToDiagnose_zero _
  | succ count ih =>
    cases limit with
    | zero => exact Datum.isTooDeepToDiagnose_zero _
    | succ limit =>
      rw [Datum.nestedForms, Datum.isTooDeepToDiagnose, Datum.anyTooDeepToDiagnose,
        Nat.add_sub_cancel, ih (Nat.le_of_succ_le_succ hlimit), Bool.true_or, Bool.or_true]

/-- A parameter that is a list of lists is no symbol, but with few levels left it cannot be shown:
so the definition of the procedure is refused for its depth and not as a fault of form. Here it is
evaluated by a promise that is forced inside of negations. -/
theorem define_of_deep_parameter :
    let host : Host := { settings := .ofVariables ⟨none, none, none⟩, files := .catalogue [] }
    let header : Datum := .form none [.symbol "f", .nestedForms 759]
    let short : Datum := .form none [.keyword .define, header, .bool true]
    let store : Store := Interpreter.promising short
    Interpreter.Reachable store ∧
      EndsWith host Interpreter.depthLimit
        ⟨Datum.negation^[250] (.form none [.symbol "force", .symbol "x"]), 0, store⟩
        (.error .tooDeep store) ∧
      EndsWith host 749 ⟨short, 0, store⟩ (.error .tooDeep store) ∧
      ¬ ∃ fault after, fault.kind = .illFormed ∧
        EndsWith host 749 ⟨short, 0, store⟩ (.error (.fault fault) after) := by
  intro host header short store
  have hwritten : short.IsSyntax := by
    refine .form ?_
    rw [List.forall_mem_cons, List.forall_mem_cons, List.forall_mem_singleton]
    refine ⟨.symbol (isIdentifier_keyword .define), .form ?_, .bool true⟩
    rw [List.forall_mem_cons, List.forall_mem_singleton]
    exact ⟨Datum.isSyntax_symbol (by decide) (by decide) rfl, Datum.isSyntax_nestedForms 759⟩
  have hnesting : short.nesting = 762 := by
    simp [short, header, Datum.keyword, Datum.nesting, Datum.nestingOfAll,
      Datum.nesting_nestedForms]
  have hrefusal : refusal 748 .define (.nestedForms 759) = .tooDeep :=
    if_pos (isTooDeepToDiagnose_nestedForms (by decide))
  have hrun : ∀ outcome, EndsWith host (748 + 1) ⟨short, 0, store⟩ outcome ↔
      outcome = .error .tooDeep store := by
    intro outcome
    refine endsWith_define_iff.trans (endsWith_iff_of_forall_eq (.error .tooDeep store)
      Interrupt.noConfusion fun steps => ?_)
    have hfind : Datum.firstUnnamed? [.symbol "f", .nestedForms 759] =
        some (.nestedForms 759) := rfl
    exact (congrFun (defineProcedure_of_unnamed hfind) store).trans
      (congrArg (fun interrupt => (.error interrupt store : Outcome Datum)) hrefusal)
  have hends := (hrun _).2 rfl
  refine ⟨Interpreter.reachable_promising host hwritten ?_,
    Interpreter.endsWith_iterate_negation_force hends 250, hends, ?_⟩
  · rw [hnesting]
    decide
  · rintro ⟨fault, after, -, hfault⟩
    cases (hrun _).1 hfault

end Definitions

end SmallScheme
