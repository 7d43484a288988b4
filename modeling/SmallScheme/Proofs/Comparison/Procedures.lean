import SmallScheme.Evaluator.Application
import SmallScheme.Proofs.Comparison.Computation
import SmallScheme.Proofs.Soundness.Builtins
/-!
# Comparing procedures

Every procedure is related to itself, applied to the same arguments in two contexts of which one
evaluates like the other. To force a promise is so if keeping its value is.
-/

namespace SmallScheme

/-- The second context evaluates like the first one, with the slack of the comparison. -/
structure Comparison.Matches (comparison : Comparison) (left right : Context) : Prop where
  host : right.host = left.host
  limit : right.limit = left.limit + comparison.slack
  evaluate : ∀ {expression : Datum} {frame : FrameId}, expression.InScope comparison.scope →
    comparison.scope (.frame frame) → comparison.RelatesData
      (left.evaluate expression frame) (right.evaluate expression frame)
  /-- If what gets too deep is forgiven, the first context does not show that it does. -/
  neverTooDeep : comparison.forgives → ∀ expression frame store after,
    left.evaluate expression frame store ≠ .error .tooDeep after

/-! ### Forcing a promise -/

namespace Machine

/-- Keep the value of a promise, unless it has one already. -/
def keepFirst (id : PromiseId) (value : Datum) : Machine Datum := do
  match ← promise? id with
  | some (.forced earlier) => return earlier
  | _ =>
    settlePromise id value
    return value

theorem forcePromise_eq (context : Context) (id : PromiseId) :
    forcePromise context id = promise? id >>= fun found =>
      match found with
      | none => return .promise id
      | some (.forced value) => return value
      | some (.pending expression frame) => context.evaluate expression frame >>= keepFirst id :=
  rfl

theorem applyProcedure_force (context : Context) (id : PromiseId) :
    applyProcedure context (.builtin .force) [.promise id] =
      forcePromise context id >>= fun value => pure (.done value) :=
  rfl

variable {context : Context} {id : PromiseId} {store : Store}

theorem promise?_eq (id : PromiseId) (store : Store) :
    promise? id store = .ok store.promises[id]? store := rfl

theorem forcePromise_of_none (hnone : store.promises[id]? = none) :
    forcePromise context id store = .ok (.promise id) store := by
  rw [forcePromise_eq, bind_of_ok (promise?_eq id store), hnone]
  rfl

theorem forcePromise_of_forced {value : Datum}
    (hforced : store.promises[id]? = some (.forced value)) :
    forcePromise context id store = .ok value store := by
  rw [forcePromise_eq, bind_of_ok (promise?_eq id store), hforced]
  rfl

theorem forcePromise_of_pending {expression : Datum} {frame : FrameId}
    (hpending : store.promises[id]? = some (.pending expression frame)) :
    forcePromise context id store = (context.evaluate expression frame >>= keepFirst id) store := by
  rw [forcePromise_eq, bind_of_ok (promise?_eq id store), hpending]

theorem keepFirst_of_forced {earlier : Datum}
    (hforced : store.promises[id]? = some (.forced earlier)) (value : Datum) :
    keepFirst id value store = .ok earlier store := by
  rw [keepFirst, bind_of_ok (promise?_eq id store), hforced]
  rfl

theorem keepFirst_of_unforced (hunforced : ∀ earlier, store.promises[id]? ≠ some (.forced earlier))
    (value : Datum) : keepFirst id value store = .ok value (store.settlePromise id value) := by
  rw [keepFirst, bind_of_ok (promise?_eq id store)]
  cases hpromise : store.promises[id]? with
  | none => rfl
  | some promise =>
    cases promise with
    | pending expression frame => rfl
    | forced earlier => exact absurd hpromise (hunforced earlier)

end Machine

namespace Comparison

variable {comparison : Comparison} {left right : Context}

theorem forcePromise (hcontexts : comparison.Matches left right) {id : PromiseId}
    (hid : comparison.scope (.promise id))
    (hkeep : ∀ {value : Datum}, value.InScope comparison.scope →
      comparison.RelatesData (Machine.keepFirst id value)
        (Machine.keepFirst id value)) :
    comparison.RelatesData (Machine.forcePromise left id)
      (Machine.forcePromise right id) := by
  rw [Machine.forcePromise_eq, Machine.forcePromise_eq]
  refine comparison.bind (comparison.promise? hid) fun found hfound => ?_
  split
  · exact comparison.pure (Datum.inScope_promise.2 hid)
  · exact comparison.pure (hfound _ rfl)
  · obtain ⟨hexpression, hframe⟩ := hfound _ rfl
    exact comparison.bind (hcontexts.evaluate hexpression hframe) fun value hvalue => hkeep hvalue

/-! ### Numbers -/

variable (comparison) in
theorem toNumber (limit : Nat) (name : String) (datum : Datum) :
    comparison.Relates (fun _ => True) (Machine.toNumber limit name datum)
      (Machine.toNumber (limit + comparison.slack) name datum) := by
  cases datum with
  | num number => exact comparison.pure trivial
  | int value =>
    simp only [Machine.toNumber, Machine.numberOfInteger]
    cases Double.ofInt? value with
    | some number => exact comparison.pure trivial
    | none => exact comparison.throw _
  | _ => exact comparison.failDiagnosing _ _ _

variable (comparison) in
theorem toNumbers (limit : Nat) (procedure : Builtin) (arguments : List Datum) :
    comparison.Relates (fun _ => True) (Machine.toNumbers limit procedure arguments)
      (Machine.toNumbers (limit + comparison.slack) procedure arguments) :=
  mono (mapM fun argument _ => comparison.toNumber limit procedure.name argument)
    fun _ _ => trivial

variable (comparison) in
theorem compareNumbers (limit : Nat) (procedure : Builtin) (relation : Double → Double → Bool)
    (arguments : List Datum) :
    comparison.RelatesData
      (Machine.compareNumbers limit procedure relation arguments)
      (Machine.compareNumbers (limit + comparison.slack) procedure relation arguments) :=
  comparison.bind (comparison.toNumbers limit procedure arguments) fun _ _ =>
    comparison.pure (Datum.inScope_bool _)

variable (comparison) in
theorem divideBy (quotient : Double) (divisors : List Double) :
    comparison.Relates (fun _ => True) (Machine.divideBy quotient divisors)
      (Machine.divideBy quotient divisors) := by
  induction divisors generalizing quotient with
  | nil => exact comparison.pure trivial
  | cons divisor rest ih =>
    rw [Machine.divideBy]
    split
    · exact comparison.fail _
    · exact ih _

theorem addition (hcontexts : comparison.Matches left right) (arguments : List Datum) :
    comparison.RelatesData (Machine.addition left arguments)
      (Machine.addition right arguments) := by
  simp only [Machine.addition, hcontexts.limit]
  exact comparison.bind (comparison.toNumbers _ _ _) fun _ _ =>
    comparison.pure (Datum.inScope_num _)

theorem multiplication (hcontexts : comparison.Matches left right) (arguments : List Datum) :
    comparison.RelatesData (Machine.multiplication left arguments)
      (Machine.multiplication right arguments) := by
  simp only [Machine.multiplication, hcontexts.limit]
  exact comparison.bind (comparison.toNumbers _ _ _) fun _ _ =>
    comparison.pure (Datum.inScope_num _)

theorem subtraction (hcontexts : comparison.Matches left right) (minuend : Datum)
    (subtrahends : List Datum) :
    comparison.RelatesData
      (Machine.subtraction left minuend subtrahends)
      (Machine.subtraction right minuend subtrahends) := by
  simp only [Machine.subtraction, hcontexts.limit]
  refine comparison.bind (comparison.toNumber _ _ _) fun _ _ => ?_
  exact comparison.bind (comparison.toNumbers _ _ _) fun _ _ =>
    comparison.pure (Datum.inScope_num _)

theorem division (hcontexts : comparison.Matches left right) (dividend : Datum)
    (divisors : List Datum) :
    comparison.RelatesData
      (Machine.division left dividend divisors) (Machine.division right dividend divisors) := by
  simp only [Machine.division, hcontexts.limit]
  refine comparison.bind (comparison.toNumber _ _ _) fun first _ => ?_
  refine comparison.bind (comparison.toNumbers _ _ _) fun rest _ => ?_
  split
  · exact comparison.bind (comparison.divideBy _ _) fun _ _ =>
      comparison.pure (Datum.inScope_num _)
  · exact comparison.bind (comparison.divideBy _ _) fun _ _ =>
      comparison.pure (Datum.inScope_num _)

theorem remainder (hcontexts : comparison.Matches left right) (dividend divisor : Datum) :
    comparison.RelatesData
      (Machine.remainder left dividend divisor) (Machine.remainder right dividend divisor) := by
  simp only [Machine.remainder, hcontexts.limit]
  refine comparison.bind (comparison.toNumber _ _ _) fun first _ => ?_
  refine comparison.bind (comparison.toNumber _ _ _) fun second _ => ?_
  split
  · exact comparison.fail _
  · cases first.remainder? second with
    | some number => exact comparison.pure (Datum.inScope_num _)
    | none => exact comparison.throw _

/-! ### Pairs and texts -/

/-- How a test ends that has an answer, or none for its depth. -/
def answered : Option Bool → Except Interrupt Datum
  | some value => .ok (.bool value)
  | none => .error .tooDeep

variable (comparison) in
theorem answer {result : Nat → Option Bool} (hstable : StableUnless (· = none) result)
    (limit : Nat) :
    comparison.RelatesData (Machine.answer (result limit))
      (Machine.answer (result (limit + comparison.slack))) := by
  have heq : ∀ found : Option Bool, Machine.answer found = Machine.ofExcept (answered found) := by
    intro found
    cases found <;> rfl
  have hanswered : StableUnless (· = .error .tooDeep) fun limit => answered (result limit) :=
    hstable.map (by rintro _ rfl; rfl)
  rw [heq, heq]
  refine comparison.ofExcept hanswered limit fun value hvalue => ?_
  cases hresult : result limit with
  | none =>
    rw [hresult] at hvalue
    cases hvalue
  | some found =>
    rw [hresult] at hvalue
    cases hvalue
    exact Datum.inScope_bool found

theorem listOf {heads : List Datum} {ending : Datum}
    (hheads : ∀ head ∈ heads, head.InScope comparison.scope)
    (hending : ending.InScope comparison.scope) :
    comparison.RelatesData (Machine.listOf heads ending)
      (Machine.listOf heads ending) :=
  comparison.bind (comparison.freshLabels _) fun _ _ =>
    comparison.pure (Datum.inScope_chain hheads hending)

theorem closure {name : Option String} {formals : Formals} {body : List Datum} {frame : FrameId}
    (hbody : ∀ form ∈ body, form.InScope comparison.scope)
    (hframe : comparison.scope (.frame frame)) :
    comparison.RelatesData (Machine.closure name formals body frame)
      (Machine.closure name formals body frame) :=
  comparison.bind (comparison.freshLabels 1) fun _ _ =>
    comparison.pure (Datum.inScope_closure.2 ⟨hbody, hframe⟩)

theorem head (hcontexts : comparison.Matches left right) {datum : Datum}
    (hdatum : datum.InScope comparison.scope) :
    comparison.RelatesData (Machine.head left datum)
      (Machine.head right datum) := by
  cases datum with
  | pair label head tail => exact comparison.pure (Datum.inScope_pair.1 hdatum).1
  | _ =>
    simp only [Machine.head, hcontexts.limit]
    exact comparison.failPrinting _ _ _

theorem tail (hcontexts : comparison.Matches left right) {datum : Datum}
    (hdatum : datum.InScope comparison.scope) :
    comparison.RelatesData (Machine.tail left datum)
      (Machine.tail right datum) := by
  cases datum with
  | pair label head tail => exact comparison.pure (Datum.inScope_pair.1 hdatum).2
  | _ =>
    simp only [Machine.tail, hcontexts.limit]
    exact comparison.failPrinting _ _ _

theorem length (hcontexts : comparison.Matches left right) (datum : Datum) :
    comparison.RelatesData (Machine.length left datum)
      (Machine.length right datum) := by
  simp only [Machine.length, hcontexts.limit]
  split
  · exact comparison.pure (Datum.inScope_num _)
  · exact comparison.failPrinting _ _ _

theorem display (hcontexts : comparison.Matches left right) (datum : Datum) :
    comparison.RelatesData (Machine.display left datum)
      (Machine.display right datum) := by
  simp only [Machine.display, hcontexts.limit]
  refine comparison.bind (comparison.checkPrintable _ _) fun _ _ => ?_
  exact comparison.bind (comparison.write _) fun _ _ => comparison.pure Datum.inScope_unspecified

end Comparison

/-! ### Built-in procedures -/

/-- What the rule does is related to itself in two contexts. -/
def Builtin.Rule.IsRelated (comparison : Comparison) (left right : Context) :
    Builtin.Rule → Prop
  | .predicate _ | .comparison _ => True
  | .nullary run => comparison.RelatesData run run
  | .unary run => ∀ {datum : Datum}, datum.InScope comparison.scope →
    comparison.RelatesData (run left datum) (run right datum)
  | .binary run => ∀ {first second : Datum}, first.InScope comparison.scope →
    second.InScope comparison.scope → comparison.RelatesData
      (run left first second) (run right first second)
  | .leading run => ∀ {first : Datum} {rest : List Datum}, first.InScope comparison.scope →
    (∀ argument ∈ rest, argument.InScope comparison.scope) →
      comparison.RelatesData (run left first rest)
        (run right first rest)
  | .variadic run => ∀ {arguments : List Datum},
    (∀ argument ∈ arguments, argument.InScope comparison.scope) →
      comparison.RelatesData (run left arguments)
        (run right arguments)

variable {comparison : Comparison} {left right : Context}

theorem Builtin.isRelated_rule (hcontexts : comparison.Matches left right) {procedure : Builtin}
    (hforce : procedure ≠ .force) : procedure.rule.IsRelated comparison left right := by
  cases procedure with
  | add => exact fun _ => Comparison.addition hcontexts _
  | subtract => exact fun _ _ => Comparison.subtraction hcontexts _ _
  | multiply => exact fun _ => Comparison.multiplication hcontexts _
  | divide => exact fun _ _ => Comparison.division hcontexts _ _
  | remainder => exact fun _ _ => Comparison.remainder hcontexts _ _
  | isSame =>
    intro first second _ _
    simp only [hcontexts.limit]
    exact comparison.answer (first.stable_isSame? second) left.limit
  | isAlike =>
    intro first second _ _
    simp only [hcontexts.limit]
    exact comparison.answer (first.stable_isAlike? second) left.limit
  | cons =>
    exact fun hhead htail => comparison.bind (comparison.freshLabels 1) fun _ _ =>
      comparison.pure (Datum.inScope_pair.2 ⟨hhead, htail⟩)
  | car => exact Comparison.head hcontexts
  | cdr => exact Comparison.tail hcontexts
  | list => exact fun harguments => Comparison.listOf harguments Datum.inScope_empty
  | length => exact fun _ => Comparison.length hcontexts _
  | force => exact absurd rfl hforce
  | display => exact fun _ => Comparison.display hcontexts _
  | newline =>
    exact comparison.bind (comparison.write _) fun _ _ => comparison.pure Datum.inScope_unspecified
  | _ => trivial

namespace Comparison

theorem callBuiltin (hcontexts : comparison.Matches left right) {procedure : Builtin}
    {arguments : List Datum}
    (harguments : ∀ argument ∈ arguments, argument.InScope comparison.scope)
    (hforce : ∀ {id : PromiseId}, procedure = .force → arguments = [.promise id] →
      comparison.RelatesData (Machine.forcePromise left id) (Machine.forcePromise right id)) :
    comparison.RelatesData (Machine.callBuiltin left procedure arguments)
      (Machine.callBuiltin right procedure arguments) := by
  by_cases hprocedure : procedure = .force
  · subst hprocedure
    match arguments with
    | [datum] =>
      cases datum with
      | promise id => exact hforce rfl rfl
      | _ => exact comparison.pure (harguments _ (by simp))
    | [] | _ :: _ :: _ => exact comparison.fail _
  · have hrule := Builtin.isRelated_rule hcontexts hprocedure
    unfold Machine.callBuiltin
    split
    · exact comparison.pure (Datum.inScope_bool _)
    · rw [hcontexts.limit]
      exact comparison.compareNumbers _ _ _ _
    · next run heq =>
      rw [heq] at hrule
      exact hrule
    · next run datum heq =>
      rw [heq] at hrule
      exact hrule (harguments datum (by simp))
    · next run first second heq =>
      rw [heq] at hrule
      exact hrule (harguments first (by simp)) (harguments second (by simp))
    · next run first rest heq =>
      rw [heq] at hrule
      rw [List.forall_mem_cons] at harguments
      exact hrule harguments.1 harguments.2
    · next run _ heq =>
      rw [heq] at hrule
      exact hrule harguments
    · exact comparison.fail _

/-! ### Application -/

theorem enterClosure {callee : Datum} {formals : Formals} {frame : FrameId}
    {arguments : List Datum} (hframe : comparison.scope (.frame frame))
    (harguments : ∀ argument ∈ arguments, argument.InScope comparison.scope) :
    comparison.Relates (fun inner => comparison.scope (.frame inner))
      (Machine.enterClosure callee formals frame arguments)
      (Machine.enterClosure callee formals frame arguments) := by
  have hbind : comparison.Relates (Bindings.InScope comparison.scope)
      (Machine.bindArguments callee formals arguments)
      (Machine.bindArguments callee formals arguments) := by
    unfold Machine.bindArguments
    split
    · exact comparison.bind (listOf harguments Datum.inScope_empty) fun list hlist =>
        comparison.pure (List.forall_mem_singleton.2 hlist)
    · split
      · refine comparison.pure (Machine.Bindings.good_ofPairs fun pair hmem => ?_)
        exact harguments pair.2 (List.of_mem_zip hmem).2
      · exact comparison.fail _
  exact comparison.bind hbind fun bindings hbindings => comparison.newFrame hbindings hframe

theorem applyProcedure (hcontexts : comparison.Matches left right) {callee : Datum}
    {arguments : List Datum} (hcallee : callee.InScope comparison.scope)
    (harguments : ∀ argument ∈ arguments, argument.InScope comparison.scope)
    (hforce : ∀ {id : PromiseId}, callee = .builtin .force → arguments = [.promise id] →
      comparison.RelatesData (Machine.forcePromise left id) (Machine.forcePromise right id)) :
    comparison.Relates (Step.InScope comparison.scope)
      (Machine.applyProcedure left callee arguments)
      (Machine.applyProcedure right callee arguments) := by
  cases callee with
  | builtin procedure =>
    have hcall := callBuiltin hcontexts harguments fun heq => hforce (congrArg Datum.builtin heq)
    exact comparison.bind hcall fun value hvalue => comparison.pure hvalue
  | closure label name formals body frame =>
    obtain ⟨hbody, hframe⟩ := Datum.inScope_closure.1 hcallee
    exact comparison.bind (enterClosure hframe harguments) fun inner hinner =>
      comparison.pure ⟨Datum.inScope_ofBody hbody, hinner⟩
  | _ =>
    simp only [Machine.applyProcedure, hcontexts.limit]
    exact comparison.failPrinting _ _ _

end Comparison

end SmallScheme
