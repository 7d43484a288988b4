import SmallScheme.Evaluator.Application
import SmallScheme.Proofs.Discipline.Computation
/-!
# Procedures under rules

Every built-in procedure obeys rules if the evaluations inside a step do. Two of them need leave:
the remainder where there is none, and the evaluation of a promise in the frame that it was made in.
-/

namespace SmallScheme

open Machine

/-- The number that an argument is. -/
def Datum.number? : Datum → Option Double
  | .num value => some value
  | .int value => Double.ofInt? value
  | _ => none

/-- Expressions inside a step are evaluated as rules want it in every frame that may be used. -/
def Context.IsObedient (context : Context) (rules : Discipline) : Prop :=
  ∀ ⦃store : Store⦄ ⦃frame : FrameId⦄, rules.holds store → rules.mayUse frame →
    ∀ expression : Datum, Obeys rules store (context.evaluate expression frame)

/-- The numbers have a remainder, or may lack it. -/
def Discipline.AllowsRemainder (rules : Discipline) (dividend divisor : Datum) : Prop :=
  ∀ left right : Double, dividend.number? = some left → divisor.number? = some right →
    right.isZero = false → left.remainder? right = none → rules.mayBreak .remainderDomain

/-- If the promise is still to be forced, its frame may be used. -/
def Discipline.AllowsForce (rules : Discipline) (store : Store) (id : PromiseId) : Prop :=
  ∀ (expression : Datum) (frame : FrameId),
    store.promises[id]? = some (.pending expression frame) → rules.mayUse frame

/-- The call, in the store, does nothing that the rules are against. -/
def Discipline.AllowsCall (rules : Discipline) (store : Store) (callee : Datum)
    (arguments : List Datum) : Prop :=
  match callee, arguments with
  | .builtin .remainder, [dividend, divisor] => rules.AllowsRemainder dividend divisor
  | .builtin .force, [.promise id] => rules.AllowsForce store id
  | _, _ => True

namespace Machine

variable {rules : Discipline} {context : Context} {store : Store}

/-! ### Numbers -/

theorem obeys_toNumber (hholds : rules.holds store) (limit : Nat) (name : String)
    (datum : Datum) :
    Obeys rules store (toNumber limit name datum) fun number => datum.number? = some number := by
  cases datum with
  | num value => exact .pure hholds rfl
  | int value =>
    rw [toNumber, numberOfInteger]
    cases hnumber : Double.ofInt? value with
    | some number => exact .pure hholds hnumber
    | none => exact .throw hholds rules.mayBreak_integerTooLarge
  | _ => exact obeys_failDiagnosing hholds _ _ _

theorem obeys_toNumbers (hholds : rules.holds store) (limit : Nat) (procedure : Builtin)
    (arguments : List Datum) : Obeys rules store (toNumbers limit procedure arguments) :=
  .mapM hholds arguments fun _ argument hholds =>
    (obeys_toNumber hholds limit procedure.name argument).mono fun _ _ => trivial

theorem obeys_compareNumbers (hholds : rules.holds store) (limit : Nat) (procedure : Builtin)
    (relation : Double → Double → Bool) (arguments : List Datum) :
    Obeys rules store (compareNumbers limit procedure relation arguments) :=
  (obeys_toNumbers hholds limit procedure arguments).bind fun _ _ hholds _ => .pure hholds trivial

theorem obeys_addition (hholds : rules.holds store) (arguments : List Datum) :
    Obeys rules store (addition context arguments) :=
  (obeys_toNumbers hholds _ _ arguments).bind fun _ _ hholds _ => .pure hholds trivial

theorem obeys_multiplication (hholds : rules.holds store) (arguments : List Datum) :
    Obeys rules store (multiplication context arguments) :=
  (obeys_toNumbers hholds _ _ arguments).bind fun _ _ hholds _ => .pure hholds trivial

theorem obeys_subtraction (hholds : rules.holds store) (minuend : Datum)
    (subtrahends : List Datum) : Obeys rules store (subtraction context minuend subtrahends) :=
  (obeys_toNumber hholds _ _ minuend).bind fun _ _ hholds _ =>
    (obeys_toNumbers hholds _ _ subtrahends).bind fun _ _ hholds _ => .pure hholds trivial

theorem obeys_divideBy (hholds : rules.holds store) (quotient : Double) (divisors : List Double) :
    Obeys rules store (divideBy quotient divisors) := by
  induction divisors generalizing quotient with
  | nil => exact .pure hholds trivial
  | cons divisor rest ih =>
    rw [divideBy]
    split
    · exact .fail hholds _
    · exact ih _

theorem obeys_division (hholds : rules.holds store) (dividend : Datum) (divisors : List Datum) :
    Obeys rules store (division context dividend divisors) := by
  refine (obeys_toNumber hholds _ _ dividend).bind fun _ first hholds _ => ?_
  refine (obeys_toNumbers hholds _ _ divisors).bind fun _ rest hholds _ => ?_
  split
  · exact (obeys_divideBy hholds _ _).bind fun _ _ hholds _ => .pure hholds trivial
  · exact (obeys_divideBy hholds _ _).bind fun _ _ hholds _ => .pure hholds trivial

theorem obeys_remainder (hholds : rules.holds store) {dividend divisor : Datum}
    (hallows : rules.AllowsRemainder dividend divisor) :
    Obeys rules store (remainder context dividend divisor) := by
  refine (obeys_toNumber hholds _ _ dividend).bind fun _ left hholds hleft => ?_
  refine (obeys_toNumber hholds _ _ divisor).bind fun _ right hholds hright => ?_
  split
  · exact .fail hholds _
  · next hzero =>
    cases hremainder : left.remainder? right with
    | some number => exact .pure hholds trivial
    | none =>
      exact .throw hholds
        (hallows left right hleft hright (eq_false_of_ne_true hzero) hremainder)

/-! ### Pairs, promises and output -/

theorem obeys_answer (hholds : rules.holds store) (result : Option Bool) :
    Obeys rules store (answer result) := by
  cases result with
  | some value => exact .pure hholds trivial
  | none => exact .throw hholds trivial

theorem obeys_head (hholds : rules.holds store) (datum : Datum) :
    Obeys rules store (head context datum) := by
  unfold head
  split
  · exact .pure hholds trivial
  · exact obeys_failPrinting hholds _ _ _

theorem obeys_tail (hholds : rules.holds store) (datum : Datum) :
    Obeys rules store (tail context datum) := by
  unfold tail
  split
  · exact .pure hholds trivial
  · exact obeys_failPrinting hholds _ _ _

theorem obeys_length (hholds : rules.holds store) (datum : Datum) :
    Obeys rules store (length context datum) := by
  unfold length
  split
  · exact .pure hholds trivial
  · exact obeys_failPrinting hholds _ _ _

theorem obeys_forcePromise (hcontext : context.IsObedient rules) (hholds : rules.holds store)
    {id : PromiseId} (hallows : rules.AllowsForce store id) :
    Obeys rules store (forcePromise context id) := by
  refine .get_bind ?_
  split
  · exact .pure hholds trivial
  · exact .pure hholds trivial
  · next expression frame hpending =>
    have hframe := hallows expression frame hpending
    refine (hcontext hholds hframe expression).bind fun _ value hholds _ => .get_bind ?_
    split
    · exact .pure hholds trivial
    · exact (obeys_settlePromise hholds id value).bind fun _ _ hholds _ => .pure hholds trivial

theorem obeys_display (hholds : rules.holds store) (datum : Datum) :
    Obeys rules store (display context datum) :=
  (obeys_checkPrintable hholds _ datum).bind fun _ _ hholds _ =>
    (obeys_write hholds _).bind fun _ _ hholds _ => .pure hholds trivial

theorem obeys_newline (hholds : rules.holds store) : Obeys rules store newline :=
  (obeys_write hholds _).bind fun _ _ hholds _ => .pure hholds trivial

end Machine

/-! ### Application -/

/-- What a procedure does with arguments of the right count obeys the rules, given leave. -/
def Builtin.IsObedient (context : Context) (rules : Discipline) (procedure : Builtin) : Prop :=
  match procedure.rule with
  | .predicate _ | .comparison _ => True
  | .nullary run => ∀ {store : Store}, rules.holds store → Obeys rules store run
  | .unary run => ∀ {store : Store} {datum : Datum}, rules.holds store →
    rules.AllowsCall store (.builtin procedure) [datum] → Obeys rules store (run context datum)
  | .binary run => ∀ {store : Store} {left right : Datum}, rules.holds store →
    rules.AllowsCall store (.builtin procedure) [left, right] →
      Obeys rules store (run context left right)
  | .leading run => ∀ {store : Store}, rules.holds store → ∀ (first : Datum) (rest : List Datum),
    Obeys rules store (run context first rest)
  | .variadic run => ∀ {store : Store}, rules.holds store → ∀ arguments : List Datum,
    Obeys rules store (run context arguments)

theorem Builtin.isObedient {context : Context} {rules : Discipline}
    (hcontext : context.IsObedient rules) (procedure : Builtin) :
    procedure.IsObedient context rules := by
  cases procedure with
  | add => exact obeys_addition
  | subtract => exact obeys_subtraction
  | multiply => exact obeys_multiplication
  | divide => exact obeys_division
  | remainder => exact fun hholds hallows => obeys_remainder hholds hallows
  | isSame | isAlike => exact fun hholds _ => obeys_answer hholds _
  | cons => exact fun hholds _ => obeys_cons hholds _ _
  | car => exact fun hholds _ => obeys_head hholds _
  | cdr => exact fun hholds _ => obeys_tail hholds _
  | list => exact fun hholds arguments => obeys_listOf hholds arguments .empty
  | length => exact fun hholds _ => obeys_length hholds _
  | force =>
    intro store datum hholds hallows
    cases datum with
    | promise id => exact obeys_forcePromise hcontext hholds hallows
    | _ => exact .pure hholds trivial
  | display => exact fun hholds _ => obeys_display hholds _
  | newline => exact obeys_newline
  | _ => trivial

namespace Machine

variable {rules : Discipline} {context : Context} {store : Store}

theorem obeys_callBuiltin (hcontext : context.IsObedient rules) (hholds : rules.holds store)
    {procedure : Builtin} {arguments : List Datum}
    (hallows : rules.AllowsCall store (.builtin procedure) arguments) :
    Obeys rules store (callBuiltin context procedure arguments) := by
  have hrule := procedure.isObedient hcontext
  unfold Builtin.IsObedient at hrule
  unfold callBuiltin
  split
  · exact .pure hholds trivial
  · exact obeys_compareNumbers hholds _ _ _ _
  · next run heq =>
    rw [heq] at hrule
    exact hrule hholds
  · next run datum heq =>
    rw [heq] at hrule
    exact hrule hholds hallows
  · next run left right heq =>
    rw [heq] at hrule
    exact hrule hholds hallows
  · next run first rest heq =>
    rw [heq] at hrule
    exact hrule hholds first rest
  · next run _ heq =>
    rw [heq] at hrule
    exact hrule hholds _
  · exact .fail hholds _

theorem obeys_bindArguments (hholds : rules.holds store) (closure : Datum) (formals : Formals)
    (arguments : List Datum) : Obeys rules store (bindArguments closure formals arguments) := by
  unfold bindArguments
  split
  · exact (obeys_listOf hholds arguments .empty).bind fun _ _ hholds _ => .pure hholds trivial
  · split
    · exact .pure hholds trivial
    · exact .fail hholds _

theorem obeys_enterClosure (hholds : rules.holds store) (closure : Datum) (formals : Formals)
    (frame : FrameId) (arguments : List Datum) :
    Obeys rules store (enterClosure closure formals frame arguments) rules.mayUse :=
  (obeys_bindArguments hholds closure formals arguments).bind fun _ bindings hholds _ =>
    obeys_newFrame hholds bindings (some frame)

end Machine

/-- A step proceeds only in a frame that may be used. -/
def Step.IsAllowed (rules : Discipline) : Step → Prop
  | .done _ => True
  | .proceed _ frame => rules.mayUse frame

/-- Whatever a closure's own frame is, its body is evaluated in a new one. -/
theorem Machine.obeys_applyProcedure {rules : Discipline} {context : Context} {store : Store}
    (hcontext : context.IsObedient rules) (hholds : rules.holds store) {callee : Datum}
    {arguments : List Datum} (hallows : rules.AllowsCall store callee arguments) :
    Obeys rules store (applyProcedure context callee arguments) (Step.IsAllowed rules) := by
  cases callee with
  | builtin procedure =>
    exact (obeys_callBuiltin hcontext hholds hallows).bind fun _ _ hholds _ =>
      .pure hholds trivial
  | closure label name formals body frame =>
    exact (obeys_enterClosure hholds _ formals frame arguments).bind fun _ _ hholds hinner =>
      .pure hholds hinner
  | _ => exact obeys_failPrinting hholds _ _ _

end SmallScheme
