import SmallScheme.Evaluator.Application
import SmallScheme.Proofs.Traces.Computation
/-!
# Procedures and traces

No built-in procedure looks at the traces that are there already, if the evaluations inside a step
do not.
-/

namespace SmallScheme

open Machine

/-- Expressions inside a step are evaluated without a look at the traces. -/
def Context.IsOblivious (context : Context) : Prop :=
  ∀ expression frame, Oblivious (context.evaluate expression frame)

namespace Machine

variable {context : Context}

/-! ### Numbers -/

theorem oblivious_toNumber (limit : Nat) (name : String) (datum : Datum) :
    Oblivious (toNumber limit name datum) := by
  cases datum with
  | num value => exact .pure value
  | int value => exact oblivious_numberOfInteger value
  | _ => exact oblivious_failDiagnosing _ _ _

theorem oblivious_toNumbers (limit : Nat) (procedure : Builtin) (arguments : List Datum) :
    Oblivious (toNumbers limit procedure arguments) :=
  .mapM (oblivious_toNumber limit procedure.name) arguments

theorem oblivious_compareNumbers (limit : Nat) (procedure : Builtin)
    (relation : Double → Double → Bool) (arguments : List Datum) :
    Oblivious (compareNumbers limit procedure relation arguments) :=
  (oblivious_toNumbers limit procedure arguments).bind fun _ => .pure _

theorem oblivious_addition (arguments : List Datum) : Oblivious (addition context arguments) :=
  (oblivious_toNumbers _ _ arguments).bind fun _ => .pure _

theorem oblivious_multiplication (arguments : List Datum) :
    Oblivious (multiplication context arguments) :=
  (oblivious_toNumbers _ _ arguments).bind fun _ => .pure _

theorem oblivious_subtraction (minuend : Datum) (subtrahends : List Datum) :
    Oblivious (subtraction context minuend subtrahends) :=
  (oblivious_toNumber _ _ minuend).bind fun _ =>
    (oblivious_toNumbers _ _ subtrahends).bind fun _ => .pure _

theorem oblivious_divideBy (quotient : Double) (divisors : List Double) :
    Oblivious (divideBy quotient divisors) := by
  induction divisors generalizing quotient with
  | nil => exact .pure quotient
  | cons divisor rest ih =>
    rw [divideBy]
    split
    · exact .fail _
    · exact ih _

theorem oblivious_division (dividend : Datum) (divisors : List Datum) :
    Oblivious (division context dividend divisors) := by
  refine (oblivious_toNumber _ _ dividend).bind fun first => ?_
  refine (oblivious_toNumbers _ _ divisors).bind fun rest => ?_
  split
  · exact (oblivious_divideBy _ _).bind fun _ => .pure _
  · exact (oblivious_divideBy _ _).bind fun _ => .pure _

theorem oblivious_remainder (dividend divisor : Datum) :
    Oblivious (remainder context dividend divisor) := by
  refine (oblivious_toNumber _ _ dividend).bind fun left => ?_
  refine (oblivious_toNumber _ _ divisor).bind fun right => ?_
  split
  · exact .fail _
  · exact (oblivious_orBreakDown _ _).bind fun _ => .pure _

/-! ### Pairs, promises and output -/

theorem oblivious_answer (result : Option Bool) : Oblivious (answer result) := by
  cases result with
  | some value => exact .pure (Datum.bool value)
  | none => exact .throw _

theorem oblivious_head (datum : Datum) : Oblivious (head context datum) := by
  unfold head
  split
  · exact .pure _
  · exact oblivious_failPrinting _ _ _

theorem oblivious_tail (datum : Datum) : Oblivious (tail context datum) := by
  unfold tail
  split
  · exact .pure _
  · exact oblivious_failPrinting _ _ _

theorem oblivious_length (datum : Datum) : Oblivious (length context datum) := by
  unfold length
  split
  · exact .pure _
  · exact oblivious_failPrinting _ _ _

theorem oblivious_forcePromise (hcontext : context.IsOblivious) (id : PromiseId) :
    Oblivious (forcePromise context id) := by
  refine .get_bind (fun _ _ => rfl) fun before => ?_
  split
  · exact .pure _
  · exact .pure _
  · next expression frame _ =>
    refine (hcontext expression frame).bind fun value => ?_
    refine .get_bind (fun _ _ => rfl) fun after => ?_
    split
    · exact .pure _
    · exact (oblivious_settlePromise id value).bind fun _ => .pure value

theorem oblivious_force (hcontext : context.IsOblivious) (datum : Datum) :
    Oblivious (force context datum) := by
  cases datum with
  | promise id => exact oblivious_forcePromise hcontext id
  | _ => exact .pure _

theorem oblivious_display (datum : Datum) : Oblivious (display context datum) :=
  (oblivious_checkPrintable _ datum).bind fun _ => (oblivious_write _).bind fun _ => .pure _

theorem oblivious_newline : Oblivious newline := (oblivious_write _).bind fun _ => .pure _

end Machine

/-! ### Application -/

/-- What a rule does with arguments of the right count is no matter of traces. -/
def Builtin.Rule.IsOblivious (context : Context) : Builtin.Rule → Prop
  | .predicate _ | .comparison _ => True
  | .nullary run => Oblivious run
  | .unary run => ∀ datum, Oblivious (run context datum)
  | .binary run => ∀ left right, Oblivious (run context left right)
  | .leading run => ∀ first rest, Oblivious (run context first rest)
  | .variadic run => ∀ arguments, Oblivious (run context arguments)

theorem Builtin.isOblivious_rule {context : Context} (hcontext : context.IsOblivious)
    (procedure : Builtin) : procedure.rule.IsOblivious context := by
  cases procedure with
  | add => exact oblivious_addition
  | subtract => exact oblivious_subtraction
  | multiply => exact oblivious_multiplication
  | divide => exact oblivious_division
  | remainder => exact oblivious_remainder
  | isSame | isAlike => exact fun _ _ => oblivious_answer _
  | cons => exact oblivious_cons
  | car => exact oblivious_head
  | cdr => exact oblivious_tail
  | list => exact fun arguments => oblivious_listOf arguments .empty
  | length => exact oblivious_length
  | force => exact oblivious_force hcontext
  | display => exact oblivious_display
  | newline => exact oblivious_newline
  | _ => trivial

namespace Machine

variable {context : Context}

theorem oblivious_callBuiltin (hcontext : context.IsOblivious) (procedure : Builtin)
    (arguments : List Datum) : Oblivious (callBuiltin context procedure arguments) := by
  have hrule := procedure.isOblivious_rule hcontext
  unfold callBuiltin
  generalize procedure.rule = rule at hrule
  split
  · exact .pure _
  · exact oblivious_compareNumbers _ _ _ _
  · exact hrule
  · exact hrule _
  · exact hrule _ _
  · exact hrule _ _
  · exact hrule _
  · exact .fail _

theorem oblivious_enterClosure (closure : Datum) (formals : Formals) (frame : FrameId)
    (arguments : List Datum) : Oblivious (enterClosure closure formals frame arguments) := by
  have hbindings : Oblivious (bindArguments closure formals arguments) := by
    unfold bindArguments
    split
    · exact (oblivious_listOf arguments .empty).bind fun _ => .pure _
    · split
      · exact .pure _
      · exact .fail _
  exact hbindings.bind fun bindings => oblivious_newFrame bindings (some frame)

theorem oblivious_applyProcedure (hcontext : context.IsOblivious) (callee : Datum)
    (arguments : List Datum) : Oblivious (applyProcedure context callee arguments) := by
  cases callee with
  | builtin procedure =>
    exact (oblivious_callBuiltin hcontext procedure arguments).bind fun _ => .pure _
  | closure label name formals body frame =>
    exact (oblivious_enterClosure _ formals frame arguments).bind fun _ => .pure _
  | _ => exact oblivious_failPrinting _ _ _

end Machine

end SmallScheme
