import SmallScheme.Evaluator.Application
import SmallScheme.Proofs.Relabelling.Simulation
/-!
# Built-in procedures and labels

No built-in procedure tells labels apart beyond what is the same and what is not. So each of them
does the same on data with moved labels, as long as the evaluations inside it do.
-/

namespace SmallScheme

open Machine

/-- The family of evaluations simulates the evaluation that the context has. -/
def Context.IsSimulated (shift : Shift) (context : Context)
    (family : Nat → Datum → FrameId → Machine Datum) : Prop :=
  ∀ expression frame, Simulates shift (Datum.relabel shift) (context.evaluate expression frame)
    fun steps => family steps (expression.relabel shift) frame

namespace Machine

variable {shift : Shift} {context : Context} {family : Nat → Datum → FrameId → Machine Datum}

/-! ### Numbers -/

theorem simulates_toNumber (limit : Nat) (name : String) (datum : Datum) :
    Simulates shift id (toNumber limit name datum) fun _ =>
      toNumber limit name (datum.relabel shift) := by
  cases datum with
  | num number => exact .pure number
  | int value => exact simulates_numberOfInteger value
  | _ => exact simulates_failDiagnosing limit _ (.notNumber name _)

theorem simulates_toNumbers (limit : Nat) (procedure : Builtin) (arguments : List Datum) :
    Simulates shift id (toNumbers limit procedure arguments) fun _ =>
      toNumbers limit procedure (arguments.map (Datum.relabel shift)) := by
  have heach : Simulates shift (List.map id) (toNumbers limit procedure arguments) fun _ =>
      toNumbers limit procedure (arguments.map (Datum.relabel shift)) :=
    .mapM (simulates_toNumber limit procedure.name) arguments
  rwa [List.map_id_fun] at heach

theorem simulates_compareNumbers (limit : Nat) (procedure : Builtin)
    (relation : Double → Double → Bool) (arguments : List Datum) :
    Simulates shift (Datum.relabel shift) (compareNumbers limit procedure relation arguments)
      fun _ => compareNumbers limit procedure relation (arguments.map (Datum.relabel shift)) :=
  (simulates_toNumbers limit procedure arguments).bind fun numbers =>
    .pure (Datum.bool (neighboursRelated relation numbers))

theorem simulates_addition (arguments : List Datum) :
    Simulates shift (Datum.relabel shift) (addition context arguments) fun steps =>
      addition { context with evaluate := family steps } (arguments.map (Datum.relabel shift)) :=
  (simulates_toNumbers context.limit .add arguments).bind fun numbers =>
    .pure (Datum.num (numbers.foldl Double.add (.zero false)))

theorem simulates_multiplication (arguments : List Datum) :
    Simulates shift (Datum.relabel shift) (multiplication context arguments) fun steps =>
      multiplication { context with evaluate := family steps }
        (arguments.map (Datum.relabel shift)) :=
  (simulates_toNumbers context.limit .multiply arguments).bind fun numbers =>
    .pure (Datum.num (numbers.foldl Double.multiply (.ofNat 1)))

theorem simulates_subtraction (minuend : Datum) (subtrahends : List Datum) :
    Simulates shift (Datum.relabel shift) (subtraction context minuend subtrahends) fun steps =>
      subtraction { context with evaluate := family steps } (minuend.relabel shift)
        (subtrahends.map (Datum.relabel shift)) :=
  (simulates_toNumber context.limit _ minuend).bind fun first =>
    (simulates_toNumbers context.limit .subtract subtrahends).bind fun rest =>
      .pure (Datum.num (if rest.isEmpty then first.negate else rest.foldl Double.subtract first))

theorem simulates_divideBy (quotient : Double) (divisors : List Double) :
    Simulates shift id (divideBy quotient divisors) fun _ => divideBy quotient divisors := by
  induction divisors generalizing quotient with
  | nil => exact .pure quotient
  | cons divisor rest ih =>
    simp only [divideBy]
    cases divisor.isZero with
    | true => exact .fail _
    | false => exact ih _

theorem simulates_division (dividend : Datum) (divisors : List Datum) :
    Simulates shift (Datum.relabel shift) (division context dividend divisors) fun steps =>
      division { context with evaluate := family steps } (dividend.relabel shift)
        (divisors.map (Datum.relabel shift)) := by
  refine (simulates_toNumber context.limit _ dividend).bind fun first => ?_
  refine (simulates_toNumbers context.limit .divide divisors).bind fun rest => ?_
  simp only [id]
  cases rest.isEmpty with
  | true => exact (simulates_divideBy _ _).bind fun number => .pure (Datum.num number)
  | false => exact (simulates_divideBy _ _).bind fun number => .pure (Datum.num number)

theorem simulates_remainder (dividend divisor : Datum) :
    Simulates shift (Datum.relabel shift) (remainder context dividend divisor) fun steps =>
      remainder { context with evaluate := family steps } (dividend.relabel shift)
        (divisor.relabel shift) := by
  refine (simulates_toNumber context.limit _ dividend).bind fun left => ?_
  refine (simulates_toNumber context.limit _ divisor).bind fun right => ?_
  simp only [id]
  cases right.isZero with
  | true => exact .fail _
  | false => exact (simulates_orBreakDown _ _).bind fun number => .pure (Datum.num number)

/-! ### Pairs and promises -/

theorem simulates_answer (result : Option Bool) :
    Simulates shift (Datum.relabel shift) (answer result) fun _ => answer result := by
  cases result with
  | some value => exact .pure (Datum.bool value)
  | none => exact .throw _

theorem simulates_head (datum : Datum) :
    Simulates shift (Datum.relabel shift) (head context datum) fun steps =>
      head { context with evaluate := family steps } (datum.relabel shift) := by
  cases datum with
  | pair label head tail => exact .pure head
  | _ => exact simulates_failPrinting context.limit _ (.notPair .car _)

theorem simulates_tail (datum : Datum) :
    Simulates shift (Datum.relabel shift) (tail context datum) fun steps =>
      tail { context with evaluate := family steps } (datum.relabel shift) := by
  cases datum with
  | pair label head tail => exact .pure tail
  | _ => exact simulates_failPrinting context.limit _ (.notPair .cdr _)

theorem simulates_length (datum : Datum) :
    Simulates shift (Datum.relabel shift) (length context datum) fun steps =>
      length { context with evaluate := family steps } (datum.relabel shift) := by
  simp only [length, Datum.isList_relabel, Datum.items_relabel, List.length_map]
  cases datum.isList with
  | true => exact .pure (Datum.num _)
  | false => exact simulates_failPrinting context.limit datum (.notList .length datum)

theorem simulates_forcePromise (hcontext : context.IsSimulated shift family) (id : PromiseId) :
    Simulates shift (Datum.relabel shift) (forcePromise context id) fun steps =>
      forcePromise { context with evaluate := family steps } id := by
  refine Simulates.get.bind fun before => ?_
  rw [Store.getElem?_promises_relabel]
  match before.promises[id]? with
  | none => exact .pure (Datum.promise id)
  | some (.forced value) => exact .pure value
  | some (.pending expression frame) =>
    refine (hcontext expression frame).bind fun value => ?_
    refine Simulates.get.bind fun after => ?_
    rw [Store.getElem?_promises_relabel]
    have hsettle : Simulates shift (Datum.relabel shift)
        (settlePromise id value >>= fun _ => pure value) fun _ =>
          settlePromise id (value.relabel shift) >>= fun _ => pure (value.relabel shift) :=
      (simulates_settlePromise id value).bind fun _ => .pure value
    match after.promises[id]? with
    | some (.forced earlier) => exact .pure earlier
    | some (.pending _ _) => exact hsettle
    | none => exact hsettle

theorem simulates_force (hcontext : context.IsSimulated shift family) (datum : Datum) :
    Simulates shift (Datum.relabel shift) (force context datum) fun steps =>
      force { context with evaluate := family steps } (datum.relabel shift) := by
  cases datum with
  | promise id => exact simulates_forcePromise hcontext id
  | _ => exact .pure _

theorem simulates_display (datum : Datum) :
    Simulates shift (Datum.relabel shift) (display context datum) fun steps =>
      display { context with evaluate := family steps } (datum.relabel shift) := by
  refine (simulates_checkPrintable context.limit datum).bind fun _ => ?_
  rw [Datum.display_relabel]
  exact (simulates_write datum.display).bind fun _ => .pure Datum.unspecified

theorem simulates_newline :
    Simulates shift (Datum.relabel shift) newline fun _ => newline :=
  (simulates_write "\n").bind fun _ => .pure Datum.unspecified

end Machine

/-! ### Application -/

variable {shift : Shift} {context : Context} {family : Nat → Datum → FrameId → Machine Datum}

/-- The rule does the same on data with moved labels. -/
def Builtin.Rule.IsSimulated (shift : Shift) (context : Context)
    (family : Nat → Datum → FrameId → Machine Datum) : Builtin.Rule → Prop
  | .predicate test => ∀ datum, test (datum.relabel shift) = test datum
  | .comparison _ => True
  | .nullary run => Simulates shift (Datum.relabel shift) run fun _ => run
  | .unary run => ∀ datum, Simulates shift (Datum.relabel shift) (run context datum) fun steps =>
    run { context with evaluate := family steps } (datum.relabel shift)
  | .binary run => ∀ left right, Simulates shift (Datum.relabel shift) (run context left right)
    fun steps => run { context with evaluate := family steps } (left.relabel shift)
      (right.relabel shift)
  | .leading run => ∀ first rest, Simulates shift (Datum.relabel shift) (run context first rest)
    fun steps => run { context with evaluate := family steps } (first.relabel shift)
      (rest.map (Datum.relabel shift))
  | .variadic run => ∀ arguments, Simulates shift (Datum.relabel shift) (run context arguments)
    fun steps => run { context with evaluate := family steps }
      (arguments.map (Datum.relabel shift))

theorem Builtin.isSimulated_rule (hcontext : context.IsSimulated shift family)
    (procedure : Builtin) : procedure.rule.IsSimulated shift context family := by
  cases procedure with
  | add => exact simulates_addition
  | subtract => exact simulates_subtraction
  | multiply => exact simulates_multiplication
  | divide => exact simulates_division
  | remainder => exact simulates_remainder
  | not => exact fun datum => congrArg Bool.not (datum.isTrue_relabel shift)
  | isSame =>
    intro left right
    simp only [Datum.isSame?_relabel]
    exact simulates_answer _
  | isAlike =>
    intro left right
    simp only [Datum.isAlike?_relabel]
    exact simulates_answer _
  | cons => exact simulates_cons
  | car => exact simulates_head
  | cdr => exact simulates_tail
  | list => exact fun arguments => simulates_listOf arguments .empty
  | length => exact simulates_length
  | isNull => exact Datum.isEmpty_relabel shift
  | isPair => exact Datum.isPair_relabel shift
  | isList => exact Datum.isList_relabel shift
  | isNumber => exact Datum.isNumber_relabel shift
  | isString => exact Datum.isString_relabel shift
  | isSymbol => exact Datum.isSymbol_relabel shift
  | isBoolean => exact Datum.isBoolean_relabel shift
  | isProcedure => exact Datum.isProcedure_relabel shift
  | force => exact simulates_force hcontext
  | display => exact simulates_display
  | newline => exact simulates_newline
  | equals | less | greater | atMost | atLeast => trivial

namespace Machine

theorem simulates_callBuiltin (hcontext : context.IsSimulated shift family) (procedure : Builtin)
    (arguments : List Datum) :
    Simulates shift (Datum.relabel shift) (callBuiltin context procedure arguments) fun steps =>
      callBuiltin { context with evaluate := family steps } procedure
        (arguments.map (Datum.relabel shift)) := by
  have hrule := procedure.isSimulated_rule hcontext
  have hfail : ∀ arity, Simulates shift (Datum.relabel shift)
      (fail (.builtinArity procedure arity arguments.length)) fun _ =>
        fail (.builtinArity procedure arity (arguments.map (Datum.relabel shift)).length) := by
    intro arity
    rw [List.length_map]
    exact .fail _
  unfold callBuiltin
  generalize procedure.rule = rule at hrule
  cases rule with
  | predicate test =>
    match arguments with
    | [datum] =>
      change Simulates shift _ (pure (Datum.bool (test datum))) fun _ =>
        pure (Datum.bool (test (datum.relabel shift)))
      rw [hrule datum]
      exact .pure (Datum.bool (test datum))
    | [] | _ :: _ :: _ => exact hfail _
  | comparison relation =>
    match arguments with
    | _ :: _ :: _ => exact simulates_compareNumbers context.limit procedure relation _
    | [] | [_] => exact hfail _
  | nullary run =>
    match arguments with
    | [] => exact hrule
    | _ :: _ => exact hfail _
  | unary run =>
    match arguments with
    | [datum] => exact hrule datum
    | [] | _ :: _ :: _ => exact hfail _
  | binary run =>
    match arguments with
    | [left, right] => exact hrule left right
    | [] | [_] | _ :: _ :: _ :: _ => exact hfail _
  | leading run =>
    match arguments with
    | first :: rest => exact hrule first rest
    | [] => exact hfail _
  | variadic run => exact hrule arguments

theorem simulates_bindArguments (callee : Datum) (formals : Formals) (arguments : List Datum) :
    Simulates shift (Bindings.relabel shift) (bindArguments callee formals arguments) fun _ =>
      bindArguments (callee.relabel shift) formals (arguments.map (Datum.relabel shift)) := by
  cases formals with
  | rest name =>
    exact (simulates_listOf arguments .empty).bind fun list => .pure [(name, list)]
  | fixed names =>
    simp only [bindArguments, List.length_map]
    by_cases hcount : names.length = arguments.length
    · have hzip : names.zip (arguments.map (Datum.relabel shift)) =
          Bindings.relabel shift (names.zip arguments) := List.zip_map_right
      simp only [if_pos hcount]
      rw [hzip, ← Bindings.ofPairs_relabel]
      exact .pure (Bindings.ofPairs (names.zip arguments))
    · simp only [if_neg hcount]
      exact .fail (.closureArity callee names.length arguments.length)

theorem simulates_enterClosure (callee : Datum) (formals : Formals) (frame : FrameId)
    (arguments : List Datum) :
    Simulates shift id (enterClosure callee formals frame arguments) fun _ =>
      enterClosure (callee.relabel shift) formals frame (arguments.map (Datum.relabel shift)) :=
  (simulates_bindArguments callee formals arguments).bind fun bindings =>
    simulates_newFrame bindings (some frame)

theorem simulates_applyProcedure (hcontext : context.IsSimulated shift family) (callee : Datum)
    (arguments : List Datum) :
    Simulates shift (Step.relabel shift) (applyProcedure context callee arguments) fun steps =>
      applyProcedure { context with evaluate := family steps } (callee.relabel shift)
        (arguments.map (Datum.relabel shift)) := by
  cases callee with
  | builtin procedure =>
    exact (simulates_callBuiltin hcontext procedure arguments).bind fun value =>
      .pure (Step.done value)
  | closure label name formals body frame =>
    refine (simulates_enterClosure _ formals frame arguments).bind fun inner => ?_
    rw [Datum.relabelAll_eq_map, ← Datum.ofBody_relabel]
    exact .pure (Step.proceed (.ofBody body) inner)
  | _ => exact simulates_failPrinting context.limit _ (.notCallable _)

end Machine

end SmallScheme
