import SmallScheme.Evaluator.Application
import SmallScheme.Proofs.Soundness.Computation
/-!
# Procedures on values

Every built-in procedure is safe on values and gives a value, as long as the evaluations inside it
do. The call of a closure leaves an expression that can be evaluated in the frame of the call.
-/

namespace SmallScheme

open Machine

/-- The evaluation of expressions inside a step is safe and gives values. -/
def Context.IsSafe (context : Context) : Prop :=
  ∀ ⦃store : Store⦄ ⦃expression : Datum⦄ ⦃frame : FrameId⦄, store.Sound →
    expression.IsExpression store → frame < store.frames.size →
      GivesValue store (context.evaluate expression frame)

namespace Machine

variable {context : Context} {store : Store} {arguments : List Datum}

/-! ### Numbers -/

theorem safe_toNumber (hsound : store.Sound) (limit : Nat) (name : String) {datum : Datum}
    (hvalue : datum.IsValue store) : Safe store (toNumber limit name datum) fun _ _ => True := by
  cases hvalue with
  | num number => exact .pure hsound trivial
  | _ => exact safe_failDiagnosing hsound _ _ _

theorem safe_toNumbers (hsound : store.Sound) (limit : Nat) (procedure : Builtin)
    (harguments : ∀ argument ∈ arguments, argument.IsValue store) :
    Safe store (toNumbers limit procedure arguments) fun _ _ => True := by
  have heach : Safe store (toNumbers limit procedure arguments) fun _ numbers =>
      ∀ number ∈ numbers, True :=
    .mapM (fun _ _ _ _ _ => trivial) hsound fun _ hextends hsound argument hmem =>
      safe_toNumber hsound _ _ ((harguments argument hmem).mono hextends)
  exact heach.mono fun _ _ _ _ => trivial

theorem givesValue_compareNumbers (hsound : store.Sound) (limit : Nat) (procedure : Builtin)
    (relation : Double → Double → Bool)
    (harguments : ∀ argument ∈ arguments, argument.IsValue store) :
    GivesValue store (compareNumbers limit procedure relation arguments) :=
  (safe_toNumbers hsound limit procedure harguments).bind fun _ _ _ hsound _ =>
    .pure hsound (.bool _)

theorem givesValue_addition (hsound : store.Sound)
    (harguments : ∀ argument ∈ arguments, argument.IsValue store) :
    GivesValue store (addition context arguments) :=
  (safe_toNumbers hsound _ _ harguments).bind fun _ _ _ hsound _ => .pure hsound (.num _)

theorem givesValue_multiplication (hsound : store.Sound)
    (harguments : ∀ argument ∈ arguments, argument.IsValue store) :
    GivesValue store (multiplication context arguments) :=
  (safe_toNumbers hsound _ _ harguments).bind fun _ _ _ hsound _ => .pure hsound (.num _)

theorem givesValue_subtraction {minuend : Datum} (hsound : store.Sound)
    (hminuend : minuend.IsValue store)
    (harguments : ∀ argument ∈ arguments, argument.IsValue store) :
    GivesValue store (subtraction context minuend arguments) := by
  refine (safe_toNumber hsound _ _ hminuend).bind fun _ _ hextends hsound _ => ?_
  have harguments := fun argument hmem => (harguments argument hmem).mono hextends
  exact (safe_toNumbers hsound _ _ harguments).bind fun _ _ _ hsound _ => .pure hsound (.num _)

theorem safe_divideBy (hsound : store.Sound) (quotient : Double) (divisors : List Double) :
    Safe store (divideBy quotient divisors) fun _ _ => True := by
  induction divisors generalizing quotient with
  | nil => exact .pure hsound trivial
  | cons divisor rest ih =>
    rw [divideBy]
    split
    · exact .fail hsound _
    · exact ih _

theorem givesValue_division {dividend : Datum} (hsound : store.Sound)
    (hdividend : dividend.IsValue store)
    (harguments : ∀ argument ∈ arguments, argument.IsValue store) :
    GivesValue store (division context dividend arguments) := by
  refine (safe_toNumber hsound _ _ hdividend).bind fun _ first hextends hsound _ => ?_
  have harguments := fun argument hmem => (harguments argument hmem).mono hextends
  refine (safe_toNumbers hsound _ _ harguments).bind fun _ rest _ hsound _ => ?_
  split
  · exact (safe_divideBy hsound _ _).bind fun _ _ _ hsound _ => .pure hsound (.num _)
  · exact (safe_divideBy hsound _ _).bind fun _ _ _ hsound _ => .pure hsound (.num _)

theorem safe_orBreakDown (hsound : store.Sound) {breakdown : Breakdown}
    (hexpected : (Interrupt.breakdown breakdown).IsExpected) (result : Option Double) :
    Safe store (orBreakDown breakdown result) fun _ _ => True := by
  cases result with
  | some number => exact .pure hsound trivial
  | none => exact .throw hsound hexpected

theorem givesValue_remainder {dividend divisor : Datum} (hsound : store.Sound)
    (hdividend : dividend.IsValue store) (hdivisor : divisor.IsValue store) :
    GivesValue store (remainder context dividend divisor) := by
  refine (safe_toNumber hsound _ _ hdividend).bind fun _ left hextends hsound _ => ?_
  refine (safe_toNumber hsound _ _ (hdivisor.mono hextends)).bind fun _ right _ hsound _ => ?_
  split
  · exact .fail hsound _
  · have hexpected : (Interrupt.breakdown .remainderDomain).IsExpected := trivial
    exact (safe_orBreakDown hsound hexpected _).bind fun _ _ _ hsound _ => .pure hsound (.num _)

/-! ### Pairs and promises -/

theorem givesValue_answer (hsound : store.Sound) (result : Option Bool) :
    GivesValue store (answer result) := by
  cases result with
  | some value => exact .pure hsound (.bool value)
  | none => exact .throw hsound trivial

theorem givesValue_head {datum : Datum} (hsound : store.Sound) (hvalue : datum.IsValue store) :
    GivesValue store (head context datum) := by
  cases hvalue with
  | pair _ hhead _ => exact .pure hsound hhead
  | _ => exact safe_failPrinting hsound (by constructor <;> assumption) _ _

theorem givesValue_tail {datum : Datum} (hsound : store.Sound) (hvalue : datum.IsValue store) :
    GivesValue store (tail context datum) := by
  cases hvalue with
  | pair _ _ htail => exact .pure hsound htail
  | _ => exact safe_failPrinting hsound (by constructor <;> assumption) _ _

theorem givesValue_length {datum : Datum} (hsound : store.Sound) (hvalue : datum.IsValue store) :
    GivesValue store (length context datum) := by
  rw [length]
  split
  · exact .pure hsound (.num _)
  · exact safe_failPrinting hsound hvalue _ _

theorem givesValue_forcePromise (hcontext : context.IsSafe) (hsound : store.Sound)
    {id : PromiseId} (hid : id < store.promises.size) :
    GivesValue store (forcePromise context id) := by
  refine (Safe.get hsound).bind fun before _ hextends hsound heq => ?_
  subst heq
  split
  · exact .pure hsound (.promise (hextends.promise_lt hid))
  · next hpromise => exact .pure hsound (hsound.promises hpromise)
  · next expression frame hpromise =>
    obtain ⟨hexpression, hframe⟩ := hsound.promises hpromise
    refine (hcontext hsound (.source hexpression) hframe).bind fun _ value _ hsound hvalue => ?_
    -- the evaluation may have forced this very promise
    refine (Safe.get hsound).bind fun after _ hextends hsound heq => ?_
    subst heq
    split
    · next hforced => exact .pure hsound (hsound.promises hforced)
    · next hpending =>
      have hvalue := hvalue.mono hextends
      refine (safe_settlePromise hsound hpending hvalue).bind fun _ _ hextends hsound _ => ?_
      exact .pure hsound (hvalue.mono hextends)

theorem givesValue_force {datum : Datum} (hcontext : context.IsSafe) (hsound : store.Sound)
    (hvalue : datum.IsValue store) : GivesValue store (force context datum) := by
  cases hvalue with
  | promise hid => exact givesValue_forcePromise hcontext hsound hid
  | _ => exact .pure hsound (by constructor <;> assumption)

theorem givesValue_display {datum : Datum} (hsound : store.Sound) (hvalue : datum.IsValue store) :
    GivesValue store (display context datum) :=
  (safe_checkPrintable hsound hvalue _).bind fun _ _ _ hsound _ =>
    (safe_write hsound _).bind fun _ _ _ hsound _ => .pure hsound .unspecified

theorem givesValue_newline (hsound : store.Sound) : GivesValue store newline :=
  (safe_write hsound _).bind fun _ _ _ hsound _ => .pure hsound .unspecified

end Machine

/-! ### Application -/

/-- Whatever values a rule is given, it gives a value. -/
def Builtin.Rule.IsSafe (context : Context) : Builtin.Rule → Prop
  | .predicate _ | .comparison _ => True
  | .nullary run => ∀ {store : Store}, store.Sound → GivesValue store run
  | .unary run => ∀ {store : Store} {datum : Datum}, store.Sound → datum.IsValue store →
    GivesValue store (run context datum)
  | .binary run => ∀ {store : Store} {left right : Datum}, store.Sound → left.IsValue store →
    right.IsValue store → GivesValue store (run context left right)
  | .leading run => ∀ {store : Store} {first : Datum} {rest : List Datum}, store.Sound →
    first.IsValue store → (∀ argument ∈ rest, argument.IsValue store) →
      GivesValue store (run context first rest)
  | .variadic run => ∀ {store : Store} {arguments : List Datum}, store.Sound →
    (∀ argument ∈ arguments, argument.IsValue store) → GivesValue store (run context arguments)

theorem Builtin.isSafe_rule {context : Context} (hcontext : context.IsSafe) (procedure : Builtin) :
    procedure.rule.IsSafe context := by
  cases procedure with
  | add => exact givesValue_addition
  | subtract => exact givesValue_subtraction
  | multiply => exact givesValue_multiplication
  | divide => exact givesValue_division
  | remainder => exact givesValue_remainder
  | isSame | isAlike => exact fun hsound _ _ => givesValue_answer hsound _
  | cons => exact fun hsound hhead htail => givesValue_cons hsound hhead htail
  | car => exact givesValue_head
  | cdr => exact givesValue_tail
  | list => exact fun hsound harguments => givesValue_listOf hsound harguments .empty
  | length => exact givesValue_length
  | force => exact givesValue_force hcontext
  | display => exact givesValue_display
  | newline => exact givesValue_newline
  | _ => trivial

namespace Machine

variable {context : Context} {store : Store} {arguments : List Datum}

theorem givesValue_callBuiltin (hcontext : context.IsSafe) (hsound : store.Sound)
    (procedure : Builtin) (harguments : ∀ argument ∈ arguments, argument.IsValue store) :
    GivesValue store (callBuiltin context procedure arguments) := by
  have hrule := procedure.isSafe_rule hcontext
  unfold callBuiltin
  split
  · exact .pure hsound (.bool _)
  · exact givesValue_compareNumbers hsound _ _ _ harguments
  · next run heq =>
    rw [heq] at hrule
    exact hrule hsound
  · next run datum heq =>
    rw [heq] at hrule
    exact hrule hsound (harguments datum (by simp))
  · next run left right heq =>
    rw [heq] at hrule
    exact hrule hsound (harguments left (by simp)) (harguments right (by simp))
  · next run first rest heq =>
    rw [heq] at hrule
    rw [List.forall_mem_cons] at harguments
    exact hrule hsound harguments.1 harguments.2
  · next run _ heq =>
    rw [heq] at hrule
    exact hrule hsound harguments
  · exact .fail hsound _

theorem Bindings.good_ofPairs {good : Datum → Prop} {pairs : List (String × Datum)}
    (hpairs : ∀ pair ∈ pairs, good pair.2) :
    ∀ binding ∈ Bindings.ofPairs pairs, good binding.2 := by
  have hfold : ∀ bindings : Bindings, (∀ binding ∈ bindings, good binding.2) →
      ∀ binding ∈ pairs.foldl (fun bindings pair => bindings.set pair.1 pair.2) bindings,
        good binding.2 := by
    induction pairs with
    | nil => exact fun _ hbindings => hbindings
    | cons pair rest ih =>
      rw [List.forall_mem_cons] at hpairs
      exact fun bindings hbindings =>
        ih hpairs.2 _ (bindings.forall_mem_set hbindings pair.1 hpairs.1)
  exact hfold [] fun _ hmem => absurd hmem List.not_mem_nil

theorem safe_bindArguments (hsound : store.Sound) (closure : Datum) (formals : Formals)
    (harguments : ∀ argument ∈ arguments, argument.IsValue store) :
    Safe store (bindArguments closure formals arguments) fun after bindings =>
      ∀ binding ∈ bindings, binding.2.IsValue after := by
  unfold bindArguments
  split
  · refine (givesValue_listOf hsound harguments .empty).bind fun _ _ _ hsound hlist => ?_
    exact .pure hsound (List.forall_mem_singleton.2 hlist)
  · split
    · refine .pure hsound (Bindings.good_ofPairs fun pair hmem => ?_)
      exact harguments pair.2 (List.of_mem_zip hmem).2
    · exact .fail hsound _

theorem safe_enterClosure (hsound : store.Sound) (closure : Datum) (formals : Formals)
    {frame : FrameId} (hframe : frame < store.frames.size)
    (harguments : ∀ argument ∈ arguments, argument.IsValue store) :
    Safe store (enterClosure closure formals frame arguments) fun after inner =>
      inner < after.frames.size :=
  (safe_bindArguments hsound closure formals harguments).bind
    fun _ _ hextends hsound hbindings =>
      safe_newFrame hsound hbindings (hextends.frame_lt hframe)

end Machine

/-- What a step ends with is fit for the next one. -/
def Step.IsSound (store : Store) : Step → Prop
  | .done value => value.IsValue store
  | .proceed expression frame => expression.IsExpression store ∧ frame < store.frames.size

theorem Datum.isExpression_ofBody {store : Store} {body : List Datum}
    (hbody : ∀ form ∈ body, form.IsSyntax) : (ofBody body).IsExpression store := by
  match body with
  | [] => exact .value .unspecified
  | [expression] => exact .source (hbody expression List.mem_cons_self)
  | first :: second :: rest =>
    have hbegin : (keyword .begin).IsSyntax := .symbol (isIdentifier_keyword .begin)
    exact .source (.form (List.forall_mem_cons.2 ⟨hbegin, hbody⟩))

theorem Machine.safe_applyProcedure {context : Context} {store : Store} {callee : Datum}
    {arguments : List Datum} (hcontext : context.IsSafe) (hsound : store.Sound)
    (hcallee : callee.IsValue store)
    (harguments : ∀ argument ∈ arguments, argument.IsValue store) :
    Safe store (applyProcedure context callee arguments) fun after step => step.IsSound after := by
  cases hcallee with
  | builtin procedure =>
    exact (givesValue_callBuiltin hcontext hsound procedure harguments).bind
      fun _ _ _ hsound hvalue => .pure hsound hvalue
  | closure _ _ _ hbody hframe =>
    exact (safe_enterClosure hsound _ _ hframe harguments).bind fun _ _ _ hsound hinner =>
      .pure hsound ⟨Datum.isExpression_ofBody hbody, hinner⟩
  | _ => exact safe_failPrinting hsound (by constructor <;> assumption) _ _

end SmallScheme
