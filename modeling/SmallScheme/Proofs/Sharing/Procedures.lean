import SmallScheme.Evaluator.Application
import SmallScheme.Proofs.Sharing.Computation
/-!
# Procedures on cells

A built-in procedure that is applied to data of a heap ends with data of a larger one, and the frame
of a closure's call binds nothing else.
-/

namespace SmallScheme

open Machine

/-- Expressions inside a step that live in a heap have values that live in a larger one. -/
def Context.KeepsCells (context : Context) : Prop :=
  ∀ ⦃heap : Heap⦄ ⦃store : Store⦄ ⦃expression : Datum⦄, store.LivesIn heap →
    expression.LivesIn heap → ∀ frame : FrameId,
      KeepsDatum heap store (context.evaluate expression frame)

namespace Machine

variable {context : Context} {heap : Heap} {store : Store}

theorem keepsDatum_atom (hlives : store.LivesIn heap) {datum : Datum} (hcells : datum.cells = []) :
    KeepsDatum heap store (pure datum) :=
  .pure hlives (Datum.livesIn_of_cells_eq_nil hcells)

/-! ### Numbers -/

theorem keeps_orBreakDown (hlives : store.LivesIn heap) (breakdown : Breakdown)
    (result : Option Double) :
    Keeps heap store (orBreakDown breakdown result) fun _ _ => True := by
  cases result with
  | some number => exact .pure hlives trivial
  | none => exact .throw hlives _

theorem keeps_toNumber (hlives : store.LivesIn heap) (limit : Nat) (name : String)
    (datum : Datum) : Keeps heap store (toNumber limit name datum) fun _ _ => True := by
  unfold toNumber
  split
  · exact .pure hlives trivial
  · exact keeps_orBreakDown hlives _ _
  · exact keeps_failDiagnosing hlives _ _ _

theorem keeps_toNumbers (hlives : store.LivesIn heap) (limit : Nat) (procedure : Builtin)
    (arguments : List Datum) :
    Keeps heap store (toNumbers limit procedure arguments) fun _ _ => True := by
  have heach : Keeps heap store (toNumbers limit procedure arguments) fun _ numbers =>
      ∀ number ∈ numbers, True :=
    .mapM (fun _ _ _ _ _ => trivial) hlives fun _ _ _ hlives argument _ =>
      keeps_toNumber hlives limit procedure.name argument
  exact heach.mono fun _ _ _ => trivial

theorem keepsDatum_compareNumbers (hlives : store.LivesIn heap) (limit : Nat)
    (procedure : Builtin) (relation : Double → Double → Bool) (arguments : List Datum) :
    KeepsDatum heap store (compareNumbers limit procedure relation arguments) :=
  (keeps_toNumbers hlives limit procedure arguments).bind fun _ _ _ _ hlives _ =>
    keepsDatum_atom hlives rfl

theorem keepsDatum_addition (hlives : store.LivesIn heap) (arguments : List Datum) :
    KeepsDatum heap store (addition context arguments) :=
  (keeps_toNumbers hlives _ _ arguments).bind fun _ _ _ _ hlives _ => keepsDatum_atom hlives rfl

theorem keepsDatum_multiplication (hlives : store.LivesIn heap) (arguments : List Datum) :
    KeepsDatum heap store (multiplication context arguments) :=
  (keeps_toNumbers hlives _ _ arguments).bind fun _ _ _ _ hlives _ => keepsDatum_atom hlives rfl

theorem keepsDatum_subtraction (hlives : store.LivesIn heap) (minuend : Datum)
    (subtrahends : List Datum) :
    KeepsDatum heap store (subtraction context minuend subtrahends) :=
  (keeps_toNumber hlives _ _ minuend).bind fun _ _ _ _ hlives _ =>
    (keeps_toNumbers hlives _ _ subtrahends).bind fun _ _ _ _ hlives _ =>
      keepsDatum_atom hlives rfl

theorem keeps_divideBy (hlives : store.LivesIn heap) (quotient : Double) (divisors : List Double) :
    Keeps heap store (divideBy quotient divisors) fun _ _ => True := by
  induction divisors generalizing quotient with
  | nil => exact .pure hlives trivial
  | cons divisor rest ih =>
    rw [divideBy]
    split
    · exact .fail hlives _
    · exact ih _

theorem keepsDatum_division (hlives : store.LivesIn heap) (dividend : Datum)
    (divisors : List Datum) : KeepsDatum heap store (division context dividend divisors) := by
  refine (keeps_toNumber hlives _ _ dividend).bind fun _ _ first _ hlives _ => ?_
  refine (keeps_toNumbers hlives _ _ divisors).bind fun _ _ rest _ hlives _ => ?_
  split
  · exact (keeps_divideBy hlives _ _).bind fun _ _ _ _ hlives _ => keepsDatum_atom hlives rfl
  · exact (keeps_divideBy hlives _ _).bind fun _ _ _ _ hlives _ => keepsDatum_atom hlives rfl

theorem keepsDatum_remainder (hlives : store.LivesIn heap) (dividend divisor : Datum) :
    KeepsDatum heap store (remainder context dividend divisor) := by
  refine (keeps_toNumber hlives _ _ dividend).bind fun _ _ left _ hlives _ => ?_
  refine (keeps_toNumber hlives _ _ divisor).bind fun _ _ right _ hlives _ => ?_
  split
  · exact .fail hlives _
  · exact (keeps_orBreakDown hlives _ _).bind fun _ _ _ _ hlives _ => keepsDatum_atom hlives rfl

/-! ### Pairs and promises -/

theorem keepsDatum_answer (hlives : store.LivesIn heap) (result : Option Bool) :
    KeepsDatum heap store (answer result) := by
  cases result with
  | some value => exact keepsDatum_atom hlives rfl
  | none => exact .throw hlives _

theorem keepsDatum_head (hlives : store.LivesIn heap) {datum : Datum}
    (hdatum : datum.LivesIn heap) : KeepsDatum heap store (head context datum) := by
  unfold head
  split
  · exact .pure hlives (Datum.livesIn_pair.1 hdatum).2.1
  · exact keeps_failPrinting hlives _ _ _

theorem keepsDatum_tail (hlives : store.LivesIn heap) {datum : Datum}
    (hdatum : datum.LivesIn heap) : KeepsDatum heap store (tail context datum) := by
  unfold tail
  split
  · exact .pure hlives (Datum.livesIn_pair.1 hdatum).2.2
  · exact keeps_failPrinting hlives _ _ _

theorem keepsDatum_length (hlives : store.LivesIn heap) (datum : Datum) :
    KeepsDatum heap store (length context datum) := by
  unfold length
  split
  · exact keepsDatum_atom hlives rfl
  · exact keeps_failPrinting hlives _ _ _

theorem keepsDatum_forcePromise (hcontext : context.KeepsCells) (hlives : store.LivesIn heap)
    (id : PromiseId) : KeepsDatum heap store (forcePromise context id) := by
  refine (Keeps.get hlives).bind fun _ _ before _ hlives hbefore => ?_
  split
  · exact keepsDatum_atom hlives rfl
  · next hforced => exact .pure hlives (hbefore.promises hforced)
  · next expression frame hpending =>
    refine (hcontext hlives (hbefore.promises hpending) frame).bind ?_
    intro _ _ value _ hlives hvalue
    -- the evaluation may have forced this very promise
    refine (Keeps.get hlives).bind fun _ _ between hextends hlives hbetween => ?_
    split
    · next hearlier => exact .pure hlives (hbetween.promises hearlier)
    · have hvalue := hvalue.mono hextends
      refine (keeps_settlePromise hlives id hvalue).bind fun _ _ _ hextends hlives _ => ?_
      exact .pure hlives (hvalue.mono hextends)

theorem keepsDatum_force (hcontext : context.KeepsCells) (hlives : store.LivesIn heap)
    {datum : Datum} (hdatum : datum.LivesIn heap) :
    KeepsDatum heap store (force context datum) := by
  unfold force
  split
  · exact keepsDatum_forcePromise hcontext hlives _
  · exact .pure hlives hdatum

theorem keepsDatum_display (hlives : store.LivesIn heap) (datum : Datum) :
    KeepsDatum heap store (display context datum) :=
  (keeps_checkPrintable hlives _ datum).bind fun _ _ _ _ hlives _ =>
    (keeps_write hlives _).bind fun _ _ _ _ hlives _ => keepsDatum_atom hlives rfl

theorem keepsDatum_newline (hlives : store.LivesIn heap) : KeepsDatum heap store newline :=
  (keeps_write hlives _).bind fun _ _ _ _ hlives _ => keepsDatum_atom hlives rfl

end Machine

/-! ### Application -/

/-- Whatever arguments a rule is given, what it ends with lives in a heap if they do. -/
def Builtin.Rule.KeepsCells (context : Context) : Builtin.Rule → Prop
  | .predicate _ | .comparison _ => True
  | .nullary run => ∀ {heap : Heap} {store : Store}, store.LivesIn heap →
    KeepsDatum heap store run
  | .unary run => ∀ {heap : Heap} {store : Store}, store.LivesIn heap → ∀ {datum : Datum},
    datum.LivesIn heap → KeepsDatum heap store (run context datum)
  | .binary run => ∀ {heap : Heap} {store : Store}, store.LivesIn heap → ∀ {left right : Datum},
    left.LivesIn heap → right.LivesIn heap → KeepsDatum heap store (run context left right)
  | .leading run => ∀ {heap : Heap} {store : Store}, store.LivesIn heap →
    ∀ (first : Datum) (rest : List Datum), KeepsDatum heap store (run context first rest)
  | .variadic run => ∀ {heap : Heap} {store : Store}, store.LivesIn heap →
    ∀ {arguments : List Datum}, (∀ argument ∈ arguments, argument.LivesIn heap) →
      KeepsDatum heap store (run context arguments)

theorem Builtin.keepsCells_rule {context : Context} (hcontext : context.KeepsCells)
    (procedure : Builtin) : procedure.rule.KeepsCells context := by
  cases procedure with
  | add => exact fun hlives arguments _ => keepsDatum_addition hlives arguments
  | subtract => exact keepsDatum_subtraction
  | multiply => exact fun hlives arguments _ => keepsDatum_multiplication hlives arguments
  | divide => exact keepsDatum_division
  | remainder => exact fun hlives left right _ _ => keepsDatum_remainder hlives left right
  | isSame | isAlike => exact fun hlives _ _ _ _ => keepsDatum_answer hlives _
  | cons => exact fun hlives _ _ hhead htail => keepsDatum_cons hlives hhead htail
  | car => exact fun hlives _ hdatum => keepsDatum_head hlives hdatum
  | cdr => exact fun hlives _ hdatum => keepsDatum_tail hlives hdatum
  | list =>
    exact fun hlives _ harguments =>
      keepsDatum_listOf hlives harguments (Datum.livesIn_of_cells_eq_nil rfl)
  | length => exact fun hlives datum _ => keepsDatum_length hlives datum
  | force => exact fun hlives _ hdatum => keepsDatum_force hcontext hlives hdatum
  | display => exact fun hlives datum _ => keepsDatum_display hlives datum
  | newline => exact keepsDatum_newline
  | _ => trivial

/-- What a step ends with, or goes on with, lives in the heap. -/
def Step.LivesIn (heap : Heap) : Step → Prop
  | .done value => value.LivesIn heap
  | .proceed expression _ => expression.LivesIn heap

namespace Machine

variable {context : Context} {heap : Heap} {store : Store} {arguments : List Datum}

theorem keepsDatum_callBuiltin (hcontext : context.KeepsCells) (hlives : store.LivesIn heap)
    (procedure : Builtin) (harguments : ∀ argument ∈ arguments, argument.LivesIn heap) :
    KeepsDatum heap store (callBuiltin context procedure arguments) := by
  have hrule := procedure.keepsCells_rule hcontext
  unfold callBuiltin
  split
  · exact keepsDatum_atom hlives rfl
  · exact keepsDatum_compareNumbers hlives _ _ _ _
  · next run heq =>
    rw [heq] at hrule
    exact hrule hlives
  · next run datum heq =>
    rw [heq] at hrule
    exact hrule hlives (harguments datum (by simp))
  · next run left right heq =>
    rw [heq] at hrule
    exact hrule hlives (harguments left (by simp)) (harguments right (by simp))
  · next run first rest heq =>
    rw [heq] at hrule
    exact hrule hlives first rest
  · next run _ heq =>
    rw [heq] at hrule
    exact hrule hlives harguments
  · exact .fail hlives _

theorem keeps_bindArguments (hlives : store.LivesIn heap) (closure : Datum) (formals : Formals)
    (harguments : ∀ argument ∈ arguments, argument.LivesIn heap) :
    Keeps heap store (bindArguments closure formals arguments) fun later bindings =>
      ∀ binding ∈ bindings, binding.2.LivesIn later := by
  unfold bindArguments
  split
  · have hending : Datum.empty.LivesIn heap := Datum.livesIn_of_cells_eq_nil rfl
    refine (keepsDatum_listOf hlives harguments hending).bind fun _ _ _ _ hlives hlist => ?_
    exact .pure hlives (List.forall_mem_singleton.2 hlist)
  · split
    · refine .pure hlives (Bindings.good_ofPairs fun pair hmem => ?_)
      exact harguments pair.2 (List.of_mem_zip hmem).2
    · exact .fail hlives _

theorem keeps_enterClosure (hlives : store.LivesIn heap) (closure : Datum) (formals : Formals)
    (frame : FrameId) (harguments : ∀ argument ∈ arguments, argument.LivesIn heap) :
    Keeps heap store (enterClosure closure formals frame arguments) fun _ _ => True :=
  (keeps_bindArguments hlives closure formals harguments).bind
    fun _ _ _ _ hlives hbindings => keeps_newFrame hlives hbindings _

theorem keeps_applyProcedure (hcontext : context.KeepsCells) (hlives : store.LivesIn heap)
    {callee : Datum} (hcallee : callee.LivesIn heap)
    (harguments : ∀ argument ∈ arguments, argument.LivesIn heap) :
    Keeps heap store (applyProcedure context callee arguments) fun later step =>
      step.LivesIn later := by
  unfold applyProcedure
  split
  · exact (keepsDatum_callBuiltin hcontext hlives _ harguments).bind fun _ _ _ _ hlives hvalue =>
      .pure hlives hvalue
  · next formals body frame =>
    have hbody := Datum.livesIn_ofBody (Datum.livesIn_closure.1 hcallee).2
    exact (keeps_enterClosure hlives _ formals frame harguments).bind
      fun _ _ _ hextends hlives _ => .pure hlives (hbody.mono hextends)
  · exact keeps_failPrinting hlives _ _ _

end Machine

end SmallScheme
