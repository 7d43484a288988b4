import Mathlib.Data.List.Chain
import SmallScheme.Proofs.Evaluator.Calls
/-!
# Numbers in order

A comparison asks its arguments to lie on the number line in an order, and looks at neighbours only.
The orders are transitive, and what is no number on the line is in no order with anything, so all
the arguments are then in that order, near and far. But before any two of them are compared, each
has to be a number.
-/

namespace SmallScheme

/-- The order of places on the number line that a procedure asks of its arguments, if it is one of
those that compare numbers. -/
def Builtin.order? : Builtin → Option (Int → Int → Prop)
  | .equals => some (· = ·)
  | .less => some (· < ·)
  | .greater => some (· > ·)
  | .atMost => some (· ≤ ·)
  | .atLeast => some (· ≥ ·)
  | _ => none

/-! ### Orders on numbers -/

namespace Double

variable {order : Int → Int → Prop} {left right : Double}

/-- Both numbers lie on the number line, and their places are in the order. -/
def InOrder (order : Int → Int → Prop) (left right : Double) : Prop :=
  ∃ leftPlace ∈ left.place?, ∃ rightPlace ∈ right.place?, order leftPlace rightPlace

theorem related_iff_inOrder {relation : Int → Int → Bool}
    (horder : ∀ left right, relation left right = true ↔ order left right) :
    related relation left right = true ↔ InOrder order left right := by
  rw [related, InOrder]
  cases left.place? <;> cases right.place? <;> simp [horder]

theorem inOrder_swap :
    InOrder order right left ↔ InOrder (fun left right => order right left) left right := by
  constructor
  · rintro ⟨rightPlace, hright, leftPlace, hleft, horder⟩
    exact ⟨leftPlace, hleft, rightPlace, hright, horder⟩
  · rintro ⟨leftPlace, hleft, rightPlace, hright, horder⟩
    exact ⟨rightPlace, hright, leftPlace, hleft, horder⟩

/-- A number that stands between two others has only one place. -/
instance [Trans order order order] : Trans (InOrder order) (InOrder order) (InOrder order) where
  trans := by
    rintro first second third ⟨start, hstart, middle, hmiddle, hfirst⟩
      ⟨other, hother, finish, hfinish, hsecond⟩
    cases Option.mem_unique hmiddle hother
    exact ⟨start, hstart, finish, hfinish, Trans.trans hfirst hsecond⟩

end Double

theorem neighboursRelated_iff_isChain {relation : Double → Double → Bool}
    {order : Double → Double → Prop}
    (horder : ∀ left right, relation left right = true ↔ order left right)
    (numbers : List Double) :
    neighboursRelated relation numbers = true ↔ numbers.IsChain order := by
  fun_induction neighboursRelated relation numbers with
  | case1 left right rest ih => rw [Bool.and_eq_true, horder, ih, List.isChain_cons_cons]
  | case2 numbers hshort =>
    match numbers with
    | [] | [_] => simp
    | left :: right :: rest => exact absurd rfl (hshort left right rest)

/-- The neighbours are in a transitive order only if all of the numbers are. -/
theorem neighboursRelated_iff_pairwise {order : Int → Int → Prop} [Trans order order order]
    {relation : Double → Double → Bool}
    (horder : ∀ left right, relation left right = true ↔ Double.InOrder order left right)
    (numbers : List Double) :
    neighboursRelated relation numbers = true ↔ numbers.Pairwise (Double.InOrder order) :=
  (neighboursRelated_iff_isChain horder numbers).trans List.isChain_iff_pairwise

/-- A procedure that compares numbers finds out whether all of them are in its order. -/
theorem Builtin.rule_of_order? {procedure : Builtin} {order : Int → Int → Prop}
    (horder : procedure.order? = some order) :
    ∃ relation, procedure.rule = .comparison relation ∧
      ∀ numbers, neighboursRelated relation numbers = true ↔
        numbers.Pairwise (Double.InOrder order) := by
  have hplaces : ∀ {order : Int → Int → Prop} [DecidableRel order] {left right : Double},
      Double.related (fun left right => decide (order left right)) left right = true ↔
        Double.InOrder order left right :=
    Double.related_iff_inOrder fun _ _ => decide_eq_true_iff
  cases procedure <;> cases horder
  case equals => exact ⟨_, rfl, neighboursRelated_iff_pairwise fun _ _ => hplaces⟩
  case less => exact ⟨_, rfl, neighboursRelated_iff_pairwise fun _ _ => hplaces⟩
  case atMost => exact ⟨_, rfl, neighboursRelated_iff_pairwise fun _ _ => hplaces⟩
  -- the other two are written with their operands exchanged
  case greater =>
    exact ⟨_, rfl, neighboursRelated_iff_pairwise fun _ _ => hplaces.trans Double.inOrder_swap⟩
  case atLeast =>
    exact ⟨_, rfl, neighboursRelated_iff_pairwise fun _ _ => hplaces.trans Double.inOrder_swap⟩

/-! ### Arguments -/

/-- Values are all numbers of the language, or there is a first one that is none. -/
theorem Datum.numbers_or_first {store : Store} {arguments : List Datum}
    (harguments : ∀ argument ∈ arguments, argument.IsValue store) :
    (∃ numbers : List Double, arguments = numbers.map num) ∨
      ∃ (numbers : List Double) (datum : Datum) (rest : List Datum),
        arguments = numbers.map num ++ datum :: rest ∧ datum.isNumber = false := by
  induction arguments with
  | nil => exact .inl ⟨[], rfl⟩
  | cons argument rest ih =>
    rw [List.forall_mem_cons] at harguments
    cases harguments.1 with
    | num number =>
      obtain ⟨numbers, rfl⟩ | ⟨numbers, datum, rest, rfl, hdatum⟩ := ih harguments.2
      · exact .inl ⟨number :: numbers, rfl⟩
      · exact .inr ⟨number :: numbers, datum, rest, rfl, hdatum⟩
    | _ => exact .inr ⟨[], _, rest, rfl, rfl⟩

namespace Machine

variable {procedure : Builtin} {context : Context} {arguments : List Datum} {store : Store}

theorem toNumbers_map_num (limit : Nat) (procedure : Builtin) (numbers : List Double)
    (store : Store) : toNumbers limit procedure (numbers.map .num) store = .ok numbers store := by
  induction numbers with
  | nil => rfl
  | cons number numbers ih =>
    rw [toNumbers, List.map_cons, List.mapM_cons]
    exact (bind_of_ok rfl).trans (bind_of_ok ih)

theorem toNumber_eq_error (limit : Nat) (name : String) {datum : Datum}
    (hdatum : datum.isNumber = false) (store : Store) :
    toNumber limit name datum store =
      .error (diagnosing limit datum (.notNumber name datum)) store := by
  have hfail : toNumber limit name datum = failDiagnosing limit datum (.notNumber name datum) := by
    cases datum with
    | num | int => cases hdatum
    | _ => rfl
  rw [hfail, failDiagnosing_eq]
  rfl

/-- The first argument that is no number is reported, whatever the numbers before it are. -/
theorem toNumbers_eq_error (limit : Nat) (procedure : Builtin) (numbers : List Double)
    {datum : Datum} (hdatum : datum.isNumber = false) (rest : List Datum) (store : Store) :
    toNumbers limit procedure (numbers.map .num ++ datum :: rest) store =
      .error (diagnosing limit datum (.notNumber procedure.name datum)) store := by
  induction numbers with
  | nil =>
    rw [toNumbers, List.map_nil, List.nil_append, List.mapM_cons]
    exact bind_of_error (toNumber_eq_error limit procedure.name hdatum store)
  | cons number numbers ih =>
    rw [toNumbers, List.map_cons, List.cons_append, List.mapM_cons]
    exact (bind_of_ok rfl).trans (bind_of_error ih)

theorem callBuiltin_of_comparison {relation : Double → Double → Bool}
    (hrule : procedure.rule = .comparison relation) (hcount : 2 ≤ arguments.length) :
    callBuiltin context procedure arguments =
      compareNumbers context.limit procedure relation arguments := by
  match arguments with
  | [] | [_] => simp at hcount
  | _ :: _ :: _ => simp only [callBuiltin, hrule]

/-- The computation ends with a fault of the kind. -/
def FaultsWith (kind : Fault.Kind) (computation : Machine Datum) (store : Store) : Prop :=
  ∃ fault after, computation store = .error (.fault fault) after ∧ fault.kind = kind

/-- A comparison has too few arguments, or one that is no number, or it compares numbers. -/
theorem callBuiltin_comparison_cases {order : Int → Int → Prop}
    (horder : procedure.order? = some order)
    (harguments : ∀ argument ∈ arguments, argument.IsValue store) (context : Context) :
    arguments.length < 2 ∧ callBuiltin context procedure arguments store =
        .error (.fault (.builtinArity procedure (.atLeast 2) arguments.length)) store ∨
      2 ≤ arguments.length ∧
        (∃ argument ∈ arguments, argument.isNumber = false ∧
          callBuiltin context procedure arguments store =
            .error (diagnosing context.limit argument (.notNumber procedure.name argument))
              store) ∨
      2 ≤ arguments.length ∧
        ∃ (numbers : List Double) (value : Bool), arguments = numbers.map .num ∧
          callBuiltin context procedure arguments store = .ok (.bool value) store ∧
          (value = true ↔ numbers.Pairwise (Double.InOrder order)) := by
  obtain ⟨relation, hrule, hrelation⟩ := Builtin.rule_of_order? horder
  rcases Nat.lt_or_ge arguments.length 2 with hfew | hcount
  · have hnot : ¬ procedure.rule.arity.Admits arguments.length := by
      rw [hrule]
      exact Nat.not_le.2 hfew
    rw [callBuiltin_of_not_admits hnot, hrule]
    exact .inl ⟨hfew, rfl⟩
  · rw [callBuiltin_of_comparison hrule hcount, compareNumbers]
    obtain ⟨numbers, rfl⟩ | ⟨numbers, datum, rest, rfl, hdatum⟩ :=
      Datum.numbers_or_first harguments
    · refine .inr (.inr ⟨hcount, numbers, neighboursRelated relation numbers, rfl, ?_,
        hrelation numbers⟩)
      exact bind_of_ok (toNumbers_map_num context.limit procedure numbers store)
    · refine .inr (.inl ⟨hcount, datum, by simp, hdatum, ?_⟩)
      exact bind_of_error (toNumbers_eq_error context.limit procedure numbers hdatum rest store)

/-- A comparison of values faults for their count if there are fewer than two. Otherwise it faults
for a type exactly if some value is no number, wherever that stands, but for a value that is too
deep to be shown. On numbers the answer is whether each of them is in order with each one after
it. -/
theorem callBuiltin_comparison {order : Int → Int → Prop}
    (horder : procedure.order? = some order)
    (harguments : ∀ argument ∈ arguments, argument.IsValue store) (context : Context) :
    (FaultsWith .arity (callBuiltin context procedure arguments) store ↔ arguments.length < 2) ∧
      (2 ≤ arguments.length →
        ((∃ argument ∈ arguments, argument.isNumber = false) ↔
          FaultsWith .type (callBuiltin context procedure arguments) store ∨
            callBuiltin context procedure arguments store = .error .tooDeep store ∧
              ∃ argument ∈ arguments, argument.isNumber = false ∧
                argument.isTooDeepToDiagnose context.limit = true) ∧
        ((∀ argument ∈ arguments, argument.isNumber = true) →
          ∃ (numbers : List Double) (value : Bool), arguments = numbers.map .num ∧
            callBuiltin context procedure arguments store = .ok (.bool value) store ∧
            (value = true ↔ numbers.Pairwise (Double.InOrder order)))) := by
  rw [FaultsWith, FaultsWith]
  obtain ⟨hfew, hcall⟩ | ⟨hcount, argument, hmem, hargument, hcall⟩ |
      ⟨hcount, numbers, value, rfl, hcall, hvalue⟩ :=
    callBuiltin_comparison_cases horder harguments context
  · rw [hcall]
    exact ⟨iff_of_true ⟨_, _, rfl, rfl⟩ hfew, fun hcount => absurd hfew (Nat.not_lt.2 hcount)⟩
  · have hexists : ∃ argument ∈ arguments, argument.isNumber = false := ⟨argument, hmem, hargument⟩
    have hnot : ¬ ∀ argument ∈ arguments, argument.isNumber = true := fun hall =>
      Bool.false_ne_true (hargument.symm.trans (hall argument hmem))
    rw [hcall]
    obtain hfault | ⟨htooDeep, hdeep⟩ :=
      diagnosing_cases context.limit argument (.notNumber procedure.name argument)
    · rw [hfault]
      refine ⟨iff_of_false ?_ (Nat.not_lt.2 hcount), fun _ =>
        ⟨iff_of_true hexists (.inl ⟨_, store, rfl, rfl⟩), fun hall => absurd hall hnot⟩⟩
      rintro ⟨_, _, ⟨⟩, ⟨⟩⟩
    · rw [htooDeep]
      refine ⟨iff_of_false ?_ (Nat.not_lt.2 hcount), fun _ =>
        ⟨iff_of_true hexists (.inr ⟨rfl, argument, hmem, hargument, hdeep⟩),
          fun hall => absurd hall hnot⟩⟩
      rintro ⟨_, _, ⟨⟩, -⟩
  · rw [hcall]
    have hnumbers : ¬ ∃ argument ∈ numbers.map Datum.num, argument.isNumber = false := by
      rintro ⟨argument, hmem, hargument⟩
      obtain ⟨number, -, rfl⟩ := List.mem_map.1 hmem
      cases hargument
    refine ⟨iff_of_false ?_ (Nat.not_lt.2 hcount), fun _ => ⟨iff_of_false hnumbers ?_, fun _ =>
      ⟨numbers, value, rfl, rfl, hvalue⟩⟩⟩
    · rintro ⟨_, _, ⟨⟩, -⟩
    · rintro (⟨_, _, ⟨⟩, -⟩ | ⟨⟨⟩, -⟩)

/-- The zeros and an infinity are in order. Two numbers out of order do not keep a string behind
them from being refused, and what is no number is not even equal to itself. -/
theorem callBuiltin_comparison_of_zeros :
    let context : Context := {
      host := { settings := .ofVariables ⟨none, none, none⟩, files := .catalogue [] }
      limit := 1
      evaluate := fun _ _ => pure .unspecified }
    callBuiltin context .atMost [.num (.zero false), .num (.zero true), .num (.infinite false)]
        .empty = .ok (.bool true) .empty ∧
      FaultsWith .type (callBuiltin context .less [.num (.infinite false), .num (.zero false),
        .str "a"]) .empty ∧
      callBuiltin context .equals [.num .nan, .num .nan] .empty = .ok (.bool false) .empty := by
  intro context
  have hnumbers : ∀ numbers : List Double, ∀ argument ∈ numbers.map Datum.num,
      argument.IsValue .empty := fun numbers argument hmem => by
    obtain ⟨number, -, rfl⟩ := List.mem_map.1 hmem
    exact .num number
  have hinjective : Function.Injective (List.map Datum.num) :=
    List.map_injective_iff.2 fun _ _ => Datum.num.inj
  refine ⟨?_, ?_, ?_⟩
  · have horder : Builtin.atMost.order? = some (· ≤ ·) := rfl
    obtain ⟨numbers, value, heq, hcall, hvalue⟩ := ((callBuiltin_comparison horder
      (hnumbers [.zero false, .zero true, .infinite false]) context).2 (by decide)).2
        (by simp [Datum.isNumber])
    rw [← hinjective heq] at hvalue
    have hzero : Double.InOrder (· ≤ ·) (.zero false) (.zero true) :=
      ⟨0, rfl, 0, rfl, Int.le_refl 0⟩
    have hinfinite : ∀ negative, Double.InOrder (· ≤ ·) (.zero negative) (.infinite false) :=
      fun negative => ⟨0, by cases negative <;> rfl, _, rfl, Int.natCast_nonneg Double.limit⟩
    have hpairwise : [Double.zero false, .zero true, .infinite false].Pairwise
        (Double.InOrder (· ≤ ·)) := by
      simp only [List.pairwise_cons, List.forall_mem_cons]
      exact ⟨⟨hzero, hinfinite false, fun _ hmem => absurd hmem List.not_mem_nil⟩,
        ⟨hinfinite true, fun _ hmem => absurd hmem List.not_mem_nil⟩,
        fun _ hmem => absurd hmem List.not_mem_nil, .nil⟩
    have hvalueTrue : value = true := hvalue.2 hpairwise
    rw [hvalueTrue] at hcall
    exact hcall
  · have hstring : ∀ argument ∈ [Datum.num (.infinite false), .num (.zero false), .str "a"],
        argument.IsValue .empty := by
      simp only [List.forall_mem_cons]
      exact ⟨.num _, .num _, .str "a", fun _ hmem => absurd hmem List.not_mem_nil⟩
    have horder : Builtin.less.order? = some (· < ·) := rfl
    obtain hfaults | ⟨-, argument, hmem, hargument, hdeep⟩ :=
      ((callBuiltin_comparison horder hstring context).2 (by decide)).1.1 ⟨.str "a", by simp, rfl⟩
    · exact hfaults
    · simp only [List.mem_cons, List.not_mem_nil, or_false] at hmem
      rcases hmem with rfl | rfl | rfl
      · cases hargument
      · cases hargument
      · cases hdeep
  · have horder : Builtin.equals.order? = some (· = ·) := rfl
    obtain ⟨numbers, value, heq, hcall, hvalue⟩ := ((callBuiltin_comparison horder
      (hnumbers [.nan, .nan]) context).2 (by decide)).2 (by simp [Datum.isNumber])
    rw [← hinjective heq] at hvalue
    have hvalueFalse : value = false := by
      refine Bool.eq_false_iff.2 fun hvalueTrue => ?_
      obtain ⟨_, ⟨⟩, -⟩ := List.rel_of_pairwise_cons (hvalue.1 hvalueTrue) List.mem_cons_self
    rw [hvalueFalse] at hcall
    exact hcall

end Machine

end SmallScheme
