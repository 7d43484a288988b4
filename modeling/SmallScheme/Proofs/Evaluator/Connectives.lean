import SmallScheme.Proofs.Evaluator.Calls
import SmallScheme.Proofs.Evaluator.Clauses
import SmallScheme.Proofs.Evaluator.Rejection
/-!
# Conjunction and disjunction as conditionals

A conjunction evaluates its operands in turn up to the first that is not true, a disjunction up to
the first that is. Each ends as conditionals do that stand one inside the other and have a truth
value in every place where no operand is left. So the values are truth values, and a disjunction is
the negation of the conjunction of the negated operands.
-/

namespace SmallScheme

open Machine SmallScheme.Configuration

namespace Datum

/-- The conditionals that a conjunction stands for. -/
def conjunction : List Datum → Datum
  | [] => .bool true
  | operand :: rest => .form none [.keyword .branch, operand, conjunction rest, .bool false]

/-- The conditionals that a disjunction stands for. -/
def disjunction : List Datum → Datum
  | [] => .bool false
  | operand :: rest => .form none [.keyword .branch, operand, .bool true, disjunction rest]

def negation (expression : Datum) : Datum := .form none [.symbol Builtin.not.name, expression]

end Datum

/-- The outcome with the truth value that the value has not. -/
def Outcome.negated : Outcome Datum → Outcome Datum
  | .ok value after => .ok (.bool !value.isTrue) after
  | .error interrupt after => .error interrupt after

namespace Connectives

/-- The operands are evaluated in turn up to the first that has the truth value that is sought. -/
inductive Seeks (host : Host) (limit : Nat) (frame : FrameId) (sought : Bool) :
    List Datum → Store → Outcome Datum → Prop where
  | exhausted {store : Store} :
    Seeks host limit frame sought [] store (.ok (.bool !sought) store)
  | found {operand value : Datum} {rest : List Datum} {store between : Store}
    (hfirst : EndsWith host limit ⟨operand, frame, store⟩ (.ok value between))
    (htruth : value.isTrue = sought) :
    Seeks host limit frame sought (operand :: rest) store (.ok (.bool sought) between)
  | passed {operand value : Datum} {rest : List Datum} {store between : Store}
    {outcome : Outcome Datum}
    (hfirst : EndsWith host limit ⟨operand, frame, store⟩ (.ok value between))
    (htruth : value.isTrue ≠ sought)
    (hrest : Seeks host limit frame sought rest between outcome) :
    Seeks host limit frame sought (operand :: rest) store outcome
  | interrupted {operand : Datum} {rest : List Datum} {store after : Store} {interrupt : Interrupt}
    (hfirst : EndsWith host limit ⟨operand, frame, store⟩ (.error interrupt after)) :
    Seeks host limit frame sought (operand :: rest) store (.error interrupt after)

/-- The name of the negation is bound to it wherever an operand of a disjunction is evaluated: in
the store at first, and in the store that operands without a true value leave to the next one. -/
def NegationStays (host : Host) (limit : Nat) (frame : FrameId) (store : Store)
    (operands : List Datum) : Prop :=
  ∀ earlier next later values between, operands = earlier ++ next :: later →
    GivesEach host limit frame earlier store values between →
      (∀ value ∈ values, value.isTrue = false) →
        between.lookup? Builtin.not.name frame = some (.builtin .not)

variable {host : Host} {limit : Nat} {frame : FrameId} {sought : Bool} {operand : Datum}
  {operands rest : List Datum} {store : Store} {outcome : Outcome Datum}

/-! ### The operand that is sought -/

theorem seeks_nil_iff (sought : Bool) :
    Seeks host limit frame sought [] store outcome ↔ outcome = .ok (.bool !sought) store := by
  constructor
  · rintro ⟨⟩
    rfl
  · rintro rfl
    exact .exhausted

theorem seeks_cons_iff :
    Seeks host limit frame sought (operand :: rest) store outcome ↔
      (∃ value between, EndsWith host limit ⟨operand, frame, store⟩ (.ok value between) ∧
        if value.isTrue = sought then outcome = .ok (.bool sought) between
        else Seeks host limit frame sought rest between outcome) ∨
      ∃ interrupt after, EndsWith host limit ⟨operand, frame, store⟩ (.error interrupt after) ∧
        outcome = .error interrupt after := by
  constructor
  · rintro (_ | ⟨hfirst, htruth⟩ | ⟨hfirst, htruth, hrest⟩ | hfirst)
    · exact .inl ⟨_, _, hfirst, by rw [if_pos htruth]⟩
    · exact .inl ⟨_, _, hfirst, by rwa [if_neg htruth]⟩
    · exact .inr ⟨_, _, hfirst, rfl⟩
  · rintro (⟨value, between, hfirst, hnext⟩ | ⟨interrupt, after, hfirst, rfl⟩)
    · by_cases htruth : value.isTrue = sought
      · rw [if_pos htruth] at hnext
        exact hnext ▸ .found hfirst htruth
      · rw [if_neg htruth] at hnext
        exact .passed hfirst htruth hnext
    · exact .interrupted hfirst

theorem Seeks.exists_bool {value : Datum} {after : Store}
    (hseeks : Seeks host limit frame sought operands store (.ok value after)) :
    ∃ truth, value = .bool truth := by
  generalize houtcome : (.ok value after : Outcome Datum) = outcome at hseeks
  induction hseeks with
  | exhausted => cases houtcome; exact ⟨_, rfl⟩
  | found _ _ => cases houtcome; exact ⟨_, rfl⟩
  | passed _ _ _ ih => exact ih houtcome
  | interrupted _ => cases houtcome

theorem Seeks.negated_negated (hseeks : Seeks host limit frame sought operands store outcome) :
    outcome.negated.negated = outcome := by
  cases outcome with
  | ok value after =>
    obtain ⟨truth, rfl⟩ := hseeks.exists_bool
    simp only [Outcome.negated, Datum.isTrue, Bool.not_not]
  | error interrupt after => rfl

/-! ### Connectives and conditionals -/

theorem endsWith_bool_iff {truth : Bool} :
    EndsWith host (limit + 1) ⟨.bool truth, frame, store⟩ outcome ↔
      outcome = .ok (.bool truth) store :=
  endsWith_evaluate_iff.trans endsWith_pure_iff

theorem steady_allTrue (host : Host) (limit : Nat) (frame : FrameId) (operands : List Datum) :
    Steady fun steps => allTrue (Interpreter.contextWithin host steps limit) frame operands := by
  induction operands with
  | nil => exact steady_const _
  | cons operand rest ih =>
    refine (steady_evaluate host limit operand frame).bind fun value => ?_
    cases value.isTrue with
    | true => exact ih
    | false => exact steady_const _

theorem steady_anyTrue (host : Host) (limit : Nat) (frame : FrameId) (operands : List Datum) :
    Steady fun steps => anyTrue (Interpreter.contextWithin host steps limit) frame operands := by
  induction operands with
  | nil => exact steady_const _
  | cons operand rest ih =>
    refine (steady_evaluate host limit operand frame).bind fun value => ?_
    cases value.isTrue with
    | true => exact steady_const _
    | false => exact ih

theorem endsWith_allTrue_iff :
    Machine.EndsWith (fun steps =>
        allTrue (Interpreter.contextWithin host steps limit) frame operands >>= fun truth =>
          pure (.bool truth)) store outcome ↔
      Seeks host limit frame false operands store outcome := by
  induction operands generalizing store with
  | nil => exact endsWith_pure_iff.trans (seeks_nil_iff false).symm
  | cons operand rest ih =>
    simp only [allTrue, bind_assoc]
    refine (endsWith_bind_iff (steady_evaluate host limit operand frame) fun value => ?_).trans
      (Iff.trans ?_ seeks_cons_iff.symm)
    · cases value.isTrue with
      | true => exact (steady_allTrue host limit frame rest).bind fun _ => steady_const _
      | false => exact steady_const _
    · refine or_congr_left (exists_congr fun value => exists_congr fun between =>
        and_congr_right fun _ => ?_)
      cases value.isTrue with
      | true => exact ih
      | false => exact endsWith_pure_iff

theorem endsWith_anyTrue_iff :
    Machine.EndsWith (fun steps =>
        anyTrue (Interpreter.contextWithin host steps limit) frame operands >>= fun truth =>
          pure (.bool truth)) store outcome ↔
      Seeks host limit frame true operands store outcome := by
  induction operands generalizing store with
  | nil => exact endsWith_pure_iff.trans (seeks_nil_iff true).symm
  | cons operand rest ih =>
    simp only [anyTrue, bind_assoc]
    refine (endsWith_bind_iff (steady_evaluate host limit operand frame) fun value => ?_).trans
      (Iff.trans ?_ seeks_cons_iff.symm)
    · cases value.isTrue with
      | true => exact steady_const _
      | false => exact (steady_anyTrue host limit frame rest).bind fun _ => steady_const _
    · refine or_congr_left (exists_congr fun value => exists_congr fun between =>
        and_congr_right fun _ => ?_)
      cases value.isTrue with
      | true => exact endsWith_pure_iff
      | false => exact ih

theorem endsWith_and_iff {label : Option Label} (hoperands : operands ≠ []) :
    EndsWith host (limit + 1) ⟨.form label (.keyword .and :: operands), frame, store⟩ outcome ↔
      Seeks host limit frame false operands store outcome := by
  refine (endsWith_special_iff (fun context => evaluateAnd context frame operands)
    fun _ => rfl).trans ?_
  simp only [evaluateAnd, List.isEmpty_eq_false_iff.2 hoperands]
  exact endsWith_allTrue_iff

theorem endsWith_or_iff {label : Option Label} (hoperands : operands ≠ []) :
    EndsWith host (limit + 1) ⟨.form label (.keyword .or :: operands), frame, store⟩ outcome ↔
      Seeks host limit frame true operands store outcome := by
  refine (endsWith_special_iff (fun context => evaluateOr context frame operands)
    fun _ => rfl).trans ?_
  simp only [evaluateOr, List.isEmpty_eq_false_iff.2 hoperands]
  exact endsWith_anyTrue_iff

theorem endsWith_conjunction_iff :
    EndsWith host (limit + 1) ⟨.conjunction operands, frame, store⟩ outcome ↔
      Seeks host limit frame false operands store outcome := by
  induction operands generalizing store with
  | nil => exact endsWith_bool_iff.trans (seeks_nil_iff false).symm
  | cons operand rest ih =>
    refine Clauses.endsWith_branch_iff.trans (Iff.trans ?_ seeks_cons_iff.symm)
    refine or_congr_left (exists_congr fun value => exists_congr fun between =>
      and_congr_right fun _ => ?_)
    cases value.isTrue with
    | true => exact ih
    | false => exact endsWith_bool_iff

theorem endsWith_disjunction_iff :
    EndsWith host (limit + 1) ⟨.disjunction operands, frame, store⟩ outcome ↔
      Seeks host limit frame true operands store outcome := by
  induction operands generalizing store with
  | nil => exact endsWith_bool_iff.trans (seeks_nil_iff true).symm
  | cons operand rest ih =>
    refine Clauses.endsWith_branch_iff.trans (Iff.trans ?_ seeks_cons_iff.symm)
    refine or_congr_left (exists_congr fun value => exists_congr fun between =>
      and_congr_right fun _ => ?_)
    cases value.isTrue with
    | true => exact endsWith_bool_iff
    | false => exact ih

/-! ### Negations -/

theorem endsWith_symbol_of_lookup {name : String} {value : Datum}
    (hbound : store.lookup? name frame = some value) :
    EndsWith host (limit + 1) ⟨.symbol name, frame, store⟩ (.ok value store) := by
  refine ⟨trivial, 1, ?_⟩
  dsimp only
  rw [Interpreter.evaluate_symbol_eq, lookup_eq, hbound]

theorem endsWith_zero_iff {expression : Datum} :
    EndsWith host 0 ⟨expression, frame, store⟩ outcome ↔ outcome = .error .tooDeep store :=
  endsWith_throw_iff Interrupt.noConfusion

theorem endsWith_negation_iff
    (hbound : store.lookup? Builtin.not.name frame = some (.builtin .not)) :
    EndsWith host (limit + 1) ⟨.negation operand, frame, store⟩ outcome ↔
      ∃ inner, EndsWith host limit ⟨operand, frame, store⟩ inner ∧ outcome = inner.negated := by
  cases limit with
  | zero =>
    -- neither the operator nor the operand has a level left
    simp only [endsWith_zero_iff, exists_eq_left]
    refine (endsWith_call_iff rfl).trans ⟨?_, ?_⟩
    · rintro (⟨_, _, hinterrupts, rfl⟩ | ⟨_, _, _, hgives, -⟩)
      · cases hinterrupts with
        | first hfirst => exact endsWith_zero_iff.1 hfirst
        | later hfirst _ => cases endsWith_zero_iff.1 hfirst
      · cases hgives with
        | cons hfirst _ => cases endsWith_zero_iff.1 hfirst
    · rintro rfl
      exact .inl ⟨_, _, .first (endsWith_zero_iff.2 rfl), rfl⟩
  | succ limit =>
    have hoperator : EndsWith host (limit + 1) ⟨.symbol Builtin.not.name, frame, store⟩
        (.ok (.builtin .not) store) := endsWith_symbol_of_lookup hbound
    have hunique : ∀ {other}, EndsWith host (limit + 1) ⟨.symbol Builtin.not.name, frame, store⟩
        other → other = .ok (.builtin .not) store := fun hother =>
      hother.unique (steady_evaluate host (limit + 1) _ frame) hoperator
    refine (endsWith_call_iff rfl).trans ⟨?_, ?_⟩
    · rintro (⟨_, _, hfirst | ⟨hfirst, hinner | ⟨-, hnone⟩⟩, rfl⟩ |
        ⟨_, _, _, _ | ⟨hfirst, _ | ⟨hinner, _ | _⟩⟩, hcall⟩)
      · cases hunique hfirst
      · cases hunique hfirst
        exact ⟨_, hinner, rfl⟩
      · cases hnone
      · cases hunique hfirst
        exact ⟨_, hinner, endsWith_pure_iff.1 hcall⟩
    · rintro ⟨inner, hinner, rfl⟩
      cases inner with
      | ok value after =>
        exact .inr ⟨_, _, _, .cons hoperator (.cons hinner .nil), endsWith_pure_iff.2 rfl⟩
      | error interrupt after => exact .inl ⟨_, _, .later hoperator (.first hinner), rfl⟩

theorem negationStays_nil : NegationStays host limit frame store [] :=
  fun earlier next later _ _ heq =>
    absurd heq.symm (List.append_ne_nil_of_right_ne_nil earlier (List.cons_ne_nil next later))

theorem negationStays_cons_iff :
    NegationStays host limit frame store (operand :: rest) ↔
      store.lookup? Builtin.not.name frame = some (.builtin .not) ∧
        ∀ value between, EndsWith host limit ⟨operand, frame, store⟩ (.ok value between) →
          value.isTrue = false → NegationStays host limit frame between rest := by
  constructor
  · intro hstays
    refine ⟨hstays [] operand rest [] store rfl .nil (List.forall_mem_nil _), ?_⟩
    rintro value between hfirst hfalse earlier next later values after rfl hgives hvalues
    exact hstays (operand :: earlier) next later (value :: values) after rfl (.cons hfirst hgives)
      (List.forall_mem_cons.2 ⟨hfalse, hvalues⟩)
  · rintro ⟨hbound, hrest⟩ earlier next later values after heq hgives hvalues
    cases hgives with
    | nil => exact hbound
    | cons hfirst hothers =>
      obtain ⟨rfl, htail⟩ := List.cons.inj heq
      obtain ⟨hfalse, hvalues⟩ := List.forall_mem_cons.1 hvalues
      exact hrest _ _ hfirst hfalse _ next later _ after htail hothers hvalues

/-- A negation is false exactly if its operand is true, so the first false one of the negations is
that of the first true operand. -/
theorem seeks_map_negation_iff (hstays : NegationStays host limit frame store operands) :
    Seeks host (limit + 1) frame false (operands.map .negation) store outcome ↔
      ∃ dual, Seeks host limit frame true operands store dual ∧ outcome = dual.negated := by
  induction operands generalizing store with
  | nil =>
    refine (seeks_nil_iff false).trans ⟨?_, ?_⟩
    · rintro rfl
      exact ⟨_, .exhausted, rfl⟩
    · rintro ⟨_, ⟨⟩, rfl⟩
      rfl
  | cons operand rest ih =>
    have hnegation : ∀ {outcome}, EndsWith host (limit + 1) ⟨.negation operand, frame, store⟩
        outcome ↔ _ := endsWith_negation_iff (negationStays_cons_iff.1 hstays).1
    have hpassed := (negationStays_cons_iff.1 hstays).2
    constructor
    · rintro (_ | ⟨hfirst, htruth⟩ | ⟨hfirst, htruth, hrest⟩ | hfirst)
      · obtain ⟨_ | _, hoperand, ⟨⟩⟩ := hnegation.1 hfirst
        exact ⟨_, .found hoperand (Bool.not_eq_eq_eq_not.1 htruth), rfl⟩
      · obtain ⟨_ | _, hoperand, ⟨⟩⟩ := hnegation.1 hfirst
        have hfalse := Bool.not_eq_eq_eq_not.1 (Bool.eq_true_of_not_eq_false htruth)
        obtain ⟨dual, hdual, heq⟩ := (ih (hpassed _ _ hoperand hfalse)).1 hrest
        exact ⟨dual, .passed hoperand (Bool.eq_false_iff.1 hfalse) hdual, heq⟩
      · obtain ⟨_ | _, hoperand, ⟨⟩⟩ := hnegation.1 hfirst
        exact ⟨_, .interrupted hoperand, rfl⟩
    · rintro ⟨_, _ | ⟨hfirst, htruth⟩ | ⟨hfirst, htruth, hrest⟩ | hfirst, rfl⟩
      · refine .found (hnegation.2 ⟨_, hfirst, rfl⟩) ?_
        rw [htruth]
        rfl
      · have hfalse := Bool.eq_false_of_not_eq_true htruth
        have hothers := (ih (hpassed _ _ hfirst hfalse)).2 ⟨_, hrest, rfl⟩
        refine .passed (hnegation.2 ⟨_, hfirst, rfl⟩) ?_ hothers
        rw [hfalse]
        exact Bool.noConfusion
      · exact .interrupted (hnegation.2 ⟨_, hfirst, rfl⟩)

/-- Whatever the operands, if there are any, a conjunction ends as the conditionals that it stands
for, and so does a disjunction: with the same value or error and in the same store. The values are
truth values. And if the name of the negation stays bound to it while operands are evaluated, a
disjunction ends as the negation of the conjunction of the negated operands, for which two more
levels of nesting are needed. -/
theorem endsWith_connective_iff (host : Host) (limit : Nat) (label inner : Option Label)
    (first : Datum) (rest : List Datum) (frame : FrameId) (store : Store) :
    let operands := first :: rest
    let conjunction : Configuration := ⟨.form label (.keyword .and :: operands), frame, store⟩
    let disjunction : Configuration := ⟨.form label (.keyword .or :: operands), frame, store⟩
    let negations : Datum := .form inner (.keyword .and :: operands.map .negation)
    (∀ outcome, conjunction.EndsWith host (limit + 1) outcome ↔
      EndsWith host (limit + 1) ⟨.conjunction operands, frame, store⟩ outcome) ∧
    (∀ outcome, disjunction.EndsWith host (limit + 1) outcome ↔
      EndsWith host (limit + 1) ⟨.disjunction operands, frame, store⟩ outcome) ∧
    (∀ value after, conjunction.EndsWith host (limit + 1) (.ok value after) ∨
      disjunction.EndsWith host (limit + 1) (.ok value after) → ∃ truth, value = .bool truth) ∧
    (NegationStays host limit frame store operands → ∀ outcome,
      disjunction.EndsWith host (limit + 1) outcome ↔
        EndsWith host (limit + 3) ⟨.negation negations, frame, store⟩ outcome) := by
  intro operands conjunction disjunction negations
  have hoperands : operands ≠ [] := List.cons_ne_nil first rest
  refine ⟨fun outcome => ?_, fun outcome => ?_, ?_, fun hstays outcome => ?_⟩
  · exact (endsWith_and_iff hoperands).trans endsWith_conjunction_iff.symm
  · exact (endsWith_or_iff hoperands).trans endsWith_disjunction_iff.symm
  · rintro value after (hand | hor)
    · exact ((endsWith_and_iff hoperands).1 hand).exists_bool
    · exact ((endsWith_or_iff hoperands).1 hor).exists_bool
  · have hnegations : ∀ {outcome}, EndsWith host (limit + 2) ⟨negations, frame, store⟩ outcome ↔
        Seeks host (limit + 1) frame false (operands.map .negation) store outcome :=
      endsWith_and_iff (List.cons_ne_nil first.negation (rest.map .negation))
    refine (endsWith_or_iff hoperands).trans
      (Iff.trans ?_ (endsWith_negation_iff (negationStays_cons_iff.1 hstays).1).symm)
    simp only [hnegations, seeks_map_negation_iff hstays]
    -- the two negations, of the operands and of their conjunction, cancel out
    constructor
    · intro hseeks
      exact ⟨_, ⟨outcome, hseeks, rfl⟩, hseeks.negated_negated.symm⟩
    · rintro ⟨_, ⟨dual, hseeks, rfl⟩, rfl⟩
      rwa [hseeks.negated_negated]

/-- A disjunction whose second operand makes a definition ends as the negation of a conjunction. -/
theorem connective_of_definition :
    let host : Host := { settings := .ofVariables ⟨none, none, none⟩, files := .catalogue [] }
    let store : Store := Interpreter.initialStore
    let definition : Datum := .form none [.keyword .define, .symbol "y", .str "b"]
    let operands : List Datum := [.bool false, definition]
    let negations : Datum := .form none (.keyword .and :: operands.map .negation)
    NegationStays host 2 0 store operands ∧
      EndsWith host 5 ⟨.negation negations, 0, store⟩
        (.ok (.bool true) (store.define 0 "y" (.str "b"))) := by
  intro host store definition operands negations
  have hbound : store.lookup? Builtin.not.name 0 = some (.builtin .not) := by
    rw [Store.lookup?, Store.find?]
    rfl
  have hstays : NegationStays host 2 0 store operands := by
    refine negationStays_cons_iff.2 ⟨hbound, fun value between hfirst _ => ?_⟩
    cases endsWith_bool_iff.1 hfirst
    exact negationStays_cons_iff.2 ⟨hbound, fun _ _ _ _ => negationStays_nil⟩
  have hdefines : EndsWith host 3 ⟨.form none (.keyword .or :: operands), 0, store⟩
      (.ok (.bool true) (store.define 0 "y" (.str "b"))) := ⟨trivial, 1, rfl⟩
  have hnegation := (endsWith_connective_iff host 2 none none (.bool false) [definition] 0
    store).2.2.2 hstays
  exact ⟨hstays, (hnegation _).1 hdefines⟩

end Connectives

end SmallScheme
