import SmallScheme.Proofs.Evaluator.Endings
import SmallScheme.Proofs.Reader.Syntax
/-!
# What a conditional with clauses means

A conditional with clauses is rewritten, from its last clause to its first, into conditionals with
one test each. What comes of that can be said without the rewriting. All clauses are checked before
anything is evaluated, and of those with a defect the last one is reported. If there is none, the
tests are evaluated in turn up to the first that is true, and then the body of its clause.
-/

namespace SmallScheme

open Machine SmallScheme.Configuration

namespace Clauses

/-- What is wrong with the clause of a number, the others behind it being given, and what reports
that: it is no list that starts with a test, or has nothing but a test, or should be the last. -/
inductive HasDefect (limit number : Nat) (rest : List Datum) : Datum → Interrupt → Prop where
  | notList {clause : Datum} (hclause : ∀ label test body, clause ≠ .form label (test :: body))
    (hshown : clause.isTooDeepToDiagnose limit = false) :
    HasDefect limit number rest clause (.fault (.clauseNotList clause))
  | notShown {clause : Datum} (hclause : ∀ label test body, clause ≠ .form label (test :: body))
    (hdeep : clause.isTooDeepToDiagnose limit = true) :
    HasDefect limit number rest clause .tooDeep
  | withoutBody {label : Option Label} {test : Datum} :
    HasDefect limit number rest (.form label [test]) (.fault (.clauseWithoutBody number))
  | elseNotLast {label : Option Label} {expression : Datum} {body : List Datum}
    (hrest : rest ≠ []) :
    HasDefect limit number rest (.form label (.symbol elseName :: expression :: body))
      (.fault .elseNotLast)

/-- None of the clauses has a defect. -/
def HaveNoDefect (limit : Nat) (clauses : List Datum) : Prop :=
  ∀ before clause after, clauses = before ++ clause :: after →
    ∀ number interrupt, ¬ HasDefect limit number after clause interrupt

/-- The tests of the clauses are evaluated in turn, then the body of the clause whose test is the
first with a true value, or that has no test. -/
inductive Selects (host : Host) (limit : Nat) (frame : FrameId) :
    List Datum → Store → Outcome Datum → Prop where
  | none {store : Store} : Selects host limit frame [] store (.ok .unspecified store)
  | otherwise {label : Option Label} {body : List Datum} {store : Store} {outcome : Outcome Datum}
    (hbody : EvaluatesBody host limit frame body store outcome) :
    Selects host limit frame [.form label (.symbol elseName :: body)] store outcome
  | chosen {label : Option Label} {test value : Datum} {body rest : List Datum}
    {store between : Store} {outcome : Outcome Datum} (helse : test ≠ .symbol elseName)
    (htest : EndsWith host limit ⟨test, frame, store⟩ (.ok value between))
    (htrue : value.isTrue = true)
    (hbody : EvaluatesBody host limit frame body between outcome) :
    Selects host limit frame (.form label (test :: body) :: rest) store outcome
  | skipped {label : Option Label} {test value : Datum} {body rest : List Datum}
    {store between : Store} {outcome : Outcome Datum} (helse : test ≠ .symbol elseName)
    (htest : EndsWith host limit ⟨test, frame, store⟩ (.ok value between))
    (hfalse : value.isTrue = false) (hrest : Selects host limit frame rest between outcome) :
    Selects host limit frame (.form label (test :: body) :: rest) store outcome
  | interrupted {label : Option Label} {test : Datum} {body rest : List Datum}
    {store after : Store} {interrupt : Interrupt} (helse : test ≠ .symbol elseName)
    (htest : EndsWith host limit ⟨test, frame, store⟩ (.error interrupt after)) :
    Selects host limit frame (.form label (test :: body) :: rest) store (.error interrupt after)

/-! ### Defects -/

variable {limit number : Nat} {clause alternative : Datum} {rest clauses : List Datum}
  {interrupt : Interrupt}

theorem isElse_eq_true_iff {test : Datum} :
    Reference.isElse test = true ↔ test = .symbol elseName := by
  cases test with
  | symbol name =>
    rw [Reference.isElse, decide_eq_true_iff]
    exact ⟨congrArg Datum.symbol, fun heq => Datum.symbol.inj heq⟩
  | _ => exact ⟨fun htrue => absurd htrue Bool.false_ne_true, fun heq => Datum.noConfusion heq⟩

theorem expandClause_of_test {label : Option Label} {test expression : Datum} {body : List Datum}
    (helse : test ≠ .symbol elseName) (isLast : Bool) :
    expandClause limit number isLast alternative (.form label (test :: expression :: body)) =
      .ok (.form none [.keyword .branch, test, .ofBody (expression :: body), alternative]) := by
  cases test with
  | symbol name =>
    have hname : name ≠ elseName := fun heq => helse (congrArg Datum.symbol heq)
    exact if_pos hname
  | _ => rfl

theorem expandClause_of_not_list (hclause : ∀ label test body, clause ≠ .form label (test :: body))
    (isLast : Bool) :
    expandClause limit number isLast alternative clause =
      if clause.isTooDeepToDiagnose limit then .error .tooDeep
      else .error (.fault (.clauseNotList clause)) := by
  cases clause with
  | form label items =>
    cases items with
    | nil => rfl
    | cons test body => exact absurd rfl (hclause label test body)
  | _ => rfl

theorem expandClause_eq_error_iff_of_not_list
    (hclause : ∀ label test body, clause ≠ .form label (test :: body)) :
    expandClause limit number rest.isEmpty alternative clause = .error interrupt ↔
      HasDefect limit number rest clause interrupt := by
  rw [expandClause_of_not_list hclause]
  constructor
  · intro hexpand
    cases hdeep : clause.isTooDeepToDiagnose limit with
    | true =>
      rw [hdeep] at hexpand
      cases hexpand
      exact .notShown hclause hdeep
    | false =>
      rw [hdeep] at hexpand
      cases hexpand
      exact .notList hclause hdeep
  · rintro (⟨-, hshown⟩ | ⟨-, hdeep⟩ | _ | _)
    · rw [hshown]
      rfl
    · rw [hdeep]
      rfl
    · exact absurd rfl (hclause _ _ _)
    · exact absurd rfl (hclause _ _ _)

theorem expandClause_eq_error_iff_of_else {label : Option Label} {expression : Datum}
    {body : List Datum} :
    expandClause limit number rest.isEmpty alternative
        (.form label (.symbol elseName :: expression :: body)) = .error interrupt ↔
      HasDefect limit number rest (.form label (.symbol elseName :: expression :: body))
        interrupt := by
  change (if rest.isEmpty then Except.ok _ else Except.error (Interrupt.fault .elseNotLast)) = _ ↔ _
  constructor
  · intro hexpand
    cases rest with
    | nil => cases hexpand
    | cons next rest =>
      cases hexpand
      exact .elseNotLast (List.cons_ne_nil next rest)
  · rintro (⟨hclause, -⟩ | ⟨hclause, -⟩ | _ | hrest)
    · exact absurd rfl (hclause _ _ _)
    · exact absurd rfl (hclause _ _ _)
    · rw [List.isEmpty_eq_false_iff.2 hrest]
      rfl

theorem expandClause_eq_error_iff_of_list {label : Option Label} {test : Datum}
    {body : List Datum} :
    expandClause limit number rest.isEmpty alternative (.form label (test :: body)) =
        .error interrupt ↔
      HasDefect limit number rest (.form label (test :: body)) interrupt := by
  cases body with
  | nil =>
    constructor
    · rintro ⟨⟩
      exact .withoutBody
    · rintro (⟨hclause, -⟩ | ⟨hclause, -⟩ | _)
      · exact absurd rfl (hclause _ _ _)
      · exact absurd rfl (hclause _ _ _)
      · rfl
  | cons expression body =>
    by_cases helse : test = .symbol elseName
    · rw [helse]
      exact expandClause_eq_error_iff_of_else
    · rw [expandClause_of_test helse]
      constructor
      · rintro ⟨⟩
      · rintro (⟨hclause, -⟩ | ⟨hclause, -⟩ | _ | _)
        · exact absurd rfl (hclause _ _ _)
        · exact absurd rfl (hclause _ _ _)
        · exact absurd rfl helse

/-- A clause is refused for its defect and for nothing else. -/
theorem expandClause_eq_error_iff :
    expandClause limit number rest.isEmpty alternative clause = .error interrupt ↔
      HasDefect limit number rest clause interrupt := by
  by_cases hlist : ∃ label test body, clause = .form label (test :: body)
  · obtain ⟨label, test, body, rfl⟩ := hlist
    exact expandClause_eq_error_iff_of_list
  · exact expandClause_eq_error_iff_of_not_list fun label test body heq =>
      hlist ⟨label, test, body, heq⟩

theorem not_hasDefect_of_test_of_body {label : Option Label} {test expression : Datum}
    {body : List Datum} (hlast : test = .symbol elseName → rest = []) :
    ¬ HasDefect limit number rest (.form label (test :: expression :: body)) interrupt := by
  rintro (⟨hclause, -⟩ | ⟨hclause, -⟩ | _ | hrest)
  · exact hclause _ _ _ rfl
  · exact hclause _ _ _ rfl
  · exact hrest (hlast rfl)

theorem haveNoDefect_nil : HaveNoDefect limit [] :=
  fun before clause after heq =>
    absurd heq.symm (List.append_ne_nil_of_right_ne_nil before (List.cons_ne_nil clause after))

theorem haveNoDefect_cons_iff :
    HaveNoDefect limit (clause :: rest) ↔
      (∀ number interrupt, ¬ HasDefect limit number rest clause interrupt) ∧
        HaveNoDefect limit rest := by
  constructor
  · intro hnone
    refine ⟨hnone [] clause rest rfl, ?_⟩
    rintro before other after rfl
    exact hnone (clause :: before) other after rfl
  · rintro ⟨hfirst, hothers⟩ before other after heq
    cases before with
    | nil =>
      cases heq
      exact hfirst
    | cons first before =>
      cases heq
      exact hothers before other after rfl

theorem exists_expandClauses_of_haveNoDefect (hnone : HaveNoDefect limit clauses) (number : Nat) :
    ∃ expansion, expandClauses limit number clauses = .ok expansion := by
  induction clauses generalizing number with
  | nil => exact ⟨.unspecified, rfl⟩
  | cons clause rest ih =>
    obtain ⟨hclause, hrest⟩ := haveNoDefect_cons_iff.1 hnone
    obtain ⟨alternative, halternative⟩ := ih hrest (number + 1)
    cases hexpand : expandClause limit number rest.isEmpty alternative clause with
    | ok expansion =>
      refine ⟨expansion, ?_⟩
      rw [expandClauses, halternative]
      exact hexpand
    | error interrupt =>
      exact absurd (expandClause_eq_error_iff.1 hexpand) (hclause number interrupt)

/-- Of the clauses with a defect it is the last that is reported. -/
theorem expandClauses_of_hasDefect {before after : List Datum}
    (hdefect : HasDefect limit (number + before.length) after clause interrupt)
    (hafter : HaveNoDefect limit after) :
    expandClauses limit number (before ++ clause :: after) = .error interrupt := by
  induction before generalizing number with
  | nil =>
    obtain ⟨alternative, halternative⟩ := exists_expandClauses_of_haveNoDefect hafter (number + 1)
    rw [List.nil_append, expandClauses, halternative]
    exact expandClause_eq_error_iff.2 hdefect
  | cons first before ih =>
    have hnumber : number + (first :: before).length = number + 1 + before.length := by
      rw [List.length_cons]
      omega
    rw [hnumber] at hdefect
    rw [List.cons_append, expandClauses, ih hdefect]
    rfl

theorem HasDefect.exists_fault (hdefect : HasDefect limit number rest clause interrupt)
    (hwritten : clause.IsSyntax) (hlimit : 0 < limit) :
    ∃ fault : Fault, interrupt = .fault fault ∧ fault.kind = .illFormed := by
  cases hdefect with
  | notList => exact ⟨_, rfl, rfl⟩
  | withoutBody => exact ⟨_, rfl, rfl⟩
  | elseNotLast => exact ⟨_, rfl, rfl⟩
  | notShown hclause hdeep =>
    -- what has been read and is no list with items is nested in nothing
    have hshown : clause.isTooDeepToDiagnose limit = false := by
      obtain ⟨more, rfl⟩ := Nat.exists_eq_add_of_le' hlimit
      cases hwritten with
      | @form items _ =>
        cases items with
        | nil => rfl
        | cons test body => exact absurd rfl (hclause none test body)
      | _ => rfl
    exact absurd hdeep (hshown ▸ Bool.false_ne_true)

/-! ### The clause that is chosen -/

variable {host : Host} {frame : FrameId} {store : Store} {expansion : Datum}
  {outcome : Outcome Datum}

/-- A conditional with one test ends as that test and what it leads to. -/
theorem endsWith_branch_iff {label : Option Label} {test consequent : Datum} :
    EndsWith host (limit + 1)
        ⟨.form label [.keyword .branch, test, consequent, alternative], frame, store⟩ outcome ↔
      (∃ value between, EndsWith host limit ⟨test, frame, store⟩ (.ok value between) ∧
        EndsWith host (limit + 1)
          ⟨if value.isTrue then consequent else alternative, frame, between⟩ outcome) ∨
      ∃ interrupt after, EndsWith host limit ⟨test, frame, store⟩ (.error interrupt after) ∧
        outcome = .error interrupt after := by
  refine endsWith_evaluate_iff.trans ?_
  have hbranch : ∀ steps, step (Interpreter.contextWithin host steps limit)
      (.form label [.keyword .branch, test, consequent, alternative]) frame >>=
        Step.finish (evaluate host steps (limit + 1)) =
      evaluate host steps limit test frame >>= fun value =>
        evaluate host steps (limit + 1) (if value.isTrue then consequent else alternative)
          frame := by
    intro steps
    rw [step_keyword]
    refine (Reference.evaluateBranch_eq (Interpreter.contextWithin host steps limit)
      (evaluate host steps (limit + 1)) frame [test, consequent, alternative]).symm.trans ?_
    refine congrArg (evaluate host steps limit test frame >>= ·) (funext fun value => ?_)
    cases value.isTrue <;> rfl
  simp only [hbranch]
  exact endsWith_bind_iff (steady_evaluate host limit test frame) fun value =>
    steady_evaluate host (limit + 1) _ frame

theorem endsWith_expansion_iff (hexpands : Reference.Expands clauses expansion) :
    EndsWith host (limit + 1) ⟨expansion, frame, store⟩ outcome ↔
      Selects host limit frame clauses store outcome := by
  induction hexpands generalizing store with
  | nil =>
    refine endsWith_evaluate_iff.trans (endsWith_pure_iff.trans ⟨?_, ?_⟩)
    · rintro rfl
      exact .none
    · rintro ⟨⟩
      rfl
  | last helse =>
    cases isElse_eq_true_iff.1 helse
    refine endsWith_ofBody_iff.trans ⟨.otherwise, ?_⟩
    rintro (_ | hbody | helse | helse | helse)
    · exact hbody
    · exact absurd rfl helse
    · exact absurd rfl helse
    · exact absurd rfl helse
  | @cons label test alternative body rest helse _ ih =>
    have htest : test ≠ .symbol elseName := fun heq => by
      rw [isElse_eq_true_iff.2 heq] at helse
      cases helse
    refine endsWith_branch_iff.trans ⟨?_, ?_⟩
    · rintro (⟨value, between, hvalue, hchosen⟩ | ⟨interrupt, after, herror, rfl⟩)
      · cases htrue : value.isTrue with
        | true =>
          rw [htrue] at hchosen
          exact .chosen htest hvalue htrue (endsWith_ofBody_iff.1 hchosen)
        | false =>
          rw [htrue] at hchosen
          exact .skipped htest hvalue htrue (ih.1 hchosen)
      · exact .interrupted htest herror
    · rintro (_ | _ | ⟨-, hvalue, htrue, hbody⟩ | ⟨-, hvalue, hfalse, hrest⟩ | ⟨-, herror⟩)
      · exact absurd rfl htest
      · refine .inl ⟨_, _, hvalue, ?_⟩
        rw [htrue]
        exact endsWith_ofBody_iff.2 hbody
      · refine .inl ⟨_, _, hvalue, ?_⟩
        rw [hfalse]
        exact ih.2 hrest
      · exact .inr ⟨_, _, herror, rfl⟩

theorem endsWith_cond_iff_of_expandConditional {label : Option Label}
    (hexpand : expandConditional limit clauses = .ok expansion) :
    EndsWith host (limit + 1) ⟨.form label (.keyword .cond :: clauses), frame, store⟩ outcome ↔
      EndsWith host (limit + 1) ⟨expansion, frame, store⟩ outcome := by
  refine endsWith_evaluate_iff.trans ?_
  have hcond : ∀ steps, step (Interpreter.contextWithin host steps limit)
      (.form label (.keyword .cond :: clauses)) frame >>=
        Step.finish (evaluate host steps (limit + 1)) =
      evaluate host steps (limit + 1) expansion frame := by
    intro steps
    have hcontext : expandConditional (Interpreter.contextWithin host steps limit).limit clauses =
        .ok expansion := hexpand
    rw [Reference.step_conditional _ _ frame (Datum.specialForm?_keyword .cond), hcontext]
  simp only [hcond]
  exact Iff.rfl

theorem endsWith_cond_iff_of_error {label : Option Label}
    (hexpand : expandConditional limit clauses = .error interrupt)
    (hfinished : interrupt ≠ .outOfSteps) :
    EndsWith host (limit + 1) ⟨.form label (.keyword .cond :: clauses), frame, store⟩ outcome ↔
      outcome = .error interrupt store := by
  refine endsWith_evaluate_iff.trans ?_
  have hcond : ∀ steps, step (Interpreter.contextWithin host steps limit)
      (.form label (.keyword .cond :: clauses)) frame >>=
        Step.finish (evaluate host steps (limit + 1)) = throw interrupt := by
    intro steps
    have hcontext : expandConditional (Interpreter.contextWithin host steps limit).limit clauses =
        .error interrupt := hexpand
    rw [Reference.step_conditional _ _ frame (Datum.specialForm?_keyword .cond), hcontext]
  simp only [hcond]
  exact endsWith_throw_iff hfinished

/-- Whatever the clauses, the frame and the store: if some clause has a defect, the conditional ends
with the report of the last one that has, the store being as it was, so nothing has been evaluated.
For clauses that have been read, and with a level of nesting left to show them, that report is a
fault of form. If no clause has a defect, the conditional ends exactly as the tests in turn, up to
the first true one, and the body that it leads to. -/
theorem endsWith_cond_iff (host : Host) (limit : Nat) (label : Option Label) (clauses : List Datum)
    (frame : FrameId) (store : Store) :
    (∀ before clause after interrupt, clauses = before ++ clause :: after →
      HasDefect limit (before.length + 1) after clause interrupt → HaveNoDefect limit after →
        (∀ outcome, EndsWith host (limit + 1)
            ⟨.form label (.keyword .cond :: clauses), frame, store⟩ outcome ↔
          outcome = .error interrupt store) ∧
        (clause.IsSyntax → 0 < limit →
          ∃ fault : Fault, interrupt = .fault fault ∧ fault.kind = .illFormed)) ∧
    (HaveNoDefect limit clauses → ∀ outcome,
      EndsWith host (limit + 1) ⟨.form label (.keyword .cond :: clauses), frame, store⟩ outcome ↔
        Selects host limit frame clauses store outcome) := by
  refine ⟨?_, fun hnone outcome => ?_⟩
  · rintro before clause after interrupt rfl hdefect hafter
    have hfinished : interrupt ≠ .outOfSteps := by
      rintro rfl
      cases hdefect
    refine ⟨fun outcome => endsWith_cond_iff_of_error ?_ hfinished, hdefect.exists_fault⟩
    rw [Nat.add_comm] at hdefect
    exact expandClauses_of_hasDefect hdefect hafter
  · obtain ⟨expansion, hexpand⟩ := exists_expandClauses_of_haveNoDefect hnone 1
    exact (endsWith_cond_iff_of_expandConditional hexpand).trans
      (endsWith_expansion_iff (Reference.expands_of_expandClauses hexpand))

/-- Of two clauses with defects the last is reported, though the test of the first clause is true.
If the clauses have no defect, that test leads to the two expressions of the first body. -/
theorem endsWith_cond_of_three_clauses :
    let host : Host := { settings := .ofVariables ⟨none, none, none⟩, files := .catalogue [] }
    let matching : Datum := .form none [.bool true, .str "one", .str "two"]
    let misplaced : Datum := .form none [.symbol elseName, .str "three"]
    let unfinished : Datum := .form none [.symbol "unbound"]
    let last : Datum := .form none [.symbol elseName, .str "four"]
    EndsWith host 2 ⟨.form none [.keyword .cond, matching, misplaced, unfinished, last], 0, .empty⟩
        (.error (.fault (.clauseWithoutBody 3)) .empty) ∧
      EndsWith host 2 ⟨.form none [.keyword .cond, matching, last], 0, .empty⟩
        (.ok (.str "two") .empty) := by
  intro host matching misplaced unfinished last
  have hlast : HaveNoDefect 1 [last] :=
    haveNoDefect_cons_iff.2
      ⟨fun _ _ => not_hasDefect_of_test_of_body fun _ => rfl, haveNoDefect_nil⟩
  have hmatching : HaveNoDefect 1 [matching, last] :=
    haveNoDefect_cons_iff.2 ⟨fun _ _ => not_hasDefect_of_test_of_body Datum.noConfusion, hlast⟩
  constructor
  · exact (((endsWith_cond_iff host 1 none [matching, misplaced, unfinished, last] 0 .empty).1
      [matching, misplaced] unfinished [last] _ rfl .withoutBody hlast).1 _).2 rfl
  · refine ((endsWith_cond_iff host 1 none [matching, last] 0 .empty).2 hmatching _).2 ?_
    have htest : EndsWith host 1 ⟨.bool true, 0, .empty⟩ (.ok (.bool true) .empty) :=
      ⟨trivial, 1, rfl⟩
    exact .chosen Datum.noConfusion htest rfl (.cons ⟨trivial, 1, rfl⟩ (.last ⟨trivial, 1, rfl⟩))

end Clauses

end SmallScheme
