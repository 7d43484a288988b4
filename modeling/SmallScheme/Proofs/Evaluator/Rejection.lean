import SmallScheme.Proofs.Evaluator.Programs
import SmallScheme.Proofs.Soundness.Legibility
/-!
# What evaluating a value rejects

To evaluate the text of a value is refused for one reason, an improper list somewhere in the value,
and then nothing is evaluated or changed. The text itself is always in order, and faults of what it
says are only reported. But the search for improper lists nests as the value does: in a value that
is too deep for the limit it may be given up.
-/

namespace SmallScheme

open Machine

namespace Datum

/-- The part is reached from the datum through heads and tails of pairs. -/
inductive Holds : Datum → Datum → Prop where
  | self (datum : Datum) : Holds datum datum
  | head {label : Label} {head tail part : Datum} (hpart : Holds head part) :
    Holds (.pair label head tail) part
  | tail {label : Label} {head tail part : Datum} (hpart : Holds tail part) :
    Holds (.pair label head tail) part

/-- Some pair in the datum belongs to a chain that does not end in the empty list. -/
def HoldsImproper (datum : Datum) : Prop :=
  ∃ label head tail, datum.Holds (.pair label head tail) ∧ tail.ending ≠ .empty

theorem isList_iff_ending {datum : Datum} : datum.isList ↔ datum.ending = .empty := by
  rw [isList_eq_isEmpty_ending]
  cases datum.ending <;> simp [isEmpty]

theorem WellFormed.of_holds {datum part : Datum} (hwell : datum.WellFormed)
    (hpart : datum.Holds part) : part.WellFormed := by
  induction hpart with
  | self => exact hwell
  | head _ ih =>
    rcases hwell with hatom | ⟨hhead, -, -⟩
    · cases hatom
    · exact ih hhead
  | tail _ ih =>
    rcases hwell with hatom | ⟨-, htail, -⟩
    · cases hatom
    · exact ih htail

theorem wellFormed_of_not_holdsImproper :
    ∀ datum : Datum, ¬ datum.HoldsImproper → datum.WellFormed
  | .pair label head tail, hproper => by
    have hparts : ∀ {part : Datum}, (∀ {inner : Datum}, part.Holds inner →
        (pair label head tail).Holds inner) → ¬ part.HoldsImproper := by
      rintro part hreach ⟨_, _, _, hholds, hending⟩
      exact hproper ⟨_, _, _, hreach hholds, hending⟩
    refine .pair (wellFormed_of_not_holdsImproper head (hparts .head))
      (wellFormed_of_not_holdsImproper tail (hparts .tail)) ?_
    by_contra hlist
    exact hproper ⟨label, head, tail, .self _, fun hending => hlist (isList_iff_ending.2 hending)⟩
  | .absent, _ | .bool _, _ | .num _, _ | .int _, _ | .str _, _ | .symbol _, _ | .quoted _, _
  | .empty, _ | .unspecified, _ | .form .., _ | .builtin _, _ | .closure .., _ | .promise _, _
  | .foreign .., _ => .atom rfl

/-- A datum holds an improper list exactly if its lists are not all proper. -/
theorem holdsImproper_iff {datum : Datum} : datum.HoldsImproper ↔ ¬ datum.WellFormed := by
  constructor
  · rintro ⟨label, head, tail, hholds, hending⟩ hwell
    rcases hwell.of_holds hholds with hatom | ⟨-, -, hlist⟩
    · cases hatom
    · exact hending (isList_iff_ending.1 hlist)
  · intro hwell
    by_contra hproper
    exact hwell (wellFormed_of_not_holdsImproper datum hproper)

end Datum

namespace Machine

variable {context : Context} {frame : FrameId} {store after : Store} {value : Datum}

theorem printObstacle?_of_isValue (hvalue : value.IsValue store) (limit : Nat) :
    value.printObstacle? limit = none ∨ value.printObstacle? limit = some .tooDeep := by
  cases hobstacle : value.printObstacle? limit with
  | none => exact .inl rfl
  | some obstacle =>
    cases obstacle with
    | tooDeep => exact .inr rfl
    | integerTooLarge => exact absurd hobstacle (hvalue.obstacle_ne limit).1

theorem failPrinting_of_shown {α : Type} {limit : Nat} {fault : Fault}
    (hshown : value.printObstacle? limit = none) :
    (failPrinting limit value fault : Machine α) = throw (.fault fault) := by
  rw [failPrinting_eq, printing, hshown]

theorem failPrinting_of_deep {α : Type} {limit : Nat} {fault : Fault}
    (hdeep : value.printObstacle? limit = some .tooDeep) :
    (failPrinting limit value fault : Machine α) = throw .tooDeep := by
  rw [failPrinting_eq, printing, hdeep]

/-- A value with an improper list is refused, unless the search for it or the text is too deep, and
nothing has changed. -/
theorem evaluateWritten_of_holdsImproper (hvalue : value.IsValue store)
    (himproper : value.HoldsImproper) (context : Context) (frame : FrameId) :
    evaluateWritten context frame value store = .error (.fault (.malformedList value)) store ∨
      evaluateWritten context frame value store = .error .tooDeep store := by
  rw [evaluateWritten]
  cases hanswer : value.wellFormed? context.limit with
  | none => exact .inr rfl
  | some answer =>
    have hfalse : answer = false := by
      rw [← Bool.not_eq_true, ← Datum.wellFormed_iff_of_wellFormed? hanswer]
      exact Datum.holdsImproper_iff.1 himproper
    subst hfalse
    dsimp only
    rcases printObstacle?_of_isValue hvalue context.limit with hprint | hprint
    · rw [failPrinting_of_shown hprint]
      exact .inl rfl
    · rw [failPrinting_of_deep hprint]
      exact .inr rfl

/-- A value with an improper list that nests less deep than the limit is refused. -/
theorem evaluateWritten_of_nesting (hvalue : value.IsValue store)
    (himproper : value.HoldsImproper) (hnesting : value.nesting < context.limit) :
    evaluateWritten context frame value store = .error (.fault (.malformedList value)) store := by
  obtain ⟨answer, hanswer⟩ := Option.ne_none_iff_exists'.1 (Datum.wellFormed?_ne_none hnesting)
  have hfalse : answer = false := by
    rw [← Bool.not_eq_true, ← Datum.wellFormed_iff_of_wellFormed? hanswer]
    exact Datum.holdsImproper_iff.1 himproper
  rw [evaluateWritten, hanswer, hfalse]
  dsimp only
  rw [failPrinting_of_shown (hvalue.printObstacle?_eq_none.1 context.limit hnesting)]
  rfl

/-- The text of a value without an improper list is read, and what it says is evaluated, unless
there is too much nesting for one of the two. -/
theorem evaluateWritten_of_not_holdsImproper (hvalue : value.IsValue store)
    (hproper : ¬ value.HoldsImproper) (context : Context) (frame : FrameId) :
    evaluateWritten context frame value store = .error .tooDeep store ∨
      ∃ forms, evaluateWritten context frame value store =
        Outcome.reflected value.source (evaluateForms context frame forms store) := by
  cases hanswer : value.wellFormed? context.limit with
  | none =>
    rw [evaluateWritten, hanswer]
    exact .inl rfl
  | some answer =>
    rw [Datum.holdsImproper_iff, not_not, Datum.wellFormed_iff_of_wellFormed? hanswer] at hproper
    subst hproper
    rcases printObstacle?_of_isValue hvalue context.limit with hprint | hprint
    · obtain ⟨forms, -, hreading⟩ := hvalue.readSource_source
      rcases (hreading context.limit).2 with hread | hread
      · exact .inr ⟨forms, evaluateWritten_of_forms hanswer hprint hread⟩
      · rw [evaluateWritten, hanswer]
        dsimp only
        rw [checkPrintable, hprint, hread]
        exact .inl rfl
    · rw [evaluateWritten, hanswer]
      dsimp only
      rw [checkPrintable, hprint]
      exact .inl rfl

/-- Faults of what the text says are only reported. -/
theorem holdsImproper_of_evaluateWritten (hvalue : value.IsValue store) {fault : Fault}
    (hfault : evaluateWritten context frame value store = .error (.fault fault) after) :
    value.HoldsImproper := by
  by_contra hproper
  rcases evaluateWritten_of_not_holdsImproper hvalue hproper context frame with
    houtcome | ⟨forms, houtcome⟩
  · rw [houtcome] at hfault
    cases hfault
  · rw [houtcome] at hfault
    cases hrun : evaluateForms context frame forms store with
    | ok result between =>
      rw [hrun] at hfault
      cases hfault
    | error interrupt between =>
      rw [hrun] at hfault
      cases interrupt <;> cases hfault

end Machine

namespace Interpreter

/-- In a reachable store, and in every sound one that an evaluation inside another may start from,
let the operand of an evaluation have a value. The text of that value is read as some forms, one at
least, or it is too deep for the limit. The only fault that the evaluation can end with is that the
value holds an improper list, and then nothing has happened since the operand was evaluated. If the
value does hold one, the evaluation ends so, or it is given up and nothing has happened either. For
every depth some number of levels is enough that neither is too deep for a value that nests so. -/
theorem malformedList_of_evaluate_eval :
    (∀ {store : Store}, Reachable store → store.Sound) ∧
      ∃ levels : Nat → Nat, ∀ {store : Store}, store.Sound →
        ∀ (host : Host) (steps limit : Nat) (label : Option Label) {operand value : Datum}
          {frame : FrameId} {after : Store}, operand.IsExpression store →
          frame < store.frames.size →
          evaluate host (steps + 1) limit operand frame store = .ok value after →
            let outcome := evaluate host (steps + 1) (limit + 1)
              (.form label [.keyword .eval, operand]) frame store
            (∃ forms ≠ [], ∀ readLimit,
              (levels value.nesting ≤ readLimit → readSource readLimit value.source = .ok forms) ∧
                (readSource readLimit value.source = .ok forms ∨
                  readSource readLimit value.source = .error .tooDeep)) ∧
            (∀ fault final, outcome = .error (.fault fault) final →
              value.HoldsImproper ∧ fault = .malformedList value ∧ final = after) ∧
            (value.HoldsImproper →
              (levels value.nesting ≤ limit →
                outcome = .error (.fault (.malformedList value)) after) ∧
                (outcome = .error (.fault (.malformedList value)) after ∨
                  outcome = .error .tooDeep after)) := by
  refine ⟨sound_of_reachable, (· + 2), ?_⟩
  intro store hsound host steps limit label operand value frame after hoperand hframe hevaluate
    outcome
  have hvalue : value.IsValue after :=
    ((givesValue_evaluate host (steps + 1) limit hsound hframe hoperand).ok hevaluate).2.2
  have houtcome : outcome = evaluateWritten
      { host, limit, evaluate := evaluate host (steps + 1) limit } frame value after :=
    (congrFun (evaluate_of_done rfl) store).trans (bind_of_ok hevaluate)
  rw [houtcome]
  refine ⟨hvalue.readSource_source, fun fault final hfault => ?_, fun himproper => ⟨?_, ?_⟩⟩
  · have himproper := holdsImproper_of_evaluateWritten hvalue hfault
    rcases evaluateWritten_of_holdsImproper hvalue himproper _ frame with hrefused | hdeep
    · rw [hrefused] at hfault
      cases hfault
      exact ⟨himproper, rfl, rfl⟩
    · rw [hdeep] at hfault
      cases hfault
  · exact fun henough =>
      evaluateWritten_of_nesting hvalue himproper (Nat.lt_of_succ_lt (Nat.lt_of_succ_le henough))
  · exact evaluateWritten_of_holdsImproper hvalue himproper _ frame

/-- With enough levels, a pair of two strings is refused. -/
theorem evaluate_eval_of_pair :
    let host : Host := { settings := .ofVariables ⟨none, none, none⟩, files := .catalogue [] }
    let operand : Datum := .form none [.builtin .cons, .str "a", .str "b"]
    let pair : Datum := .pair initialStore.nextLabel (.str "a") (.str "b")
    ∃ enough, ∀ limit, enough ≤ limit →
      evaluate host 1 (limit + 3) (.form none [.keyword .eval, operand]) rootFrame initialStore =
        .error (.fault (.malformedList pair))
          { initialStore with nextLabel := initialStore.nextLabel + 1 } := by
  intro host operand pair
  have hoperand : operand.IsExpression initialStore := by
    refine .application fun item hmem => ?_
    simp only [List.mem_cons, List.not_mem_nil, or_false] at hmem
    rcases hmem with rfl | rfl | rfl
    · exact .builtin .cons
    · exact .str "a"
    · exact .str "b"
  have himproper : pair.HoldsImproper := ⟨_, _, _, .self _, by rintro ⟨⟩⟩
  have hvalue : ∀ limit, evaluate host 1 (limit + 2) operand rootFrame initialStore =
      .ok pair { initialStore with nextLabel := initialStore.nextLabel + 1 } := fun _ => rfl
  have hroot : rootFrame < initialStore.frames.size := Nat.one_pos
  obtain ⟨hreachable, levels, hevaluate⟩ := malformedList_of_evaluate_eval
  refine ⟨levels pair.nesting, fun limit henough => ?_⟩
  obtain ⟨-, -, hrefused⟩ :=
    hevaluate (hreachable .initial) host 0 (limit + 2) none hoperand hroot (hvalue limit)
  exact (hrefused himproper).1 (Nat.le_add_right_of_le henough)

/-! ### A value that is too deep -/

/-- An improper list inside of a number of lists with one element. -/
inductive Wrapped : Nat → Datum → Prop where
  | improper (label : Label) : Wrapped 0 (.pair label (.str "a") (.str "b"))
  | wrap {count : Nat} {value : Datum} (label : Label) (hvalue : Wrapped count value) :
    Wrapped (count + 1) (.pair label value .empty)

namespace Wrapped

variable {count limit : Nat} {value : Datum}

theorem holdsImproper (hvalue : Wrapped count value) : value.HoldsImproper := by
  induction hvalue with
  | improper label => exact ⟨_, _, _, .self _, by rintro ⟨⟩⟩
  | wrap label _ ih =>
    obtain ⟨_, _, _, hholds, hending⟩ := ih
    exact ⟨_, _, _, .head hholds, hending⟩

/-- The search for the improper list needs one level for every list around it. -/
theorem wellFormed?_eq_none (hvalue : Wrapped count value) (hlimit : limit ≤ count) :
    value.wellFormed? limit = none := by
  induction hvalue generalizing limit with
  | improper label => rw [Nat.le_zero.1 hlimit, Datum.wellFormed?]
  | @wrap count value label _ ih =>
    cases limit with
    | zero => rw [Datum.wellFormed?]
    | succ limit =>
      have hinside : Datum.wellFormed?.all? (Datum.wellFormed? limit) [value] = none := by
        rw [Datum.wellFormed?.all?, ih (Nat.le_of_succ_le_succ hlimit)]
      exact hinside

end Wrapped

/-- Lists can be put around an improper one again and again, and no other name is touched. -/
theorem exists_reachable_wrapped (host : Host) (count : Nat) :
    ∃ store value, Reachable store ∧
      (∀ name ≠ "x", (store.bindings rootFrame).get? name = initialBindings.get? name) ∧
      (store.bindings rootFrame).get? "x" = some value ∧ Wrapped count value := by
  induction count with
  | zero =>
    have hwritten : (Datum.form none [.symbol "cons", .str "a", .str "b"]).IsSyntax := by
      refine .form ?_
      rw [List.forall_mem_cons, List.forall_mem_cons, List.forall_mem_singleton]
      exact ⟨Datum.isSyntax_symbol (by decide) (by decide) rfl, .str "a", .str "b"⟩
    have hcall : ∀ context, callBuiltin context .cons [.str "a", .str "b"] initialStore =
        .ok (.pair initialStore.nextLabel (.str "a") (.str "b"))
          { initialStore with nextLabel := initialStore.nextLabel + 1 } := fun _ => rfl
    have hreachable := reachable_of_application host .initial rfl (by decide) hwritten (by decide)
      rfl rfl hcall
    refine ⟨_, _, hreachable, fun name hname => ?_, rfl, .improper _⟩
    rw [Store.bindings_define_self Nat.one_pos, Bindings.get?_set_of_ne hname]
    rfl
  | succ count ih =>
    obtain ⟨store, value, hstore, hothers, hvalue, hwrapped⟩ := ih
    have hlist : (store.bindings rootFrame).get? "list" = some (.builtin .list) :=
      hothers "list" (by decide)
    have hroot :
        rootFrame < ({ store with nextLabel := store.nextLabel + 1 } : Store).frames.size :=
      (sound_of_reachable hstore).root
    have hwritten : (Datum.form none [.symbol "list", .symbol "x"]).IsSyntax := by
      refine .form ?_
      rw [List.forall_mem_cons, List.forall_mem_singleton]
      exact ⟨Datum.isSyntax_symbol (by decide) (by decide) rfl,
        Datum.isSyntax_symbol (by decide) (by decide) rfl⟩
    have hcall : ∀ context, callBuiltin context .list [value] store =
        .ok (.pair store.nextLabel value .empty)
          { store with nextLabel := store.nextLabel + 1 } := fun _ => rfl
    have hreachable := reachable_of_application host hstore rfl (by decide) hwritten (by decide)
      hlist (mapM_evaluate_symbol hvalue) hcall
    refine ⟨_, _, hreachable, fun name hname => ?_, ?_, .wrap store.nextLabel hwrapped⟩
    · rw [Store.bindings_define_self hroot, Bindings.get?_set_of_ne hname]
      exact hothers name hname
    · rw [Store.bindings_define_self hroot, Bindings.get?_set_self]

/-- A program can compute a value that holds an improper list and nests so deep that its evaluation
is given up instead of refusing it. -/
theorem evaluate_eval_of_deep_value :
    let host : Host := { settings := .ofVariables ⟨none, none, none⟩, files := .catalogue [] }
    ∃ store value, Reachable store ∧
      evaluate host stepBudget (depthLimit - 1) (.symbol "x") rootFrame store = .ok value store ∧
      value.HoldsImproper ∧
      evaluate host stepBudget depthLimit (.form none [.keyword .eval, .symbol "x"]) rootFrame
        store = .error .tooDeep store := by
  intro host
  obtain ⟨store, value, hstore, -, hvalue, hwrapped⟩ := exists_reachable_wrapped host depthLimit
  have hoperand : evaluate host stepBudget (depthLimit - 1) (.symbol "x") rootFrame store =
      .ok value store := evaluate_symbol hvalue
  refine ⟨store, value, hstore, hoperand, hwrapped.holdsImproper, ?_⟩
  have heval : evaluate host (999999999999999 + 1) (999 + 1)
      (.form none [.keyword .eval, .symbol "x"]) rootFrame =
      evaluate host stepBudget 999 (.symbol "x") rootFrame >>= evaluateWritten
        { host, limit := 999, evaluate := evaluate host stepBudget 999 } rootFrame :=
    evaluate_of_done rfl
  have hsearch : value.wellFormed? 999 = none := hwrapped.wellFormed?_eq_none (by decide)
  refine (congrFun heval store).trans ((bind_of_ok hoperand).trans ?_)
  rw [evaluateWritten, hsearch]
  rfl

end Interpreter

end SmallScheme
