import SmallScheme.Proofs.Datum.Likeness
import SmallScheme.Proofs.Evaluator.Rejection
import SmallScheme.Proofs.Sharing.Reachable
/-!
# Identity and structural equality

On the values of one heap, identity is really identity: of two pairs, procedures or promises that
are the same there is only one. So identity implies structural equality, and values that are
structurally equal are printed alike.
-/

namespace SmallScheme

open Machine

namespace Datum

variable {heap : Heap} {left right : Datum}

theorem mem_cells_of_identity? {label : Label} (hcell : left.identity? = some (.cell label)) :
    left ∈ left.cells ∧ left.label? = some label := by
  cases left <;> simp [identity?] at hcell <;> simp [cells, label?, hcell]

/-- Two values of one heap are the same only as one value, unless they are atoms without
identity. -/
theorem eq_of_isSame (hlivesLeft : left.LivesIn heap) (hlivesRight : right.LivesIn heap)
    (hidentity : left.identity? ≠ none) (hsame : left.isSame right = true) : left = right := by
  rw [isSame_eq_ite, if_neg (fun hnone => hidentity hnone.1), beq_iff_eq] at hsame
  cases hcell : left.identity? with
  | none => exact absurd hcell hidentity
  | some identity =>
    rw [hcell] at hsame
    cases identity with
    | cell label =>
      obtain ⟨hmemLeft, hlabelLeft⟩ := mem_cells_of_identity? hcell
      obtain ⟨hmemRight, hlabelRight⟩ := mem_cells_of_identity? hsame.symm
      have hfoundLeft := hlivesLeft left hmemLeft
      have hfoundRight := hlivesRight right hmemRight
      rw [hlabelLeft] at hfoundLeft
      rw [hlabelRight] at hfoundRight
      exact Option.some.inj (hfoundLeft.symm.trans hfoundRight)
    | builtin procedure => cases left <;> cases right <;> simp_all [identity?]
    | promise id => cases left <;> cases right <;> simp_all [identity?]

theorem isAlike_eq_isSame (hatomLeft : left.isPair = false) (hatomRight : right.isPair = false) :
    left.isAlike right = left.isSame right := by
  rw [isAlike_of_isPair_eq_false hatomLeft, hatomRight]
  rfl

theorem isPair_eq_false_of_identity? (hidentity : left.identity? = none) : left.isPair = false := by
  cases left with
  | pair => cases hidentity
  | _ => rfl

theorem identity?_eq_of_isSame (hsame : left.isSame right = true) :
    left.identity? = right.identity? := by
  rw [isSame_eq_ite] at hsame
  split at hsame
  · next hnone => rw [hnone.1, hnone.2]
  · exact beq_iff_eq.1 hsame

/-- What is the same is alike. -/
theorem isAlike_of_isSame (hright : right.IsComparable) (hlivesLeft : left.LivesIn heap)
    (hlivesRight : right.LivesIn heap) (hsame : left.isSame right = true) :
    left.isAlike right = true := by
  by_cases hidentity : left.identity? = none
  · have hother : right.identity? = none := identity?_eq_of_isSame hsame ▸ hidentity
    rw [isAlike_eq_isSame (isPair_eq_false_of_identity? hidentity)
      (isPair_eq_false_of_identity? hother)]
    exact hsame
  · rw [eq_of_isSame hlivesLeft hlivesRight hidentity hsame]
    exact isAlike_refl hright

/-- Procedures and promises are alike only as one and the same. -/
theorem isAlike_iff_eq (hleft : left.IsComparable) (hlivesLeft : left.LivesIn heap)
    (hlivesRight : right.LivesIn heap) (hatom : left.isPair = false)
    (hidentity : left.identity? ≠ none) : left.isAlike right = true ↔ left = right := by
  constructor
  · intro halike
    rw [isAlike_of_isPair_eq_false hatom, Bool.and_eq_true] at halike
    exact eq_of_isSame hlivesLeft hlivesRight hidentity halike.2
  · rintro rfl
    exact isAlike_refl hleft

theorem isAlike_eq_false_of_ctorIdx_ne (hleft : left.IsComparable) (hright : right.IsComparable)
    (hkind : left.ctorIdx ≠ right.ctorIdx) : left.isAlike right = false := by
  rw [← Bool.not_eq_true, isAlike_iff_shape hleft hright]
  intro hshape
  rw [← ctorIdx_shape left, hshape, ctorIdx_shape] at hkind
  exact hkind rfl

/-! ### Lists -/

theorem isList_eq_of_isAlike (hleft : left.IsComparable) (hright : right.IsComparable)
    (halike : left.isAlike right = true) : left.isList = right.isList := by
  rw [isAlike_iff_shape hleft hright] at halike
  rw [← isList_shape left, halike, isList_shape]

theorem length_items_eq_of_isAlike (hleft : left.IsComparable) (hright : right.IsComparable)
    (halike : left.isAlike right = true) : left.items.length = right.items.length := by
  rw [isAlike_iff_shape hleft hright] at halike
  have hitems := congrArg items halike
  rw [items_shape, items_shape] at hitems
  simpa using congrArg List.length hitems

/-! ### Printing -/

/-- Two atoms are alike only as one and the same, or as numbers that differ in the sign of zero. -/
theorem eq_or_num_of_isAlike (hleft : left.IsComparable) (hright : right.IsComparable)
    (hlivesLeft : left.LivesIn heap) (hlivesRight : right.LivesIn heap)
    (hatom : left.isPair = false) (halike : left.isAlike right = true) :
    left = right ∨ ∃ first second, left = .num first ∧ right = .num second ∧
      first.withoutZeroSign = second.withoutZeroSign := by
  by_cases hidentity : left.identity? = none
  · rw [isAlike_iff_shape hleft hright] at halike
    cases left <;> cases right <;> simp_all [shape, identity?]
  · exact .inl ((isAlike_iff_eq hleft hlivesLeft hlivesRight hatom hidentity).1 halike)

theorem chars_eq_of_isAlike (style : StringStyle) (hleft : left.IsComparable)
    (hright : right.IsComparable) (hlivesLeft : left.LivesIn heap)
    (hlivesRight : right.LivesIn heap) (halike : left.isAlike right = true) :
    left.chars style = right.chars style ∧ left.tailChars style = right.tailChars style := by
  induction hleft generalizing right with
  | pair _ _ ihhead ihtail =>
    cases hright with
    | pair hhead htail =>
      rw [isAlike, Bool.and_eq_true] at halike
      rw [livesIn_pair] at hlivesLeft hlivesRight
      have hheads := ihhead hhead hlivesLeft.2.1 hlivesRight.2.1 halike.1
      have htails := ihtail htail hlivesLeft.2.2 hlivesRight.2.2 halike.2
      rw [chars, tailChars, chars, tailChars, hheads.1, htails.2]
      exact ⟨rfl, rfl⟩
    | _ => cases halike
  | _ =>
    obtain rfl | ⟨first, second, hfirst, rfl, hsign⟩ :=
      eq_or_num_of_isAlike (by constructor <;> assumption) hright hlivesLeft hlivesRight rfl halike
    · exact ⟨rfl, rfl⟩
    · rw [hfirst]
      simp only [chars, tailChars, atomChars, Double.sourceChars_eq hsign, and_self]

/-- Alike values are printed alike. -/
theorem source_eq_of_isAlike (hleft : left.IsComparable) (hright : right.IsComparable)
    (hlivesLeft : left.LivesIn heap) (hlivesRight : right.LivesIn heap)
    (halike : left.isAlike right = true) : left.source = right.source := by
  rw [source, source, (chars_eq_of_isAlike _ hleft hright hlivesLeft hlivesRight halike).1]

theorem printObstacle?_shape (hleft : left.IsComparable) (limit : Nat) :
    left.shape.printObstacle? limit = left.printObstacle? limit ∧
      left.shape.tailObstacle? limit = left.tailObstacle? limit := by
  induction hleft generalizing limit with
  | pair _ _ ihhead ihtail =>
    simp only [shape, printObstacle?, tailObstacle?, (ihhead _).1, (ihtail _).2, and_self]
  | _ => exact ⟨rfl, rfl⟩

/-- Of alike values, both are printed or neither. -/
theorem printObstacle?_eq_of_isAlike (hleft : left.IsComparable) (hright : right.IsComparable)
    (halike : left.isAlike right = true) (limit : Nat) :
    left.printObstacle? limit = right.printObstacle? limit := by
  rw [isAlike_iff_shape hleft hright] at halike
  rw [← (printObstacle?_shape hleft limit).1, halike, (printObstacle?_shape hright limit).1]

/-! ### Values of evaluations -/

/-- A value without a part that is no number can be compared. -/
theorem IsValue.isComparable {store : Store} {value : Datum} (hvalue : value.IsValue store)
    (hnumbers : ¬ value.Holds (.num .nan)) : value.IsComparable := by
  induction hvalue with
  | num number =>
    refine .num ?_
    rintro rfl
    exact hnumbers (.self _)
  | pair label _ _ ihhead ihtail =>
    exact .pair (ihhead fun hholds => hnumbers (.head hholds))
      (ihtail fun hholds => hnumbers (.tail hholds))
  | _ => constructor

end Datum

/-- A value in the heap that holds no number that differs from itself. -/
structure Heap.Value (heap : Heap) where
  datum : Datum
  comparable : datum.IsComparable
  lives : datum.LivesIn heap

/-- What the procedures for identity and for structural equality do with values of the heap. -/
structure Heap.HasLawfulEquality (heap : Heap) : Prop where
  callBuiltin_isSame (left right : heap.Value) (context : Context) (store : Store) :
    callBuiltin context .isSame [left.datum, right.datum] store =
      .ok (.bool (left.datum.isSame right.datum)) store
  /-- Only if both values nest as deep as the limit, there may be no answer. -/
  callBuiltin_isAlike (left right : heap.Value) (context : Context) (store : Store) :
    callBuiltin context .isAlike [left.datum, right.datum] store =
        .ok (.bool (left.datum.isAlike right.datum)) store ∨
      callBuiltin context .isAlike [left.datum, right.datum] store = .error .tooDeep store ∧
        context.limit ≤ left.datum.nesting ∧ context.limit ≤ right.datum.nesting
  refl (value : heap.Value) : value.datum.isAlike value.datum = true
  symm (left right : heap.Value) : left.datum.isAlike right.datum = right.datum.isAlike left.datum
  trans (left middle right : heap.Value) (hfirst : left.datum.isAlike middle.datum = true)
    (hsecond : middle.datum.isAlike right.datum = true) : left.datum.isAlike right.datum = true
  isAlike_of_isSame (left right : heap.Value) (hsame : left.datum.isSame right.datum = true) :
    left.datum.isAlike right.datum = true
  isAlike_cons (leftHead leftTail rightHead rightTail : heap.Value) {context : Context}
    {left right : Datum} {leftStore leftAfter rightStore rightAfter : Store}
    (hleft : callBuiltin context .cons [leftHead.datum, leftTail.datum] leftStore =
      .ok left leftAfter)
    (hright : callBuiltin context .cons [rightHead.datum, rightTail.datum] rightStore =
      .ok right rightAfter) :
    left.isAlike right = (leftHead.datum.isAlike rightHead.datum &&
      leftTail.datum.isAlike rightTail.datum)
  callBuiltin_length (left right : heap.Value) (halike : left.datum.isAlike right.datum = true) :
    left.datum.isList = right.datum.isList ∧ (left.datum.isList = true →
      ∀ (context : Context) (store : Store), callBuiltin context .length [left.datum] store =
        callBuiltin context .length [right.datum] store)
  /-- As text, alike values are the same, and it takes the same limit to print them. -/
  source (left right : heap.Value) (halike : left.datum.isAlike right.datum = true) :
    left.datum.source = right.datum.source ∧
      ∀ limit, left.datum.printObstacle? limit = right.datum.printObstacle? limit
  isAlike_eq_isSame (left right : heap.Value) (hleft : left.datum.isPair = false)
    (hright : right.datum.isPair = false) :
    left.datum.isAlike right.datum = left.datum.isSame right.datum
  isAlike_procedure (left right : heap.Value)
    (hprocedure : left.datum.isProcedure = true ∨ ∃ id, left.datum = .promise id) :
    left.datum.isAlike right.datum = true ↔ left.datum = right.datum
  isAlike_of_ctorIdx_ne (left right : heap.Value)
    (hkind : left.datum.ctorIdx ≠ right.datum.ctorIdx) :
    left.datum.isAlike right.datum = false

theorem Heap.hasLawfulEquality (heap : Heap) : heap.HasLawfulEquality where
  callBuiltin_isSame left right context store :=
    Machine.callBuiltin_isSame left.comparable right.datum context store
  callBuiltin_isAlike left right context store :=
    Machine.callBuiltin_isAlike left.comparable right.datum context store
  refl value := Datum.isAlike_refl value.comparable
  symm left right := Datum.isAlike_comm left.comparable right.comparable
  trans left middle right hfirst hsecond :=
    Datum.isAlike_trans left.comparable middle.comparable right.comparable hfirst hsecond
  isAlike_of_isSame left right hsame :=
    Datum.isAlike_of_isSame right.comparable left.lives right.lives hsame
  isAlike_cons leftHead leftTail rightHead rightTail := by
    intro context left right leftStore leftAfter rightStore rightAfter hleft hright
    cases hleft
    cases hright
    rw [Datum.isAlike]
  callBuiltin_length left right halike := by
    have hlist := Datum.isList_eq_of_isAlike left.comparable right.comparable halike
    refine ⟨hlist, fun hleft context store => ?_⟩
    have hright : right.datum.isList = true := hlist ▸ hleft
    have hcall : ∀ datum : Datum, callBuiltin context .length [datum] = length context datum :=
      fun _ => rfl
    rw [hcall, hcall, length, length, if_pos hleft, if_pos hright,
      Datum.length_items_eq_of_isAlike left.comparable right.comparable halike]
  source left right halike :=
    ⟨Datum.source_eq_of_isAlike left.comparable right.comparable left.lives right.lives halike,
      Datum.printObstacle?_eq_of_isAlike left.comparable right.comparable halike⟩
  isAlike_eq_isSame _ _ hleft hright := Datum.isAlike_eq_isSame hleft hright
  isAlike_procedure left right hprocedure := by
    have hkind : left.datum.isPair = false ∧ left.datum.identity? ≠ none := by
      obtain hprocedure | ⟨id, hid⟩ := hprocedure
      · cases hdatum : left.datum <;> simp_all [Datum.isProcedure, Datum.isPair, Datum.identity?]
      · rw [hid]
        exact ⟨rfl, by rintro ⟨⟩⟩
    exact Datum.isAlike_iff_eq left.comparable left.lives right.lives hkind.1 hkind.2
  isAlike_of_ctorIdx_ne left right hkind :=
    Datum.isAlike_eq_false_of_ctorIdx_ne left.comparable right.comparable hkind

namespace Interpreter

/-- Every reachable store lives in a heap, and what is evaluated from there has its value in a
larger one, as long as it holds no number that differs from itself; and among the values of any one
heap, structural equality is an equivalence that identity implies and that agrees with construction,
length and printing. -/
theorem equality_of_reachable :
    (∀ {store : Store}, Reachable store → store.Sound ∧ ∃ heap : Heap, store.LivesIn heap) ∧
      (∀ {heap : Heap} {store : Store}, store.Sound → store.LivesIn heap →
        ∀ (host : Host) (steps limit : Nat) {expression value : Datum} {frame : FrameId}
          {after : Store}, expression.IsExpression store → expression.LivesIn heap →
          frame < store.frames.size →
          evaluate host steps limit expression frame store = .ok value after →
          ¬ value.Holds (.num .nan) →
            ∃ later : Heap, heap.Extends later ∧ after.Sound ∧ after.LivesIn later ∧
              ∃ found : later.Value, found.datum = value) ∧
      ∀ heap : Heap, heap.HasLawfulEquality := by
  refine ⟨fun hstore => ⟨sound_of_reachable hstore, exists_livesIn_of_reachable hstore⟩, ?_,
    Heap.hasLawfulEquality⟩
  intro heap store hsound hlives host steps limit expression value frame after hexpression
    hlivesExpression hframe hevaluate hnumbers
  obtain ⟨-, hsoundAfter, hvalue⟩ :=
    (givesValue_evaluate host steps limit hsound hframe hexpression).ok hevaluate
  obtain ⟨later, hextends, hlivesAfter, hlivesValue⟩ :=
    (keepsDatum_evaluate host steps limit hlives hlivesExpression frame).exists_of_ok hevaluate
  exact ⟨later, hextends, hsoundAfter, hlivesAfter,
    ⟨⟨value, hvalue.isComparable hnumbers, hlivesValue⟩, rfl⟩⟩

/-- A pair of two strings is structurally equal to itself. -/
theorem equality_of_pair :
    let host : Host := { settings := .ofVariables ⟨none, none, none⟩, files := .catalogue [] }
    let operand : Datum := .form none [.builtin .cons, .str "a", .str "b"]
    let pair : Datum := .pair initialStore.nextLabel (.str "a") (.str "b")
    let after : Store := { initialStore with nextLabel := initialStore.nextLabel + 1 }
    evaluate host 1 2 operand rootFrame initialStore = .ok pair after ∧
      callBuiltin (contextWithin host 1 2) .isAlike [pair, pair] after =
        .ok (.bool true) after := by
  intro host operand pair after
  have hoperand : operand.IsExpression initialStore := by
    refine .application fun item hmem => ?_
    simp only [List.mem_cons, List.not_mem_nil, or_false] at hmem
    rcases hmem with rfl | rfl | rfl
    · exact .builtin .cons
    · exact .str "a"
    · exact .str "b"
  have hvalue : evaluate host 1 2 operand rootFrame initialStore = .ok pair after := rfl
  have hnumbers : ¬ pair.Holds (.num .nan) := by
    change ¬ (Datum.pair _ (.str "a") (.str "b")).Holds (.num .nan)
    rintro (_ | ⟨⟨⟩⟩ | ⟨⟨⟩⟩)
  obtain ⟨hreachable, hvalues, hlaws⟩ := equality_of_reachable
  obtain ⟨hsound, heap, hlives⟩ := hreachable .initial
  have hcells : operand.LivesIn heap := Datum.livesIn_of_cells_eq_nil rfl
  obtain ⟨later, -, -, -, found, hfound⟩ :=
    hvalues hsound hlives host 1 2 hoperand hcells Nat.one_pos hvalue hnumbers
  have hanswer := (hlaws later).callBuiltin_isAlike found found (contextWithin host 1 2) after
  have hlike := (hlaws later).isAlike_of_isSame found found (by rw [hfound]; rfl)
  rw [hlike, hfound] at hanswer
  obtain hanswer | ⟨-, hdeep, -⟩ := hanswer
  · exact ⟨hvalue, hanswer⟩
  · exact absurd hdeep (by decide)

/-! ### A value that is too deep -/

namespace Wrapped

variable {count limit : Nat} {value : Datum}

theorem isComparable (hvalue : Wrapped count value) : value.IsComparable := by
  induction hvalue with
  | improper label => exact .pair (.str _) (.str _)
  | wrap label _ ih => exact .pair ih .empty

/-- The comparison with itself needs one level for every list around it. -/
theorem isAlike?_self_eq_none (hvalue : Wrapped count value) (hlimit : limit ≤ count) :
    value.isAlike? limit value = none := by
  induction hvalue generalizing limit with
  | improper label => rw [Nat.le_zero.1 hlimit, Datum.isAlike?, if_pos rfl]
  | wrap label _ ih =>
    cases limit with
    | zero => rw [Datum.isAlike?, if_pos rfl]
    | succ limit =>
      rw [Datum.isAlike?, if_neg (Nat.succ_ne_zero limit), Nat.add_sub_cancel,
        ih (Nat.le_of_succ_le_succ hlimit)]

end Wrapped

/-- A program can compute a value that nests so deep that it cannot be compared with itself. -/
theorem isAlike_of_deep_value :
    let host : Host := { settings := .ofVariables ⟨none, none, none⟩, files := .catalogue [] }
    ∃ store value, Reachable store ∧
      evaluate host stepBudget (depthLimit - 1) (.symbol "x") rootFrame store = .ok value store ∧
      value.IsComparable ∧
      evaluate host stepBudget depthLimit
        (.form none [.symbol Builtin.isAlike.name, .symbol "x", .symbol "x"]) rootFrame store =
          .error .tooDeep store := by
  intro host
  obtain ⟨store, value, hstore, hothers, hvalue, hwrapped⟩ :=
    exists_reachable_wrapped host depthLimit
  exact ⟨store, value, hstore, evaluate_symbol hvalue, hwrapped.isComparable,
    evaluate_isAlike_self (hothers _ (by decide)) hvalue
      (hwrapped.isAlike?_self_eq_none (by decide))⟩

end Interpreter

end SmallScheme
