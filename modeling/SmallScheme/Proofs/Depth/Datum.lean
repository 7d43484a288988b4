import SmallScheme.Datum.Equality
import SmallScheme.Fault
/-!
# Data at different depth limits

What looks into a datum only so deep has one of two results: it is cut off by its limit, or a
larger limit makes no difference. So it is for diagnostics and printing, for the test that all lists
are proper, and for the comparisons of data.
-/

namespace SmallScheme

/-- Unless the result is cut off at a limit, it is the same at every larger one. -/
def StableUnless {β : Type} (cut : β → Prop) (result : Nat → β) : Prop :=
  ∀ ⦃limit more : Nat⦄, limit ≤ more → ¬ cut (result limit) → result more = result limit

namespace StableUnless

variable {β γ : Type} {cut : β → Prop} {cut' : γ → Prop} {first second result : Nat → β}

theorem const (value : β) : StableUnless cut fun _ => value :=
  fun _ _ _ _ => rfl

theorem map (hresult : StableUnless cut result) {function : β → γ}
    (hcut : ∀ value, cut value → cut' (function value)) :
    StableUnless cut' fun limit => function (result limit) :=
  fun _ _ hle huncut =>
    congrArg function (hresult hle fun hvalue => huncut (hcut _ hvalue))

/-- A limit that leaves no room for what is inside cuts it off. -/
theorem unlessZero {value : β} (hvalue : cut value) (hresult : StableUnless cut result) :
    StableUnless cut fun limit => if limit = 0 then value else result limit := by
  intro limit more hle huncut
  dsimp only at huncut ⊢
  by_cases hzero : limit = 0
  · rw [if_pos hzero] at huncut
    exact absurd hvalue huncut
  · have hmore : more ≠ 0 := fun heq => hzero (Nat.le_zero.1 (heq ▸ hle))
    rw [if_neg hzero] at huncut
    rw [if_neg hzero, if_neg hmore]
    exact hresult hle huncut

theorem ite (condition : Prop) [Decidable condition] (value : β)
    (hresult : StableUnless cut result) :
    StableUnless cut fun limit => if condition then value else result limit := by
  by_cases hcondition : condition
  · simp only [if_pos hcondition]
    exact const value
  · simp only [if_neg hcondition]
    exact hresult

/-- What is inside may be one level less deep. -/
theorem pred (hresult : StableUnless cut result) :
    StableUnless cut fun limit => result (limit - 1) :=
  fun _ _ hle huncut => hresult (Nat.sub_le_sub_right hle 1) huncut

/-- Of two results the first one decides, or else it leaves the decision to the second one. -/
theorem combine {op : β → β → β}
    (hop : ∀ value, (∀ other, op value other = value) ∨ ∀ other, op value other = other)
    (hcut : ∀ value other, cut value → cut (op value other)) (hfirst : StableUnless cut first)
    (hsecond : StableUnless cut second) :
    StableUnless cut fun limit => op (first limit) (second limit) := by
  intro limit more hle huncut
  dsimp only at huncut ⊢
  rw [hfirst hle fun hvalue => huncut (hcut _ _ hvalue)]
  rcases hop (first limit) with hdecides | hleaves
  · rw [hdecides, hdecides]
  · rw [hleaves] at huncut
    rw [hleaves, hleaves]
    exact hsecond hle huncut

theorem eq_false {result : Nat → Bool} (hresult : StableUnless (· = true) result)
    {limit more : Nat} (hle : limit ≤ more) (hfalse : result limit = false) :
    result more = false := by
  rw [hresult hle (Bool.eq_false_iff.1 hfalse), hfalse]

theorem or {first second : Nat → Bool} (hfirst : StableUnless (· = true) first)
    (hsecond : StableUnless (· = true) second) :
    StableUnless (· = true) fun limit => first limit || second limit := by
  refine combine (fun value => ?_) (fun value other hvalue => ?_) hfirst hsecond
  · cases value with
    | false => exact .inr fun _ => rfl
    | true => exact .inl fun _ => rfl
  · rw [hvalue, Bool.true_or]

theorem and (condition : Bool) {result : Nat → Bool} (hresult : StableUnless (· = true) result) :
    StableUnless (· = true) fun limit => condition && result limit := by
  cases condition with
  | false => exact const false
  | true => exact hresult

theorem inside {result : Nat → Bool} (hresult : StableUnless (· = true) result) :
    StableUnless (· = true) fun limit => limit == 0 || result (limit - 1) := by
  have heq : (fun limit => limit == 0 || result (limit - 1)) =
      fun limit => if limit = 0 then true else result (limit - 1) := by
    funext limit
    cases limit <;> rfl
  rw [heq]
  exact hresult.pred.unlessZero rfl

theorem orElse {first second : Nat → Option PrintObstacle}
    (hfirst : StableUnless (· = some .tooDeep) first)
    (hsecond : StableUnless (· = some .tooDeep) second) :
    StableUnless (· = some .tooDeep) fun limit => first limit <|> second limit := by
  refine @combine _ _ first second (fun value other => value <|> other) (fun value => ?_)
    (fun value other hvalue => ?_) hfirst hsecond
  · cases value with
    | none => exact .inr fun _ => rfl
    | some obstacle => exact .inl fun _ => rfl
  · rw [hvalue]
    rfl

/-- Go on with the second answer only after a positive first one. -/
theorem ofAnswers {first second : Nat → Option Bool} (hfirst : StableUnless (· = none) first)
    (hsecond : StableUnless (· = none) second) :
    StableUnless (· = none) fun limit =>
      match first limit with
      | some true => second limit
      | answer => answer := by
  refine @combine _ _ first second
    (fun value other => match value with | some true => other | answer => answer)
    (fun value => ?_) (fun value other hvalue => ?_) hfirst hsecond
  · match value with
    | some true => exact .inr fun _ => rfl
    | some false | none => exact .inl fun _ => rfl
  · rw [hvalue]

end StableUnless

namespace Datum

/-! ### Texts -/

mutual

theorem stable_isTooDeepToDiagnose :
    ∀ datum : Datum, StableUnless (· = true) fun limit => datum.isTooDeepToDiagnose limit
  | .form _ items => by
    simp only [isTooDeepToDiagnose]
    exact (stable_anyTooDeepToDiagnose items).inside
  | .pair _ head tail => by
    simp only [isTooDeepToDiagnose, Bool.or_assoc]
    exact ((stable_isTooDeepToDiagnose head).or (stable_isTooDeepToDiagnose tail)).inside
  | .absent | .bool _ | .num _ | .int _ | .str _ | .symbol _ | .quoted _ | .empty | .unspecified
  | .builtin _ | .closure .. | .promise _ | .foreign .. => by
    simp only [isTooDeepToDiagnose]
    simpa only [Bool.or_false] using StableUnless.inside (.const false)

theorem stable_anyTooDeepToDiagnose :
    ∀ items : List Datum, StableUnless (· = true) fun limit => anyTooDeepToDiagnose limit items
  | [] => by
    simp only [anyTooDeepToDiagnose]
    exact .const false
  | item :: rest => by
    simp only [anyTooDeepToDiagnose]
    exact (stable_isTooDeepToDiagnose item).or (stable_anyTooDeepToDiagnose rest)

end

/-- What needs the datum to be shown fails for its depth before anything else. -/
theorem stable_diagnosis {α : Type} (datum : Datum) (result : Except Interrupt α) :
    StableUnless (· = .error .tooDeep) fun limit =>
      if datum.isTooDeepToDiagnose limit then .error .tooDeep else result := by
  refine @StableUnless.map _ _ _ (· = .error .tooDeep) _ datum.stable_isTooDeepToDiagnose
    (fun tooDeep => if tooDeep then .error .tooDeep else result) ?_
  rintro _ rfl
  exact if_pos rfl

mutual

theorem stable_printObstacle? :
    ∀ datum : Datum, StableUnless (· = some .tooDeep) fun limit => datum.printObstacle? limit
  | .form _ items => by
    simp only [printObstacle?]
    exact (stable_itemsObstacle? items).pred.unlessZero rfl
  | .pair _ head tail => by
    simp only [printObstacle?]
    exact ((stable_printObstacle? head).pred.orElse (stable_tailObstacle? tail).pred).unlessZero rfl
  | .int value => by
    simp only [printObstacle?]
    generalize integerObstacle? value = obstacle
    exact .unlessZero rfl (.const obstacle)
  | .absent | .bool _ | .num _ | .str _ | .symbol _ | .quoted _ | .empty | .unspecified
  | .builtin _ | .closure .. | .promise _ | .foreign .. => by
    simp only [printObstacle?]
    exact .unlessZero rfl (.const none)

theorem stable_itemsObstacle? :
    ∀ items : List Datum, StableUnless (· = some .tooDeep) fun limit => itemsObstacle? limit items
  | [] => by
    simp only [itemsObstacle?]
    exact .const none
  | item :: rest => by
    simp only [itemsObstacle?]
    exact (stable_printObstacle? item).orElse (stable_itemsObstacle? rest)

theorem stable_tailObstacle? :
    ∀ datum : Datum, StableUnless (· = some .tooDeep) fun limit => datum.tailObstacle? limit
  | .empty => by
    simp only [tailObstacle?]
    exact .const none
  | .pair _ head tail => by
    simp only [tailObstacle?]
    exact (stable_printObstacle? head).orElse (stable_tailObstacle? tail)
  | .form _ items => by
    simp only [tailObstacle?]
    exact (stable_itemsObstacle? items).pred.unlessZero rfl
  | .int value => by
    simp only [tailObstacle?]
    generalize integerObstacle? value = obstacle
    exact .unlessZero rfl (.const obstacle)
  | .absent | .bool _ | .num _ | .str _ | .symbol _ | .quoted _ | .unspecified
  | .builtin _ | .closure .. | .promise _ | .foreign .. => by
    simp only [tailObstacle?]
    exact .unlessZero rfl (.const none)

end

/-! ### Lists -/

theorem all?_of_settled {test later : Datum → Option Bool}
    (htest : ∀ item, test item ≠ none → later item = test item) {items : List Datum}
    (hsettled : wellFormed?.all? test items ≠ none) :
    wellFormed?.all? later items = wellFormed?.all? test items := by
  induction items with
  | nil => rfl
  | cons item rest ih =>
    rw [wellFormed?.all?] at hsettled
    rw [wellFormed?.all?, wellFormed?.all?]
    cases hitem : test item with
    | none =>
      rw [hitem] at hsettled
      exact absurd rfl hsettled
    | some answer =>
      rw [hitem] at hsettled
      rw [htest item (by rw [hitem]; rintro ⟨⟩), hitem]
      cases answer with
      | false => rfl
      | true => exact ih hsettled

theorem stable_wellFormed? (datum : Datum) :
    StableUnless (· = none) fun limit => datum.wellFormed? limit := by
  intro limit more hle hsettled
  dsimp only at hsettled ⊢
  induction limit generalizing more datum with
  | zero => exact absurd rfl hsettled
  | succ limit ih =>
    obtain ⟨more, rfl⟩ := Nat.exists_eq_add_of_le' (Nat.le_trans (Nat.le_add_left 1 limit) hle)
    rw [wellFormed?] at hsettled
    rw [wellFormed?, wellFormed?]
    split
    · rfl
    · next hpair =>
      rw [if_neg hpair] at hsettled
      split
      · rfl
      · next hlist =>
        rw [if_neg hlist] at hsettled
        exact all?_of_settled (fun item => ih item (Nat.le_of_succ_le_succ hle)) hsettled

/-! ### Comparisons -/

mutual

theorem stable_comparesTooDeep :
    ∀ left right : Datum, StableUnless (· = true) fun limit => left.comparesTooDeep limit right
  | .form _ left, right => by
    cases right with
    | form _ right =>
      simp only [comparesTooDeep]
      exact .and _ (stable_itemsCompareTooDeep left right).inside
    | _ => exact .const false
  | .pair _ leftHead leftTail, right => by
    cases right with
    | pair _ rightHead rightTail =>
      simp only [comparesTooDeep, Bool.or_assoc]
      exact ((stable_comparesTooDeep leftHead rightHead).or
        (.and _ (stable_comparesTooDeep leftTail rightTail))).inside
    | _ => exact .const false
  | .absent, right | .bool _, right | .num _, right | .int _, right | .str _, right
  | .symbol _, right | .quoted _, right | .empty, right | .unspecified, right | .builtin _, right
  | .closure .., right | .promise _, right | .foreign .., right => by
    cases right <;> exact .const false

theorem stable_itemsCompareTooDeep :
    ∀ left right : List Datum,
      StableUnless (· = true) fun limit => itemsCompareTooDeep limit left right
  | [], right => by
    cases right <;> exact .const false
  | _ :: _, [] => .const false
  | left :: leftRest, right :: rightRest => by
    simp only [itemsCompareTooDeep]
    exact (stable_comparesTooDeep left right).or
      (.and _ (stable_itemsCompareTooDeep leftRest rightRest))

end

theorem stable_isSame? (left right : Datum) :
    StableUnless (· = none) fun limit => left.isSame? limit right := by
  cases left with
  | form leftLabel leftItems =>
    cases right with
    | form rightLabel rightItems =>
      intro limit more hle hsettled
      simp only [isSame?] at hsettled ⊢
      cases hone : isOneForm (.form leftLabel leftItems) (.form rightLabel rightItems) with
      | true => rfl
      | false =>
        cases hdeep : comparesTooDeep limit (.form leftLabel leftItems)
            (.form rightLabel rightItems) with
        | true =>
          rw [hone, hdeep] at hsettled
          exact absurd rfl hsettled
        | false => rw [(stable_comparesTooDeep _ _).eq_false hle hdeep]
    | _ => exact .const _
  | _ => exact .const _

mutual

theorem stable_isAlike? :
    ∀ left right : Datum, StableUnless (· = none) fun limit => left.isAlike? limit right
  | .pair _ leftHead leftTail, right => by
    cases right with
    | pair _ rightHead rightTail =>
      simp only [isAlike?]
      exact .unlessZero rfl ((stable_isAlike? leftHead rightHead).pred.ofAnswers
        (stable_isAlikeTail? leftTail rightTail))
    | _ =>
      simp only [isAlike?]
      exact .unlessZero rfl (.const (some false))
  | .absent, right | .bool _, right | .num _, right | .int _, right | .str _, right
  | .symbol _, right | .quoted _, right | .empty, right | .unspecified, right | .builtin _, right
  | .closure .., right | .promise _, right | .foreign .., right | .form .., right => by
    simp only [isAlike?]
    exact .unlessZero rfl (.ite _ _ (stable_isSame? _ right))

theorem stable_isAlikeTail? :
    ∀ left right : Datum, StableUnless (· = none) fun limit => left.isAlikeTail? limit right
  | .pair _ leftHead leftTail, right => by
    cases right with
    | pair _ rightHead rightTail =>
      simp only [isAlikeTail?]
      exact (stable_isAlike? leftHead rightHead).pred.ofAnswers
        (stable_isAlikeTail? leftTail rightTail)
    | _ =>
      simp only [isAlikeTail?]
      exact .const (some false)
  | .absent, right | .bool _, right | .num _, right | .int _, right | .str _, right
  | .symbol _, right | .quoted _, right | .empty, right | .unspecified, right | .builtin _, right
  | .closure .., right | .promise _, right | .foreign .., right | .form .., right => by
    simp only [isAlikeTail?]
    exact .ite _ _ (stable_isSame? _ right)

end

end Datum

end SmallScheme
