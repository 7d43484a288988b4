import SmallScheme.Evaluator.Builtins
import SmallScheme.Proofs.Depth.Datum
import SmallScheme.Proofs.Reader.NormalForm
import SmallScheme.Proofs.Relabelling.Datum
/-!
# Structural equality

Among values that hold no number which differs from itself, structural equality is an equivalence:
two values are alike exactly if they have the same shape. The language looks at values no deeper
than its limit; what it answers is right, and it has an answer unless both values nest as deep.
-/

namespace SmallScheme

/-! ### Numbers -/

namespace Double

theorem one_ne_zero : one ≠ 0 := by
  unfold one
  generalize 1074 = exponent
  exact (Nat.two_pow_pos exponent).ne'

theorem place?_withoutZeroSign (number : Double) :
    number.withoutZeroSign.place? = number.place? := by
  cases number with
  | finite negative units hunits =>
    by_cases hzero : units = 0
    · subst hzero
      cases negative <;> rfl
    · simp [withoutZeroSign, hzero]
  | _ => rfl

theorem signed_injective {left right : Bool} {leftUnits rightUnits : Nat}
    (hleft : left = true → leftUnits ≠ 0) (hright : right = true → rightUnits ≠ 0)
    (hsigned : signed left leftUnits = signed right rightUnits) :
    left = right ∧ leftUnits = rightUnits := by
  have hunits : leftUnits = rightUnits := by
    rw [← natAbs_signed left leftUnits, hsigned, natAbs_signed]
  refine ⟨?_, hunits⟩
  subst hunits
  cases left with
  | false =>
    cases right with
    | false => rfl
    | true =>
      have hne := hright rfl
      simp only [signed, Bool.false_eq_true, if_false, if_true] at hsigned
      omega
  | true =>
    cases right with
    | true => rfl
    | false =>
      have hne := hleft rfl
      simp only [signed, Bool.false_eq_true, if_false, if_true] at hsigned
      omega

theorem signed_ne_signed_limit {units : Nat} (hunits : Representable units)
    (negative other : Bool) : signed negative units ≠ signed other limit := by
  intro hsigned
  have hlimit : units = limit := by
    rw [← natAbs_signed negative units, hsigned, natAbs_signed]
  exact absurd hlimit (Nat.ne_of_lt hunits.1)

/-- Of two numbers at one place, without the sign of a zero, there is only one. -/
theorem eq_of_place?_eq {left right : Double} (hleft : left ≠ .zero true)
    (hright : right ≠ .zero true) (hnumber : left ≠ .nan) (hplace : left.place? = right.place?) :
    left = right := by
  have hsign : ∀ {negative : Bool} {units : Nat} {hunits : Representable units},
      finite negative units hunits ≠ .zero true → negative = true → units ≠ 0 := by
    rintro negative units hunits hne rfl rfl
    exact hne rfl
  cases left with
  | nan => exact absurd rfl hnumber
  | finite negative units hunits =>
    cases right with
    | nan => cases hplace
    | finite other otherUnits hother =>
      obtain ⟨rfl, rfl⟩ := signed_injective (hsign hleft) (hsign hright) (Option.some.inj hplace)
      rfl
    | infinite other =>
      exact absurd (Option.some.inj hplace) (signed_ne_signed_limit hunits negative other)
  | infinite negative =>
    cases right with
    | nan => cases hplace
    | finite other units hunits =>
      exact absurd (Option.some.inj hplace).symm (signed_ne_signed_limit hunits other negative)
    | infinite other =>
      have hne : limit ≠ 0 := Nat.ne_of_gt limit_pos
      obtain ⟨rfl, -⟩ := signed_injective (fun _ => hne) (fun _ => hne) (Option.some.inj hplace)
      rfl

theorem sourceChars_eq {left right : Double}
    (hsign : left.withoutZeroSign = right.withoutZeroSign) :
    left.sourceChars = right.sourceChars := by
  rw [← sourceChars_withoutZeroSign left, hsign, sourceChars_withoutZeroSign]

/-- Numbers are equal if they are the same up to the sign of a zero. -/
theorem equals_iff_withoutZeroSign {left right : Double} (hleft : left ≠ .nan)
    (hright : right ≠ .nan) :
    left.equals right = true ↔ left.withoutZeroSign = right.withoutZeroSign := by
  have hequals : left.equals right = true ↔ left.place? = right.place? := by
    cases left <;> cases right <;> simp_all [equals, related, place?]
  rw [hequals, ← place?_withoutZeroSign left, ← place?_withoutZeroSign right]
  refine ⟨fun hplace => ?_, fun heq => heq ▸ rfl⟩
  have hnumber : left.withoutZeroSign ≠ .nan := by
    cases left with
    | nan => exact absurd rfl hleft
    | _ => rintro ⟨⟩
  exact eq_of_place?_eq (Datum.withoutZeroSign_ne_zero left) (Datum.withoutZeroSign_ne_zero right)
    hnumber hplace

end Double

namespace Datum

/-! ### Values that can be compared -/

/-- A value that holds no number that differs from itself. -/
inductive IsComparable : Datum → Prop where
  | bool (value : Bool) : IsComparable (.bool value)
  | num {number : Double} (hnumber : number ≠ .nan) : IsComparable (.num number)
  | str (text : String) : IsComparable (.str text)
  | quoted (name : String) : IsComparable (.quoted name)
  | empty : IsComparable .empty
  | unspecified : IsComparable .unspecified
  | pair {label : Label} {head tail : Datum} (hhead : IsComparable head)
    (htail : IsComparable tail) : IsComparable (.pair label head tail)
  | builtin (procedure : Builtin) : IsComparable (.builtin procedure)
  | closure (label : Label) (name : Option String) (formals : Formals) (body : List Datum)
    (frame : FrameId) : IsComparable (.closure label name formals body frame)
  | promise (id : PromiseId) : IsComparable (.promise id)

/-- What structural equality sees of a value: neither the sign of a zero, nor which pairs it is made
of, nor what is inside a procedure. -/
def shape : Datum → Datum
  | .num number => .num number.withoutZeroSign
  | .pair _ head tail => .pair 0 head.shape tail.shape
  | .closure label .. => .closure label none (.fixed []) [] 0
  | datum => datum

/-- Structural equality of chains over `isSame`, however deep. -/
def isAlike : Datum → Datum → Bool
  | .pair _ leftHead leftTail, .pair _ rightHead rightTail =>
    leftHead.isAlike rightHead && leftTail.isAlike rightTail
  | left, right => !left.isPair && !right.isPair && left.isSame right

theorem isAlike_of_isPair_eq_false {left : Datum} (hatom : left.isPair = false) (right : Datum) :
    left.isAlike right = (!right.isPair && left.isSame right) := by
  cases left with
  | pair => cases hatom
  | _ => simp [isAlike, isPair]

theorem sameAtom_bool_iff {value other : Bool} :
    (bool value).sameAtom (bool other) = true ↔ value = other := by
  have hunits : (bool value).sameAtom (bool other) =
      ((if value then (Double.one : Int) else 0) == if other then (Double.one : Int) else 0) := rfl
  have hone : (Double.one : Int) ≠ 0 := Int.ofNat_ne_zero.2 Double.one_ne_zero
  rw [hunits]
  generalize (Double.one : Int) = one at hone
  cases value <;> cases other <;> simp [hone, hone.symm]

variable {left right : Datum}

/-- Two atoms are the same exactly if they have the same shape. -/
theorem isSame_iff_shape (hleft : left.IsComparable) (hright : right.IsComparable)
    (hatomLeft : left.isPair = false) (hatomRight : right.isPair = false) :
    left.isSame right = true ↔ left.shape = right.shape := by
  cases hleft with
  | pair => cases hatomLeft
  | num hnumber =>
    cases hright with
    | num hother =>
      rw [shape, shape, num.injEq, ← Double.equals_iff_withoutZeroSign hnumber hother]
      rfl
    | _ => simp [isSame, identity?, isOneForm, sameKind, shape]
  | bool value =>
    cases hright with
    | bool other =>
      have hshape : (bool value).shape = (bool other).shape ↔ value = other := by simp [shape]
      rw [hshape]
      exact sameAtom_bool_iff
    | _ => simp [isSame, identity?, isOneForm, sameKind, shape]
  | _ =>
    cases hright with
    | pair => cases hatomRight
    | _ => simp [isSame, identity?, isOneForm, sameKind, same, sameAtom, shape]

@[simp] theorem isPair_shape (datum : Datum) : datum.shape.isPair = datum.isPair := by
  cases datum <;> rfl

theorem isAlike_iff_shape_of_atom (hleft : left.IsComparable) (hright : right.IsComparable)
    (hatom : left.isPair = false) : left.isAlike right = true ↔ left.shape = right.shape := by
  rw [isAlike_of_isPair_eq_false hatom]
  cases hpair : right.isPair with
  | false => exact isSame_iff_shape hleft hright hatom hpair
  | true =>
    have hshape : left.shape ≠ right.shape := by
      intro hshape
      rw [← isPair_shape, hshape, isPair_shape, hpair] at hatom
      cases hatom
    simp [hshape]

/-- Structural equality compares shapes. -/
theorem isAlike_iff_shape (hleft : left.IsComparable) (hright : right.IsComparable) :
    left.isAlike right = true ↔ left.shape = right.shape := by
  induction hleft generalizing right with
  | pair _ _ ihhead ihtail =>
    cases hright with
    | pair hhead htail =>
      rw [isAlike, Bool.and_eq_true, ihhead hhead, ihtail htail, shape, shape, pair.injEq]
      simp
    | _ => simp [isAlike, isPair, shape]
  | _ => exact isAlike_iff_shape_of_atom (by constructor <;> assumption) hright rfl

theorem isAlike_refl (hleft : left.IsComparable) : left.isAlike left = true :=
  (isAlike_iff_shape hleft hleft).2 rfl

theorem isAlike_comm (hleft : left.IsComparable) (hright : right.IsComparable) :
    left.isAlike right = right.isAlike left := by
  rw [Bool.eq_iff_iff, isAlike_iff_shape hleft hright, isAlike_iff_shape hright hleft]
  exact eq_comm

theorem isAlike_trans {middle : Datum} (hleft : left.IsComparable) (hmiddle : middle.IsComparable)
    (hright : right.IsComparable) (hfirst : left.isAlike middle = true)
    (hsecond : middle.isAlike right = true) : left.isAlike right = true := by
  rw [isAlike_iff_shape hleft hmiddle] at hfirst
  rw [isAlike_iff_shape hmiddle hright] at hsecond
  exact (isAlike_iff_shape hleft hright).2 (hfirst.trans hsecond)

/-! ### What a shape shows -/

theorem ctorIdx_shape (datum : Datum) : datum.shape.ctorIdx = datum.ctorIdx := by
  cases datum <;> rfl

theorem isList_shape (datum : Datum) : datum.shape.isList = datum.isList := by
  induction datum using chain_induction with
  | pair label head tail ih => exact ih
  | atom datum hatom =>
    cases datum with
    | pair => cases hatom
    | _ => rfl

theorem items_shape (datum : Datum) : datum.shape.items = datum.items.map shape := by
  induction datum using chain_induction with
  | pair label head tail ih => rw [shape, items, items, ih, List.map_cons]
  | atom datum hatom =>
    rw [items_of_isPair_eq_false hatom, items_of_isPair_eq_false (by rwa [isPair_shape]),
      List.map_nil]

/-! ### The limit of nesting -/

theorem isSame?_of_isComparable (hleft : left.IsComparable) (limit : Nat) (right : Datum) :
    left.isSame? limit right = some (left.isSame right) := by
  cases hleft <;> rfl

/-- The limited comparison has an answer if one of the values nests less deep than the limit. -/
theorem isAlike?_of_nesting_lt {limit : Nat} (hleft : left.IsComparable)
    (hdeep : left.nesting < limit ∨ right.nesting < limit) :
    left.isAlike? limit right = some (left.isAlike right) ∧
      left.isAlikeTail? limit right = some (left.isAlike right) := by
  induction hleft generalizing right limit with
  | pair _ _ ihhead ihtail =>
    have hlimit : limit ≠ 0 := by omega
    cases right with
    | pair label head tail =>
      rw [nesting, nesting] at hdeep
      have hhead := (@ihhead head (limit - 1) (by omega)).1
      have htail := (@ihtail tail limit (by omega)).2
      rw [isAlike?, if_neg hlimit, isAlikeTail?, hhead, htail, isAlike]
      split <;> simp_all
    | _ => exact ⟨if_neg hlimit, rfl⟩
  | _ =>
    have hlimit : limit ≠ 0 := by omega
    rw [isAlike?_of_isPair_eq_false rfl, isAlikeTail?_of_isPair_eq_false rfl, if_neg hlimit,
      isSame?_of_isComparable (by constructor <;> assumption), isAlike_of_isPair_eq_false rfl]
    cases right.isPair <;> exact ⟨rfl, rfl⟩

/-- What the limited comparison answers is right, and it has an answer unless both values nest as
deep as the limit. -/
theorem isAlike?_cases (hleft : left.IsComparable) (right : Datum) (limit : Nat) :
    left.isAlike? limit right = some (left.isAlike right) ∨
      left.isAlike? limit right = none ∧ limit ≤ left.nesting ∧ limit ≤ right.nesting := by
  cases hanswer : left.isAlike? limit right with
  | some answer =>
    have hlater := stable_isAlike? left right (Nat.le_max_left limit (left.nesting + 1))
      (by simp [hanswer])
    simp only [hanswer] at hlater
    rw [(isAlike?_of_nesting_lt hleft (.inl (by omega))).1] at hlater
    exact .inl hlater.symm
  | none =>
    have hdeep : ¬ (left.nesting < limit ∨ right.nesting < limit) := by
      intro hdeep
      rw [(isAlike?_of_nesting_lt hleft hdeep).1] at hanswer
      cases hanswer
    exact .inr ⟨rfl, by omega⟩

end Datum

/-! ### The procedures -/

namespace Machine

variable {left right : Datum}

theorem callBuiltin_isSame (hleft : left.IsComparable) (right : Datum) (context : Context)
    (store : Store) :
    callBuiltin context .isSame [left, right] store = .ok (.bool (left.isSame right)) store := by
  have hcall : callBuiltin context .isSame [left, right] =
      answer (left.isSame? context.limit right) := rfl
  rw [hcall, Datum.isSame?_of_isComparable hleft]
  rfl

theorem callBuiltin_isAlike (hleft : left.IsComparable) (right : Datum) (context : Context)
    (store : Store) :
    callBuiltin context .isAlike [left, right] store = .ok (.bool (left.isAlike right)) store ∨
      callBuiltin context .isAlike [left, right] store = .error .tooDeep store ∧
        context.limit ≤ left.nesting ∧ context.limit ≤ right.nesting := by
  have hcall : callBuiltin context .isAlike [left, right] =
      answer (left.isAlike? context.limit right) := rfl
  rw [hcall]
  obtain hanswer | ⟨hnone, hdeep⟩ := Datum.isAlike?_cases hleft right context.limit
  · rw [hanswer]
    exact .inl rfl
  · rw [hnone]
    exact .inr ⟨rfl, hdeep⟩

end Machine

end SmallScheme
