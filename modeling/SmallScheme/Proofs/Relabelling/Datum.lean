import SmallScheme.Datum.Equality
import SmallScheme.Datum.Printer
/-!
# Labels are only names

Labels tell pairs, procedures and foreign values apart and mean nothing else. Moving all labels from
some point on up by the same number keeps what is the same apart from what is not, and changes no
text and no shape of any datum.
-/

namespace SmallScheme

/-- The labels from `start` on are moved up by `count`. -/
structure Shift where
  start : Label
  count : Nat

namespace Shift

/-- The label that takes the place of another. -/
def apply (shift : Shift) (label : Label) : Label :=
  if label < shift.start then label else label + shift.count

variable {shift : Shift}

theorem apply_of_lt {label : Label} (hlt : label < shift.start) : shift.apply label = label :=
  if_pos hlt

theorem apply_of_le {label : Label} (hle : shift.start ≤ label) :
    shift.apply label = label + shift.count :=
  if_neg (Nat.not_lt.2 hle)

theorem apply_add {label : Label} (hle : shift.start ≤ label) (number : Nat) :
    shift.apply (label + number) = shift.apply label + number := by
  rw [apply_of_le hle, apply_of_le (Nat.le_add_right_of_le hle), Nat.add_right_comm]

theorem apply_injective {left right : Label} (heq : shift.apply left = shift.apply right) :
    left = right := by
  rcases Nat.lt_or_ge left shift.start with hleft | hleft <;>
    rcases Nat.lt_or_ge right shift.start with hright | hright
  · rwa [apply_of_lt hleft, apply_of_lt hright] at heq
  · rw [apply_of_lt hleft, apply_of_le hright] at heq
    exact absurd (heq ▸ hleft) (Nat.not_lt.2 (Nat.le_add_right_of_le hright))
  · rw [apply_of_le hleft, apply_of_lt hright] at heq
    exact absurd (heq ▸ hright) (Nat.not_lt.2 (Nat.le_add_right_of_le hleft))
  · rw [apply_of_le hleft, apply_of_le hright] at heq
    exact Nat.add_right_cancel heq

@[simp] theorem apply_beq (left right : Label) :
    (shift.apply left == shift.apply right) = (left == right) := by
  rw [Bool.eq_iff_iff, beq_iff_eq, beq_iff_eq]
  exact ⟨apply_injective, congrArg shift.apply⟩

def zero : Shift := ⟨0, 0⟩

theorem apply_zero (label : Label) : zero.apply label = label :=
  apply_of_le (Nat.zero_le label)

end Shift

namespace Datum

mutual

/-- The datum with its labels moved. -/
def relabel (shift : Shift) : Datum → Datum
  | .form label items => .form (label.map shift.apply) (relabelAll shift items)
  | .pair label head tail => .pair (shift.apply label) (head.relabel shift) (tail.relabel shift)
  | .closure label name formals body frame =>
    .closure (shift.apply label) name formals (relabelAll shift body) frame
  | .foreign label text => .foreign (shift.apply label) text
  | atom => atom

def relabelAll (shift : Shift) : List Datum → List Datum
  | [] => []
  | item :: rest => item.relabel shift :: relabelAll shift rest

end

variable (shift : Shift)

theorem relabelAll_eq_map (items : List Datum) :
    relabelAll shift items = items.map (relabel shift) := by
  induction items with
  | nil => rfl
  | cons item rest ih => rw [relabelAll, ih, List.map_cons]

mutual

@[simp] theorem relabel_zero : ∀ datum : Datum, datum.relabel .zero = datum
  | .form label items => by
    rw [relabel, relabelAll_zero items, funext Shift.apply_zero, Option.map_id']
  | .pair label head tail => by
    rw [relabel, relabel_zero head, relabel_zero tail, Shift.apply_zero]
  | .closure label _ _ body _ => by rw [relabel, relabelAll_zero body, Shift.apply_zero]
  | .foreign label _ => by rw [relabel, Shift.apply_zero]
  | .absent | .bool _ | .num _ | .int _ | .str _ | .symbol _ | .quoted _ | .empty | .unspecified
  | .builtin _ | .promise _ => rfl

theorem relabelAll_zero : ∀ items : List Datum, relabelAll .zero items = items
  | [] => rfl
  | item :: rest => by rw [relabelAll, relabel_zero item, relabelAll_zero rest]

end

/-! ### Shapes -/

@[simp] theorem isTrue_relabel (datum : Datum) : (datum.relabel shift).isTrue = datum.isTrue := by
  cases datum with
  | form label items => cases items <;> rfl
  | _ => rfl

@[simp] theorem isPair_relabel (datum : Datum) : (datum.relabel shift).isPair = datum.isPair := by
  cases datum <;> rfl

@[simp] theorem isNumber_relabel (datum : Datum) :
    (datum.relabel shift).isNumber = datum.isNumber := by
  cases datum <;> rfl

@[simp] theorem isSymbol_relabel (datum : Datum) :
    (datum.relabel shift).isSymbol = datum.isSymbol := by
  cases datum <;> rfl

@[simp] theorem isString_relabel (datum : Datum) :
    (datum.relabel shift).isString = datum.isString := by
  cases datum <;> rfl

@[simp] theorem isBoolean_relabel (datum : Datum) :
    (datum.relabel shift).isBoolean = datum.isBoolean := by
  cases datum <;> rfl

@[simp] theorem isEmpty_relabel (datum : Datum) :
    (datum.relabel shift).isEmpty = datum.isEmpty := by
  cases datum <;> rfl

@[simp] theorem isProcedure_relabel (datum : Datum) :
    (datum.relabel shift).isProcedure = datum.isProcedure := by
  cases datum <;> rfl

@[simp] theorem isList_relabel (datum : Datum) : (datum.relabel shift).isList = datum.isList := by
  induction datum using chain_induction with
  | pair label head tail ih => exact ih
  | atom datum hatom =>
    rw [isList_of_isPair_eq_false hatom, isList_of_isPair_eq_false (by rwa [isPair_relabel]),
      isEmpty_relabel]

@[simp] theorem items_relabel (datum : Datum) :
    (datum.relabel shift).items = datum.items.map (relabel shift) := by
  induction datum using chain_induction with
  | pair label head tail ih => rw [relabel, items, items, List.map_cons, ih]
  | atom datum hatom =>
    rw [items_of_isPair_eq_false hatom, items_of_isPair_eq_false (by rwa [isPair_relabel]),
      List.map_nil]

theorem chain_relabel {shift : Shift} {label : Label} (hle : shift.start ≤ label)
    (heads : List Datum) (ending : Datum) :
    (chain label heads ending).relabel shift =
      chain (shift.apply label) (heads.map (relabel shift)) (ending.relabel shift) := by
  induction heads generalizing label with
  | nil => rfl
  | cons head heads ih =>
    rw [chain, relabel, ih (Nat.le_add_right_of_le hle), Shift.apply_add hle, List.map_cons, chain]

theorem ofBody_relabel (body : List Datum) :
    (ofBody body).relabel shift = ofBody (body.map (relabel shift)) := by
  match body with
  | [] => rfl
  | [expression] => rfl
  | first :: second :: rest =>
    change (Datum.form none (.keyword .begin :: first :: second :: rest)).relabel shift = _
    rw [relabel, relabelAll_eq_map]
    rfl

theorem all?_map {test : Datum → Option Bool} (hitems : ∀ item : Datum,
    test (item.relabel shift) = test item) (items : List Datum) :
    wellFormed?.all? test (items.map (relabel shift)) = wellFormed?.all? test items := by
  induction items with
  | nil => rfl
  | cons item rest ih => rw [List.map_cons, wellFormed?.all?, wellFormed?.all?, hitems, ih]

@[simp] theorem wellFormed?_relabel (limit : Nat) (datum : Datum) :
    (datum.relabel shift).wellFormed? limit = datum.wellFormed? limit := by
  induction limit generalizing datum with
  | zero => rfl
  | succ limit ih =>
    rw [wellFormed?, wellFormed?, isPair_relabel, isList_relabel, items_relabel,
      all?_map shift ih]

/-! ### Texts -/

mutual

@[simp] theorem chars_relabel (style : StringStyle) :
    ∀ datum : Datum, (datum.relabel shift).chars style = datum.chars style
  | .form label items => by rw [relabel, chars, chars, itemsChars_relabel style items]
  | .pair label head tail => by
    rw [relabel, chars, chars, chars_relabel style head, tailChars_relabel style tail]
  | .absent | .bool _ | .num _ | .int _ | .str _ | .symbol _ | .quoted _ | .empty | .unspecified
  | .builtin _ | .closure .. | .promise _ | .foreign .. => rfl

theorem itemsChars_relabel (style : StringStyle) :
    ∀ items : List Datum, itemsChars style (relabelAll shift items) = itemsChars style items
  | [] => rfl
  | [item] => by simp only [relabelAll, itemsChars, chars_relabel style item]
  | item :: next :: rest => by
    change (item.relabel shift).chars style ++
        ' ' :: itemsChars style (relabelAll shift (next :: rest)) =
      item.chars style ++ ' ' :: itemsChars style (next :: rest)
    rw [chars_relabel style item, itemsChars_relabel style (next :: rest)]

theorem tailChars_relabel (style : StringStyle) :
    ∀ datum : Datum, (datum.relabel shift).tailChars style = datum.tailChars style
  | .form label items => by rw [relabel, tailChars, tailChars, itemsChars_relabel style items]
  | .pair label head tail => by
    rw [relabel, tailChars, tailChars, chars_relabel style head, tailChars_relabel style tail]
  | .absent | .bool _ | .num _ | .int _ | .str _ | .symbol _ | .quoted _ | .empty | .unspecified
  | .builtin _ | .closure .. | .promise _ | .foreign .. => rfl

end

@[simp] theorem source_relabel (datum : Datum) : (datum.relabel shift).source = datum.source := by
  rw [source, source, chars_relabel]

@[simp] theorem display_relabel (datum : Datum) :
    (datum.relabel shift).display = datum.display := by
  rw [display, display, chars_relabel]

mutual

theorem diagnosticChars_relabel :
    ∀ datum : Datum, (datum.relabel shift).diagnosticChars = datum.diagnosticChars
  | .form label items => by
    rw [relabel, diagnosticChars, diagnosticChars, diagnosticItems_relabel items]
  | .pair label head tail => by
    rw [relabel, diagnosticChars, diagnosticChars, diagnosticChars_relabel head,
      diagnosticChars_relabel tail]
  | .absent | .bool _ | .num _ | .int _ | .str _ | .symbol _ | .quoted _ | .empty | .unspecified
  | .builtin _ | .closure .. | .promise _ | .foreign .. => rfl

theorem diagnosticItems_relabel :
    ∀ items : List Datum, diagnosticItems (relabelAll shift items) = diagnosticItems items
  | [] => rfl
  | [item] => by simp only [relabelAll, diagnosticItems, diagnosticChars_relabel item]
  | item :: next :: rest => by
    change (item.relabel shift).diagnosticChars ++ [',', ' '] ++
        diagnosticItems (relabelAll shift (next :: rest)) =
      item.diagnosticChars ++ [',', ' '] ++ diagnosticItems (next :: rest)
    rw [diagnosticChars_relabel item, diagnosticItems_relabel (next :: rest)]

end

@[simp] theorem diagnostic_relabel (datum : Datum) :
    (datum.relabel shift).diagnostic = datum.diagnostic := by
  rw [diagnostic, diagnostic, diagnosticChars_relabel]

mutual

@[simp] theorem isTooDeepToDiagnose_relabel (limit : Nat) :
    ∀ datum : Datum,
      (datum.relabel shift).isTooDeepToDiagnose limit = datum.isTooDeepToDiagnose limit
  | .form label items => by
    rw [relabel, isTooDeepToDiagnose, isTooDeepToDiagnose, anyTooDeepToDiagnose_relabel _ items]
  | .pair label head tail => by
    rw [relabel, isTooDeepToDiagnose, isTooDeepToDiagnose, isTooDeepToDiagnose_relabel _ head,
      isTooDeepToDiagnose_relabel _ tail]
  | .absent | .bool _ | .num _ | .int _ | .str _ | .symbol _ | .quoted _ | .empty | .unspecified
  | .builtin _ | .closure .. | .promise _ | .foreign .. => rfl

theorem anyTooDeepToDiagnose_relabel (limit : Nat) :
    ∀ items : List Datum,
      anyTooDeepToDiagnose limit (relabelAll shift items) = anyTooDeepToDiagnose limit items
  | [] => rfl
  | item :: rest => by
    rw [relabelAll, anyTooDeepToDiagnose, anyTooDeepToDiagnose, isTooDeepToDiagnose_relabel _ item,
      anyTooDeepToDiagnose_relabel _ rest]

end

mutual

@[simp] theorem printObstacle?_relabel (limit : Nat) :
    ∀ datum : Datum, (datum.relabel shift).printObstacle? limit = datum.printObstacle? limit
  | .form label items => by
    rw [relabel, printObstacle?, printObstacle?, itemsObstacle?_relabel _ items]
  | .pair label head tail => by
    rw [relabel, printObstacle?, printObstacle?, printObstacle?_relabel _ head,
      tailObstacle?_relabel _ tail]
  | .absent | .bool _ | .num _ | .int _ | .str _ | .symbol _ | .quoted _ | .empty | .unspecified
  | .builtin _ | .closure .. | .promise _ | .foreign .. => rfl

theorem itemsObstacle?_relabel (limit : Nat) :
    ∀ items : List Datum, itemsObstacle? limit (relabelAll shift items) = itemsObstacle? limit items
  | [] => rfl
  | item :: rest => by
    rw [relabelAll, itemsObstacle?, itemsObstacle?, printObstacle?_relabel _ item,
      itemsObstacle?_relabel _ rest]

theorem tailObstacle?_relabel (limit : Nat) :
    ∀ datum : Datum, (datum.relabel shift).tailObstacle? limit = datum.tailObstacle? limit
  | .form label items => by
    rw [relabel, tailObstacle?, tailObstacle?, itemsObstacle?_relabel _ items]
  | .pair label head tail => by
    rw [relabel, tailObstacle?, tailObstacle?, printObstacle?_relabel _ head,
      tailObstacle?_relabel _ tail]
  | .absent | .bool _ | .num _ | .int _ | .str _ | .symbol _ | .quoted _ | .empty | .unspecified
  | .builtin _ | .closure .. | .promise _ | .foreign .. => rfl

end

/-! ### Equality -/

theorem sameAtom_relabel (left right : Datum) :
    (left.relabel shift).sameAtom (right.relabel shift) = left.sameAtom right := by
  cases left with
  | closure =>
    cases right with
    | closure => exact Shift.apply_beq _ _
    | _ => rfl
  | «foreign» =>
    cases right with
    | «foreign» => exact Shift.apply_beq _ _
    | _ => rfl
  | _ => cases right <;> rfl

mutual

@[simp] theorem same_relabel :
    ∀ left right : Datum, (left.relabel shift).same (right.relabel shift) = left.same right
  | .form _ left, right => by
    cases right with
    | form _ right => exact sameItems_relabel left right
    | _ => rfl
  | .pair _ leftHead leftTail, right => by
    cases right with
    | pair _ rightHead rightTail =>
      rw [relabel, relabel, same, same, same_relabel leftHead rightHead,
        same_relabel leftTail rightTail]
    | _ => rfl
  | .absent, right | .bool _, right | .num _, right | .int _, right | .str _, right
  | .symbol _, right | .quoted _, right | .empty, right | .unspecified, right | .builtin _, right
  | .closure .., right | .promise _, right | .foreign .., right => sameAtom_relabel shift _ right

theorem sameItems_relabel :
    ∀ left right : List Datum,
      sameItems (relabelAll shift left) (relabelAll shift right) = sameItems left right
  | [], [] => rfl
  | [], _ :: _ => rfl
  | _ :: _, [] => rfl
  | left :: leftRest, right :: rightRest => by
    rw [relabelAll, relabelAll, sameItems, sameItems, same_relabel left right,
      sameItems_relabel leftRest rightRest]

end

theorem length_relabelAll (items : List Datum) :
    (relabelAll shift items).length = items.length := by
  rw [relabelAll_eq_map, List.length_map]

mutual

theorem comparesTooDeep_relabel (limit : Nat) :
    ∀ left right : Datum,
      (left.relabel shift).comparesTooDeep limit (right.relabel shift) =
        left.comparesTooDeep limit right
  | .form _ left, right => by
    cases right with
    | form _ right =>
      rw [relabel, relabel, comparesTooDeep, comparesTooDeep,
        itemsCompareTooDeep_relabel _ left right, length_relabelAll, length_relabelAll]
    | _ => rfl
  | .pair _ leftHead leftTail, right => by
    cases right with
    | pair _ rightHead rightTail =>
      rw [relabel, relabel, comparesTooDeep, comparesTooDeep, same_relabel,
        comparesTooDeep_relabel _ leftHead rightHead, comparesTooDeep_relabel _ leftTail rightTail]
    | _ => rfl
  | .absent, right | .bool _, right | .num _, right | .int _, right | .str _, right
  | .symbol _, right | .quoted _, right | .empty, right | .unspecified, right | .builtin _, right
  | .closure .., right | .promise _, right | .foreign .., right => by cases right <;> rfl

theorem itemsCompareTooDeep_relabel (limit : Nat) :
    ∀ left right : List Datum,
      itemsCompareTooDeep limit (relabelAll shift left) (relabelAll shift right) =
        itemsCompareTooDeep limit left right
  | [], [] => rfl
  | [], _ :: _ => rfl
  | _ :: _, [] => rfl
  | left :: leftRest, right :: rightRest => by
    rw [relabelAll, relabelAll, itemsCompareTooDeep, itemsCompareTooDeep, same_relabel,
      comparesTooDeep_relabel _ left right, itemsCompareTooDeep_relabel _ leftRest rightRest]

end

theorem isOneForm_relabel (left right : Datum) :
    (left.relabel shift).isOneForm (right.relabel shift) = left.isOneForm right := by
  cases left with
  | form left _ =>
    cases left with
    | none => rfl
    | some left =>
      cases right with
      | form right _ =>
        cases right with
        | none => rfl
        | some right => exact Shift.apply_beq left right
      | _ => rfl
  | _ => rfl

theorem sameKind_relabel (left right : Datum) :
    (left.relabel shift).sameKind (right.relabel shift) = left.sameKind right := by
  cases left <;> cases right <;> rfl

theorem isSame_eq_ite (left right : Datum) :
    left.isSame right =
      if left.identity? = none ∧ right.identity? = none then
        left.isOneForm right || (left.sameKind right && left.same right)
      else left.identity? == right.identity? := by
  unfold isSame
  cases left.identity? <;> cases right.identity? <;> simp

/-- Moving labels keeps identity and difference. -/
@[simp] theorem isSame_relabel (left right : Datum) :
    (left.relabel shift).isSame (right.relabel shift) = left.isSame right := by
  have hnone : ∀ datum : Datum,
      (datum.relabel shift).identity? = none ↔ datum.identity? = none := by
    intro datum
    cases datum <;> simp [relabel, identity?]
  have hbeq : ((left.relabel shift).identity? == (right.relabel shift).identity?) =
      (left.identity? == right.identity?) := by
    have hcell : ∀ first second : Label,
        (some (Identity.cell (shift.apply first)) == some (Identity.cell (shift.apply second))) =
          (some (Identity.cell first) == some (Identity.cell second)) := by
      intro first second
      rw [Bool.eq_iff_iff, beq_iff_eq, beq_iff_eq, Option.some_inj, Option.some_inj,
        Identity.cell.injEq, Identity.cell.injEq]
      exact ⟨Shift.apply_injective, congrArg shift.apply⟩
    cases left with
    | pair | closure =>
      cases right with
      | pair | closure => exact hcell _ _
      | _ => rfl
    | _ => cases right <;> rfl
  rw [isSame_eq_ite, isSame_eq_ite, isOneForm_relabel, sameKind_relabel, same_relabel, hbeq]
  simp only [hnone]

@[simp] theorem isSame?_relabel (limit : Nat) (left right : Datum) :
    (left.relabel shift).isSame? limit (right.relabel shift) = left.isSame? limit right := by
  cases left with
  | form leftLabel leftItems =>
    cases right with
    | form rightLabel rightItems =>
      have hone := isOneForm_relabel shift (.form leftLabel leftItems) (.form rightLabel rightItems)
      have hdeep := comparesTooDeep_relabel shift limit (.form leftLabel leftItems)
        (.form rightLabel rightItems)
      have hsame := isSame_relabel shift (.form leftLabel leftItems) (.form rightLabel rightItems)
      simp only [relabel] at hone hdeep hsame ⊢
      rw [isSame?, isSame?, hone, hdeep, hsame]
    | _ => exact congrArg some (isSame_relabel shift (.form leftLabel leftItems) _)
  | _ => exact congrArg some (isSame_relabel shift _ right)

theorem isAlike?_of_isPair_eq_false {left : Datum} (hatom : left.isPair = false) (limit : Nat)
    (right : Datum) :
    left.isAlike? limit right =
      if limit = 0 then none
      else if right.isPair then some false
      else left.isSame? limit right := by
  cases left with
  | pair => cases hatom
  | _ => rw [isAlike?]; simp

theorem isAlikeTail?_of_isPair_eq_false {left : Datum} (hatom : left.isPair = false) (limit : Nat)
    (right : Datum) :
    left.isAlikeTail? limit right =
      if right.isPair then some false else left.isSame? limit right := by
  cases left with
  | pair => cases hatom
  | _ => cases right <;> simp [isAlikeTail?, isPair]

mutual

@[simp] theorem isAlike?_relabel (limit : Nat) :
    ∀ left right : Datum,
      (left.relabel shift).isAlike? limit (right.relabel shift) = left.isAlike? limit right
  | .pair leftLabel leftHead leftTail, right => by
    cases right with
    | pair rightLabel rightHead rightTail =>
      rw [relabel, relabel, isAlike?, isAlike?, isAlike?_relabel _ leftHead rightHead,
        isAlikeTail?_relabel _ leftTail rightTail]
    | _ => rfl
  | .absent, right | .bool _, right | .num _, right | .int _, right | .str _, right
  | .symbol _, right | .quoted _, right | .empty, right | .unspecified, right | .builtin _, right
  | .closure .., right | .promise _, right | .foreign .., right | .form .., right => by
    rw [isAlike?_of_isPair_eq_false rfl, isAlike?_of_isPair_eq_false rfl, isPair_relabel,
      isSame?_relabel]

theorem isAlikeTail?_relabel (limit : Nat) :
    ∀ left right : Datum,
      (left.relabel shift).isAlikeTail? limit (right.relabel shift) = left.isAlikeTail? limit right
  | .pair leftLabel leftHead leftTail, right => by
    cases right with
    | pair rightLabel rightHead rightTail =>
      rw [relabel, relabel, isAlikeTail?, isAlikeTail?, isAlike?_relabel _ leftHead rightHead,
        isAlikeTail?_relabel _ leftTail rightTail]
    | _ => rfl
  | .absent, right | .bool _, right | .num _, right | .int _, right | .str _, right
  | .symbol _, right | .quoted _, right | .empty, right | .unspecified, right | .builtin _, right
  | .closure .., right | .promise _, right | .foreign .., right | .form .., right => by
    rw [isAlikeTail?_of_isPair_eq_false rfl, isAlikeTail?_of_isPair_eq_false rfl, isPair_relabel,
      isSame?_relabel]

end

end Datum

end SmallScheme
