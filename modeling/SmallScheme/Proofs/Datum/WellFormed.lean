import SmallScheme.Datum.Diagnostic
import SmallScheme.Datum.Pairs
import SmallScheme.Datum.Printer
/-!
# Proper lists all the way down

`Datum.wellFormed?` looks through the heads of chains up to a limit of nesting. Whenever it has an
answer, the answer says whether the datum is `WellFormed`, and it has one for every datum that nests
less deep than the limit.
-/

namespace SmallScheme

namespace Datum

/-- Every pair in the datum belongs to a list. -/
inductive WellFormed : Datum → Prop where
  | atom {datum : Datum} (hatom : datum.isPair = false) : WellFormed datum
  | pair {label : Label} {head tail : Datum} (hhead : WellFormed head) (htail : WellFormed tail)
    (hlist : tail.isList) : WellFormed (.pair label head tail)

mutual

/-- How many lists of a printed datum stand inside one another. -/
def nesting : Datum → Nat
  | .form _ items => nestingOfAll items + 1
  | .pair _ head tail => max (head.nesting + 1) tail.nesting
  | .empty => 1
  | _ => 0

def nestingOfAll : List Datum → Nat
  | [] => 0
  | item :: rest => max item.nesting (nestingOfAll rest)

end

theorem nestingOfAll_le_iff {items : List Datum} {bound : Nat} :
    nestingOfAll items ≤ bound ↔ ∀ item ∈ items, item.nesting ≤ bound := by
  induction items with
  | nil => simp [nestingOfAll]
  | cons item rest ih => rw [nestingOfAll, Nat.max_le, ih, List.forall_mem_cons]

/-- A list nests by one level more than its elements. -/
theorem nesting_of_isList {datum : Datum} (hlist : datum.isList) :
    datum.nesting = nestingOfAll datum.items + 1 := by
  induction datum, hlist using list_induction with
  | empty => rfl
  | pair label head tail _ ih =>
    rw [nesting, ih, items, nestingOfAll]
    omega

theorem nesting_lt_of_mem_items {datum item : Datum} (hmem : item ∈ datum.items) :
    item.nesting < datum.nesting := by
  induction datum using chain_induction with
  | pair label head tail ih =>
    rw [items] at hmem
    rw [nesting]
    rcases List.mem_cons.1 hmem with rfl | hmem
    · omega
    · have := ih hmem
      omega
  | atom datum hatom =>
    rw [items_of_isPair_eq_false hatom] at hmem
    exact absurd hmem List.not_mem_nil

theorem wellFormed_iff_items {datum : Datum} (hlist : datum.isList) :
    datum.WellFormed ↔ ∀ item ∈ datum.items, item.WellFormed := by
  induction datum, hlist using list_induction with
  | empty => exact ⟨fun _ _ hmem => absurd hmem List.not_mem_nil, fun _ => .atom rfl⟩
  | pair label head tail hlist ih =>
    rw [items, List.forall_mem_cons, ← ih]
    constructor
    · rintro (hatom | ⟨hhead, htail, -⟩)
      · cases hatom
      · exact ⟨hhead, htail⟩
    · rintro ⟨hhead, htail⟩
      exact .pair hhead htail hlist

/-! ### The limited search -/

namespace wellFormed?

variable {test : Datum → Option Bool} {items : List Datum}

theorem all?_eq_some_true :
    all? test items = some true ↔ ∀ item ∈ items, test item = some true := by
  induction items with
  | nil => simp [all?]
  | cons item rest ih =>
    rw [all?, List.forall_mem_cons, ← ih]
    split <;> simp_all

theorem exists_of_all?_eq_some_false (hall : all? test items = some false) :
    ∃ item ∈ items, test item = some false := by
  induction items with
  | nil => cases hall
  | cons item rest ih =>
    rw [all?] at hall
    split at hall
    · obtain ⟨other, hmem, hother⟩ := ih hall
      exact ⟨other, List.mem_cons_of_mem item hmem, hother⟩
    · exact ⟨item, List.mem_cons_self, hall⟩

theorem all?_ne_none (hall : ∀ item ∈ items, test item ≠ none) : all? test items ≠ none := by
  induction items with
  | nil => rintro ⟨⟩
  | cons item rest ih =>
    rw [List.forall_mem_cons] at hall
    rw [all?]
    split
    · exact ih hall.2
    · exact hall.1

end wellFormed?

theorem items_of_wellFormed? {limit : Nat} {label : Label} {head tail : Datum}
    (hwell : (Datum.pair label head tail).wellFormed? (limit + 1) = some true) :
    tail.isList ∧
      ∀ item ∈ (Datum.pair label head tail).items, item.wellFormed? limit = some true := by
  rw [wellFormed?] at hwell
  simp only [isPair, Bool.not_true, Bool.false_eq_true, ↓reduceIte] at hwell
  split at hwell
  · cases hwell
  · next hlist => exact ⟨by simpa [isList] using hlist, wellFormed?.all?_eq_some_true.1 hwell⟩

/-- The answer of the limited search is right. -/
theorem wellFormed_iff_of_wellFormed? {limit : Nat} {datum : Datum} {answer : Bool}
    (hanswer : datum.wellFormed? limit = some answer) : datum.WellFormed ↔ answer = true := by
  induction limit generalizing datum answer with
  | zero => cases hanswer
  | succ limit ih =>
    rw [wellFormed?] at hanswer
    split at hanswer
    · next hatom =>
      cases hanswer
      exact ⟨fun _ => rfl, fun _ => .atom (by simpa using hatom)⟩
    · next hpair =>
      split at hanswer
      · next hlist =>
        cases hanswer
        refine ⟨?_, by rintro ⟨⟩⟩
        rintro (hatom | ⟨-, -, htail⟩)
        · simp [hatom] at hpair
        · exact absurd htail (by simpa [isList] using hlist)
      · next hlist =>
        rw [wellFormed_iff_items (by simpa using hlist)]
        cases answer with
        | true =>
          have hall := wellFormed?.all?_eq_some_true.1 hanswer
          exact ⟨fun _ => rfl, fun _ item hmem => (ih (hall item hmem)).2 rfl⟩
        | false =>
          obtain ⟨item, hmem, hitem⟩ := wellFormed?.exists_of_all?_eq_some_false hanswer
          exact ⟨fun hall => (ih hitem).1 (hall item hmem), by rintro ⟨⟩⟩

/-- A datum that nests less deep than the limit has an answer. -/
theorem wellFormed?_ne_none {limit : Nat} {datum : Datum} (hdeep : datum.nesting < limit) :
    datum.wellFormed? limit ≠ none := by
  induction limit generalizing datum with
  | zero => exact absurd hdeep (Nat.not_lt_zero _)
  | succ limit ih =>
    rw [wellFormed?]
    split
    · rintro ⟨⟩
    · split
      · rintro ⟨⟩
      · refine wellFormed?.all?_ne_none fun item hmem => ih ?_
        have := nesting_lt_of_mem_items hmem
        omega

theorem wellFormed?_of_wellFormed {limit : Nat} {datum : Datum} (hwell : datum.WellFormed)
    (hdeep : datum.nesting < limit) : datum.wellFormed? limit = some true := by
  obtain ⟨answer, hanswer⟩ := Option.ne_none_iff_exists'.1 (wellFormed?_ne_none hdeep)
  rw [hanswer, (wellFormed_iff_of_wellFormed? hanswer).1 hwell]

/-! ### The text of a list -/

theorem itemsObstacle?_eq_none {limit : Nat} {items : List Datum} :
    itemsObstacle? limit items = none ↔ ∀ item ∈ items, item.printObstacle? limit = none := by
  induction items with
  | nil => simp [itemsObstacle?]
  | cons item rest ih =>
    rw [itemsObstacle?, List.forall_mem_cons, ← ih, Option.orElse_eq_orElse, Option.orElse_eq_or,
      Option.or_eq_none_iff]

theorem tailObstacle?_of_isList (limit : Nat) {tail : Datum} (hlist : tail.isList) :
    tail.tailObstacle? limit = itemsObstacle? limit tail.items := by
  induction tail, hlist using list_induction with
  | empty => rw [tailObstacle?, items_empty, itemsObstacle?]
  | pair label head tail _ ih => rw [tailObstacle?, items, itemsObstacle?, ih]

/-- A list is printed if its elements are. -/
theorem printObstacle?_pair_of_isList (limit : Nat) {label : Label} {head tail : Datum}
    (hlist : tail.isList) :
    (Datum.pair label head tail).printObstacle? (limit + 1) =
      itemsObstacle? limit (Datum.pair label head tail).items := by
  rw [printObstacle?, if_neg (Nat.succ_ne_zero limit), tailObstacle?_of_isList _ hlist, items,
    itemsObstacle?, Nat.add_sub_cancel]

theorem tailChars_of_isList (style : StringStyle) {tail : Datum} (hlist : tail.isList) :
    tail.tailChars style = (tail.items.map (chars style)).flatMap (' ' :: ·) := by
  induction tail, hlist using list_induction with
  | empty => simp [tailChars, items]
  | pair label head tail _ ih =>
    rw [tailChars, items, List.map_cons, List.flatMap_cons, ih]
    rfl

/-- A list is printed as its elements in parentheses, with spaces between them. -/
theorem chars_pair_of_isList (style : StringStyle) {label : Label} {head tail : Datum}
    (hlist : tail.isList) :
    (Datum.pair label head tail).chars style =
      '(' :: (joinChars [' '] ((Datum.pair label head tail).items.map (chars style)) ++ [')']) := by
  rw [chars, items, List.map_cons, joinChars_cons, tailChars_of_isList style hlist,
    List.append_assoc]
  rfl

/-- A form is printed as the list of its elements is. -/
theorem chars_form (style : StringStyle) (label : Option Label) (items : List Datum) :
    (Datum.form label items).chars style =
      '(' :: (joinChars [' '] (items.map (chars style)) ++ [')']) := by
  have hitems : itemsChars style items = joinChars [' '] (items.map (chars style)) := by
    induction items with
    | nil => rfl
    | cons item rest ih =>
      cases rest with
      | nil => simp [itemsChars, joinChars]
      | cons next rest =>
        rw [itemsChars, ih]
        · exact (List.append_assoc _ [' '] _).symm
        · simp
  rw [chars, hitems]

end Datum

end SmallScheme
