import SmallScheme.Datum.Equality
import SmallScheme.Evaluator.Quotation
import SmallScheme.Proofs.Datum.Written
import SmallScheme.Proofs.Machine.Outcome
/-!
# What a form denotes

Quoting turns a form into the value that it denotes: symbols into quoted names and lists of syntax
into chains of pairs. The two have the same shape, so they are printed alike, and forms that differ
denote values that differ. All syntax can be quoted if there are as many levels left as it nests.
-/

namespace SmallScheme

open Machine

namespace Datum

/-- The value has quoted names where the form has symbols, and a chain of pairs for each list. -/
inductive Denotes : Datum → Datum → Prop where
  | bool (value : Bool) : Denotes (.bool value) (.bool value)
  | num (number : Double) : Denotes (.num number) (.num number)
  | str (text : String) : Denotes (.str text) (.str text)
  | symbol (name : String) : Denotes (.symbol name) (.quoted name)
  | nil : Denotes (.form none []) .empty
  | cons {label : Label} {item head tail : Datum} {items : List Datum} (hhead : Denotes item head)
    (htail : Denotes (.form none items) tail) :
    Denotes (.form none (item :: items)) (.pair label head tail)

namespace Denotes

variable {form value other otherValue : Datum}

theorem isList {items : List Datum} (hvalue : Denotes (.form none items) value) : value.isList := by
  induction items generalizing value with
  | nil =>
    cases hvalue
    rfl
  | cons item items ih =>
    cases hvalue with
    | cons _ htail =>
      rw [Datum.isList]
      exact ih htail

theorem wellFormed (hvalue : form.Denotes value) : value.WellFormed := by
  induction hvalue with
  | cons _ htail ihhead ihtail => exact .pair ihhead ihtail htail.isList
  | _ => exact .atom rfl

theorem nesting_eq (hvalue : form.Denotes value) : value.nesting = form.nesting := by
  induction hvalue with
  | cons _ _ ihhead ihtail =>
    -- the tail nests as the form of the other elements does, which counts that form too
    rw [nesting] at ihtail
    rw [nesting, nesting, nestingOfAll, ihhead, ihtail]
    omega
  | _ => rfl

/-- The form and the value are printed alike, and so are their elements one by one. -/
theorem chars_eq (hvalue : form.Denotes value) (style : StringStyle) :
    value.chars style = form.chars style ∧
      value.items.map (chars style) = form.elements.map (chars style) := by
  induction hvalue with
  | @cons label item head tail items _ htail ihhead ihtail =>
    -- the text of the tail alone has parentheses of its own, so its elements are needed
    have hitems : (pair label head tail).items.map (chars style) =
        (item :: items).map (chars style) := by
      rw [Datum.items, List.map_cons, ihhead.1, ihtail.2]
      rfl
    refine ⟨?_, hitems⟩
    rw [chars_pair_of_isList style htail.isList, hitems, chars_form]
  | _ => exact ⟨rfl, rfl⟩

/-- What keeps the one from being printed keeps the other from it. -/
theorem printObstacle?_eq (hvalue : form.Denotes value) (bound : Nat) :
    value.printObstacle? bound = form.printObstacle? bound ∧
      itemsObstacle? bound value.items = itemsObstacle? bound form.elements := by
  induction hvalue generalizing bound with
  | @cons label item head tail items _ htail ihhead ihtail =>
    have hitems : ∀ bound, itemsObstacle? bound (pair label head tail).items =
        itemsObstacle? bound (item :: items) := by
      intro bound
      rw [Datum.items, itemsObstacle?, itemsObstacle?, (ihhead bound).1, (ihtail bound).2]
      rfl
    refine ⟨?_, hitems bound⟩
    cases bound with
    | zero => rfl
    | succ bound =>
      rw [printObstacle?_pair_of_isList bound htail.isList, hitems, printObstacle?,
        if_neg (Nat.succ_ne_zero bound), Nat.add_sub_cancel]
  | _ => exact ⟨rfl, rfl⟩

/-- Forms are equal exactly if the values are that they denote. -/
theorem same_eq (hvalue : form.Denotes value) (hother : other.Denotes otherValue) :
    value.same otherValue = form.same other := by
  induction hvalue generalizing other otherValue with
  | cons _ _ ihhead ihtail =>
    cases hother with
    | cons hotherHead hotherTail =>
      have htail := ihtail hotherTail
      rw [same] at htail
      rw [same, same, sameItems, ihhead hotherHead, htail]
    | _ => rfl
  | _ => cases hother <;> rfl

end Denotes

end Datum

/-! ### Quoting -/

/-- Elements that can be quoted give a chain that the form of them denotes. -/
theorem exists_quoteItems_eq_ok {room : Nat} {items : List Datum}
    (hitems : ∀ item ∈ items, ∀ store, ∃ value count,
      quoteDatum room item store =
          .ok value { store with nextLabel := store.nextLabel + count } ∧ item.Denotes value)
    (store : Store) :
    ∃ values count,
      quoteItems room items store =
          .ok values { store with nextLabel := store.nextLabel + count } ∧
        ∀ label, (Datum.form none items).Denotes (.chain label values .empty) := by
  induction items generalizing store with
  | nil => exact ⟨[], 0, rfl, fun _ => .nil⟩
  | cons item rest ih =>
    rw [List.forall_mem_cons] at hitems
    obtain ⟨value, count, hvalue, hdenotes⟩ := hitems.1 store
    obtain ⟨values, others, hvalues, hrest⟩ :=
      ih hitems.2 { store with nextLabel := store.nextLabel + count }
    refine ⟨value :: values, count + others, ?_, fun label => .cons hdenotes (hrest _)⟩
    rw [quoteItems, bind_of_ok hvalue, bind_of_ok hvalues, ← Nat.add_assoc]
    rfl

/-- With as many levels left as a form nests it can be quoted. -/
theorem exists_quoteDatum_eq_ok {room : Nat} {form : Datum} (hwritten : form.IsSyntax)
    (hdeep : form.nesting ≤ room) (store : Store) :
    ∃ value count,
      quoteDatum room form store =
          .ok value { store with nextLabel := store.nextLabel + count } ∧
        form.Denotes value := by
  induction hwritten generalizing room store with
  | bool value => exact ⟨_, 0, rfl, .bool value⟩
  | @num number _ => exact ⟨_, 0, rfl, .num number⟩
  | str text => exact ⟨_, 0, rfl, .str text⟩
  | @symbol name _ => exact ⟨_, 0, rfl, .symbol name⟩
  | @form items _ ih =>
    rw [Datum.nesting] at hdeep
    have hitems : ∀ item ∈ items, item.nesting ≤ room - 1 :=
      Datum.nestingOfAll_le_iff.1 (Nat.le_sub_of_add_le hdeep)
    obtain ⟨values, count, hquote, hdenotes⟩ :=
      exists_quoteItems_eq_ok (fun item hmem => ih item hmem (hitems item hmem)) store
    refine ⟨_, count + values.length, ?_, hdenotes (store.nextLabel + count)⟩
    rw [quoteDatum, if_neg (by omega), bind_of_ok hquote, listOf_eq, ← Nat.add_assoc]

mutual

/-- With fewer levels left than a form nests it is too deep to be quoted. -/
theorem exists_quoteDatum_eq_tooDeep {room : Nat} {form : Datum} (hwritten : form.IsSyntax)
    (hdeep : room < form.nesting) (store : Store) :
    ∃ count, quoteDatum room form store =
      .error .tooDeep { store with nextLabel := store.nextLabel + count } := by
  cases hwritten with
  | @form items hitems =>
    rw [quoteDatum]
    split
    · exact ⟨0, rfl⟩
    · rw [Datum.nesting] at hdeep
      have hdeeper : room - 1 < Datum.nestingOfAll items := by omega
      obtain ⟨count, hquote⟩ := exists_quoteItems_eq_tooDeep hitems hdeeper store
      exact ⟨count, bind_of_error hquote⟩
  | _ => exact absurd hdeep (Nat.not_lt_zero room)

theorem exists_quoteItems_eq_tooDeep {room : Nat} {items : List Datum}
    (hwritten : ∀ item ∈ items, item.IsSyntax) (hdeep : room < Datum.nestingOfAll items)
    (store : Store) :
    ∃ count, quoteItems room items store =
      .error .tooDeep { store with nextLabel := store.nextLabel + count } := by
  cases items with
  | nil => exact absurd hdeep (Nat.not_lt_zero room)
  | cons item rest =>
    rw [List.forall_mem_cons] at hwritten
    rw [Datum.nestingOfAll, lt_max_iff] at hdeep
    rw [quoteItems]
    -- the first element that nests too deep ends it, and those before it have taken labels
    rcases Nat.lt_or_ge room item.nesting with hfirst | hfirst
    · obtain ⟨count, hquote⟩ := exists_quoteDatum_eq_tooDeep hwritten.1 hfirst store
      exact ⟨count, bind_of_error hquote⟩
    · obtain ⟨value, count, hquote, -⟩ := exists_quoteDatum_eq_ok hwritten.1 hfirst store
      obtain ⟨others, hrest⟩ := exists_quoteItems_eq_tooDeep hwritten.2
        (hdeep.resolve_left (Nat.not_lt.2 hfirst))
        { store with nextLabel := store.nextLabel + count }
      refine ⟨count + others, ?_⟩
      rw [bind_of_ok hquote, bind_of_error hrest, ← Nat.add_assoc]

end

/-- Syntax that is quoted has room to nest, and gives what it denotes. -/
theorem denotes_of_quoteDatum {room : Nat} {form value : Datum} {store after : Store}
    (hwritten : form.IsSyntax) (hquote : quoteDatum room form store = .ok value after) :
    form.nesting ≤ room ∧ form.Denotes value := by
  rcases Nat.lt_or_ge room form.nesting with hdeep | hdeep
  · obtain ⟨_, htooDeep⟩ := exists_quoteDatum_eq_tooDeep hwritten hdeep store
    cases htooDeep.symm.trans hquote
  · obtain ⟨_, _, hok, hvalue⟩ := exists_quoteDatum_eq_ok hwritten hdeep store
    cases hok.symm.trans hquote
    exact ⟨hdeep, hvalue⟩

end SmallScheme
