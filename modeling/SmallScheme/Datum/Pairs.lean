import SmallScheme.Datum.Basic
/-!
# Chains of pairs

A list is a chain of pairs whose last tail is the empty list; a chain that ends in anything else is
improper. `chain` builds one, `items` and `ending` take it apart again. What holds of chains is
shown by `chain_induction`, which treats all ends alike, and of lists by `list_induction`.
-/

namespace SmallScheme

namespace Datum

/-- The chain of the given heads and ending, with labels counted up from the given one. -/
def chain (label : Label) : List Datum → Datum → Datum
  | [], ending => ending
  | head :: heads, ending => .pair label head (chain (label + 1) heads ending)

def items : Datum → List Datum
  | .pair _ head tail => head :: tail.items
  | _ => []

/-- What a chain ends in; anything that is no pair ends in itself. -/
def ending : Datum → Datum
  | .pair _ _ tail => tail.ending
  | datum => datum

def isList : Datum → Bool
  | .pair _ _ tail => tail.isList
  | .empty => true
  | _ => false

theorem items_empty : items .empty = [] := rfl

theorem items_of_isPair_eq_false {datum : Datum} (atom : datum.isPair = false) :
    datum.items = [] := by
  cases datum with
  | pair => cases atom
  | _ => rfl

theorem ending_of_isPair_eq_false {datum : Datum} (atom : datum.isPair = false) :
    datum.ending = datum := by
  cases datum with
  | pair => cases atom
  | _ => rfl

theorem isList_of_isPair_eq_false {datum : Datum} (atom : datum.isPair = false) :
    datum.isList = datum.isEmpty := by
  cases datum with
  | pair => cases atom
  | _ => rfl

/-- A datum is a pair in front of a shorter chain, or it is no pair. -/
@[elab_as_elim]
theorem chain_induction {motive : Datum → Prop}
    (pair : ∀ label head tail, motive tail → motive (.pair label head tail))
    (atom : ∀ datum : Datum, datum.isPair = false → motive datum) (datum : Datum) :
    motive datum := by
  induction datum using ending.induct with
  | case1 label head tail hypothesis => exact pair label head tail hypothesis
  | case2 datum not_pair =>
    refine atom datum ?_
    cases datum with
    | pair label head tail => exact absurd rfl (not_pair label head tail)
    | _ => rfl

/-- A list is empty, or a pair in front of a list. -/
@[elab_as_elim]
theorem list_induction {motive : (datum : Datum) → datum.isList → Prop}
    (empty : motive .empty rfl)
    (pair : ∀ label head tail (list : isList tail), motive tail list →
      motive (.pair label head tail) list)
    (datum : Datum) (list : datum.isList) : motive datum list := by
  induction datum using chain_induction with
  | pair label head tail hypothesis => exact pair label head tail list (hypothesis list)
  | atom datum atom =>
    cases datum with
    | pair => cases atom
    | empty => exact empty
    | _ => cases list

theorem isList_eq_isEmpty_ending (datum : Datum) : datum.isList = datum.ending.isEmpty := by
  induction datum using chain_induction with
  | pair label head tail hypothesis => rw [isList, ending, hypothesis]
  | atom datum atom => rw [isList_of_isPair_eq_false atom, ending_of_isPair_eq_false atom]

/-- A chain holds the heads it was built from, before those of its ending. -/
theorem items_chain (label : Label) (heads : List Datum) (ending : Datum) :
    (chain label heads ending).items = heads ++ ending.items := by
  induction heads generalizing label with
  | nil => rfl
  | cons head heads hypothesis => simp [chain, items, hypothesis]

theorem items_chain_empty (label : Label) (heads : List Datum) :
    (chain label heads .empty).items = heads := by
  rw [items_chain, items_empty, List.append_nil]

/-- A chain that is built in front of another one ends as that does. -/
theorem ending_chain (label : Label) (heads : List Datum) (ending : Datum) :
    (chain label heads ending).ending = ending.ending := by
  induction heads generalizing label with
  | nil => rfl
  | cons head heads hypothesis => simp [chain, Datum.ending, hypothesis]

theorem isList_chain (label : Label) (heads : List Datum) (ending : Datum) :
    (chain label heads ending).isList = ending.isList := by
  induction heads generalizing label with
  | nil => rfl
  | cons head heads hypothesis => simp [chain, isList, hypothesis]

/-- Whether every pair in the datum belongs to a list, looked up to a limited depth of nesting;
there is no answer when the search goes deeper. The search stops at the first chain that is
improper. The limit counts the lists inside one another, not the calls that a host makes for
each. -/
def wellFormed? : Nat → Datum → Option Bool
  | 0, _ => none
  | limit + 1, datum =>
    if !datum.isPair then some true
    else if !datum.isList then some false
    else all? (wellFormed? limit) datum.items
where
  /-- The conjunction of the answers, up to the first that is false or missing. -/
  all? (test : Datum → Option Bool) : List Datum → Option Bool
    | [] => some true
    | item :: rest =>
      match test item with
      | some true => all? test rest
      | answer => answer

end Datum

end SmallScheme
