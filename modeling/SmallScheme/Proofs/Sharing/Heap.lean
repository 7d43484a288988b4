import SmallScheme.Proofs.Soundness.Builtins
/-!
# Cells and heaps

A pair or a closure is a cell of its own, and its label tells which one. That a label tells so much
is a property of the stores that evaluations leave: there is one heap, in which each label stands
for at most one cell, and in which everything lives that the store holds.
-/

namespace SmallScheme

/-- What the labels stand for, as far as they stand for anything. -/
abbrev Heap := Label → Option Datum

namespace Heap

def empty : Heap := fun _ => none

/-- Every label that stands for a cell goes on to stand for it. -/
def Extends (before after : Heap) : Prop :=
  ∀ ⦃label : Label⦄ ⦃cell : Datum⦄, before label = some cell → after label = some cell

variable {before after last heap : Heap}

theorem Extends.refl (heap : Heap) : heap.Extends heap := fun _ _ hcell => hcell

theorem Extends.trans (hleft : before.Extends after) (hright : after.Extends last) :
    before.Extends last :=
  fun _ _ hcell => hright (hleft hcell)

theorem extends_update {label : Label} (hnone : heap label = none) (cell : Datum) :
    heap.Extends (Function.update heap label (some cell)) := by
  intro other found hfound
  have hne : other ≠ label := by
    rintro rfl
    rw [hnone] at hfound
    cases hfound
  rw [Function.update_of_ne hne, hfound]

end Heap

namespace Datum

def label? : Datum → Option Label
  | .pair label .. | .closure label .. => some label
  | _ => none

mutual

/-- The pairs and closures that occur in a datum. -/
def cells : Datum → List Datum
  | .form _ items => cellsOfAll items
  | .pair label head tail => .pair label head tail :: (head.cells ++ tail.cells)
  | .closure label name formals body frame =>
    .closure label name formals body frame :: cellsOfAll body
  | _ => []

def cellsOfAll : List Datum → List Datum
  | [] => []
  | item :: rest => item.cells ++ cellsOfAll rest

end

/-- Every cell in the datum is the one that its label stands for. -/
def LivesIn (heap : Heap) (datum : Datum) : Prop :=
  ∀ cell ∈ datum.cells, cell.label?.bind heap = some cell

variable {heap later : Heap}

theorem LivesIn.mono {datum : Datum} (hlives : datum.LivesIn heap) (hextends : heap.Extends later) :
    datum.LivesIn later := by
  intro cell hmem
  obtain ⟨label, hlabel, hcell⟩ := Option.bind_eq_some_iff.1 (hlives cell hmem)
  exact Option.bind_eq_some_iff.2 ⟨label, hlabel, hextends hcell⟩

theorem forall_mem_cellsOfAll {items : List Datum} :
    (∀ cell ∈ cellsOfAll items, cell.label?.bind heap = some cell) ↔
      ∀ item ∈ items, item.LivesIn heap := by
  induction items with
  | nil => simp [cellsOfAll]
  | cons item rest ih =>
    rw [cellsOfAll, List.forall_mem_append, List.forall_mem_cons, ih]
    rfl

@[simp] theorem livesIn_form {label : Option Label} {items : List Datum} :
    (form label items).LivesIn heap ↔ ∀ item ∈ items, item.LivesIn heap := by
  rw [LivesIn, cells, forall_mem_cellsOfAll]

@[simp] theorem livesIn_pair {label : Label} {head tail : Datum} :
    (pair label head tail).LivesIn heap ↔
      heap label = some (.pair label head tail) ∧ head.LivesIn heap ∧ tail.LivesIn heap := by
  rw [LivesIn, cells, List.forall_mem_cons, List.forall_mem_append]
  rfl

@[simp] theorem livesIn_closure {label : Label} {name : Option String} {formals : Formals}
    {body : List Datum} {frame : FrameId} :
    (closure label name formals body frame).LivesIn heap ↔
      heap label = some (.closure label name formals body frame) ∧
        ∀ form ∈ body, form.LivesIn heap := by
  rw [LivesIn, cells, List.forall_mem_cons, forall_mem_cellsOfAll]
  rfl

/-! ### Data without cells -/

theorem livesIn_of_cells_eq_nil {datum : Datum} (hcells : datum.cells = []) :
    datum.LivesIn heap := by
  rw [LivesIn, hcells]
  exact fun _ hmem => absurd hmem List.not_mem_nil

theorem IsSyntax.livesIn {datum : Datum} (hwritten : datum.IsSyntax) : datum.LivesIn heap := by
  induction hwritten with
  | form _ ih => exact livesIn_form.2 ih
  | _ => exact livesIn_of_cells_eq_nil rfl

/-! ### Lists and bodies -/

theorem LivesIn.of_mem_items {datum item : Datum} (hlives : datum.LivesIn heap)
    (hmem : item ∈ datum.items) : item.LivesIn heap := by
  induction datum using chain_induction with
  | pair label head tail ih =>
    rw [livesIn_pair] at hlives
    rcases List.mem_cons.1 hmem with rfl | hmem
    · exact hlives.2.1
    · exact ih hlives.2.2 hmem
  | atom datum hatom =>
    rw [items_of_isPair_eq_false hatom] at hmem
    exact absurd hmem List.not_mem_nil

theorem livesIn_ofBody {body : List Datum} (hbody : ∀ form ∈ body, form.LivesIn heap) :
    (ofBody body).LivesIn heap := by
  match body with
  | [] => exact livesIn_of_cells_eq_nil rfl
  | [expression] => exact hbody expression List.mem_cons_self
  | first :: second :: rest =>
    exact livesIn_form.2 (List.forall_mem_cons.2 ⟨livesIn_of_cells_eq_nil rfl, hbody⟩)

/-- The cells of a new chain get the labels counted up from its first one. -/
theorem exists_livesIn_chain {label : Label} {heads : List Datum} {ending : Datum}
    (hfresh : ∀ other ≥ label, heap other = none) (hheads : ∀ head ∈ heads, head.LivesIn heap)
    (hending : ending.LivesIn heap) :
    ∃ later, heap.Extends later ∧ (∀ other < label, later other = heap other) ∧
      (∀ other ≥ label + heads.length, later other = none) ∧
        (chain label heads ending).LivesIn later := by
  induction heads generalizing label with
  | nil => exact ⟨heap, .refl heap, fun _ _ => rfl, hfresh, hending⟩
  | cons head rest ih =>
    rw [List.forall_mem_cons] at hheads
    have hfresh' : ∀ other ≥ label + 1, heap other = none :=
      fun other hle => hfresh other (Nat.le_of_succ_le hle)
    obtain ⟨between, hextends, hbelow, habove, hrest⟩ := ih hfresh' hheads.2
    have hnone : between label = none := by
      rw [hbelow label (Nat.lt_succ_self label), hfresh label (Nat.le_refl label)]
    have hlater := Heap.extends_update hnone (chain label (head :: rest) ending)
    refine ⟨_, hextends.trans hlater, fun other hlt => ?_, fun other hle => ?_, ?_⟩
    · rw [Function.update_of_ne (Nat.ne_of_lt hlt), hbelow other (Nat.lt_succ_of_lt hlt)]
    · have hnext : label + 1 + rest.length ≤ other := by
        rw [Nat.add_right_comm]
        exact hle
      have hlt : label < other := Nat.lt_of_lt_of_le (Nat.lt_add_right _ (Nat.lt_succ_self _)) hnext
      rw [Function.update_of_ne (Nat.ne_of_gt hlt), habove other hnext]
    · exact livesIn_pair.2 ⟨Function.update_self .., hheads.1.mono (hextends.trans hlater),
        hrest.mono hlater⟩

end Datum

/-! ### Stores -/

def Promise.LivesIn (heap : Heap) : Promise → Prop
  | .pending expression _ => expression.LivesIn heap
  | .forced value => value.LivesIn heap

/-- Everything that the store holds lives in the heap, and the labels that it can still give out
stand for nothing. -/
structure Store.LivesIn (heap : Heap) (store : Store) : Prop where
  fresh : ∀ label ≥ store.nextLabel, heap label = none
  frames : ∀ {id : FrameId} {frame : Frame}, store.frames[id]? = some frame →
    ∀ binding ∈ frame.bindings, binding.2.LivesIn heap
  promises : ∀ {id : PromiseId} {promise : Promise}, store.promises[id]? = some promise →
    promise.LivesIn heap

theorem Promise.LivesIn.mono {heap later : Heap} {promise : Promise}
    (hlives : promise.LivesIn heap) (hextends : heap.Extends later) : promise.LivesIn later := by
  cases promise with
  | pending => exact Datum.LivesIn.mono hlives hextends
  | forced => exact Datum.LivesIn.mono hlives hextends

namespace Store.LivesIn

variable {heap later : Heap} {before after store : Store}

theorem of_eq (hlives : before.LivesIn heap) (hextends : heap.Extends later)
    (hfresh : ∀ label ≥ after.nextLabel, later label = none)
    (hframes : after.frames = before.frames) (hpromises : after.promises = before.promises) :
    after.LivesIn later where
  fresh := hfresh
  frames := fun hframe binding hmem =>
    (hlives.frames (hframes ▸ hframe) binding hmem).mono hextends
  promises := fun hpromise => (hlives.promises (hpromises ▸ hpromise)).mono hextends

theorem define (hlives : store.LivesIn heap) (frame : FrameId) (name : String) {value : Datum}
    (hvalue : value.LivesIn heap) : (store.define frame name value).LivesIn heap where
  fresh := hlives.fresh
  frames := by
    intro id found hfound
    rw [Store.define, Array.getElem?_modify] at hfound
    split at hfound
    · obtain ⟨earlier, hearlier, rfl⟩ := Option.map_eq_some_iff.1 hfound
      exact Bindings.forall_mem_set (hlives.frames hearlier) name hvalue
    · exact hlives.frames hfound
  promises := hlives.promises

theorem pushFrame (hlives : store.LivesIn heap) {frame : Frame}
    (hbindings : ∀ binding ∈ frame.bindings, binding.2.LivesIn heap) :
    (store.pushFrame frame).2.LivesIn heap where
  fresh := hlives.fresh
  frames := by
    intro id found hfound
    rw [Store.pushFrame, Array.getElem?_push] at hfound
    split at hfound
    · cases hfound
      exact hbindings
    · exact hlives.frames hfound
  promises := hlives.promises

theorem pushPromise (hlives : store.LivesIn heap) {promise : Promise}
    (hpromise : promise.LivesIn heap) : (store.pushPromise promise).2.LivesIn heap where
  fresh := hlives.fresh
  frames := hlives.frames
  promises := by
    intro id found hfound
    rw [Store.pushPromise, Array.getElem?_push] at hfound
    split at hfound
    · cases hfound
      exact hpromise
    · exact hlives.promises hfound

theorem settlePromise (hlives : store.LivesIn heap) (id : PromiseId) {value : Datum}
    (hvalue : value.LivesIn heap) : (store.settlePromise id value).LivesIn heap where
  fresh := hlives.fresh
  frames := hlives.frames
  promises := by
    intro other found hfound
    rw [Store.settlePromise, Array.getElem?_modify] at hfound
    split at hfound
    · obtain ⟨earlier, -, rfl⟩ := Option.map_eq_some_iff.1 hfound
      exact hvalue
    · exact hlives.promises hfound

/-- The value of a name lives where the store does. -/
theorem of_lookup? (hlives : store.LivesIn heap) {name : String} {frame : FrameId} {value : Datum}
    (hlookup : store.lookup? name frame = some value) : value.LivesIn heap := by
  rw [lookup?] at hlookup
  split at hlookup
  · rw [bindings] at hlookup
    split at hlookup
    · next hframe => exact Bindings.good_of_get? (hlives.frames hframe) hlookup
    · cases hlookup
  · cases hlookup

end Store.LivesIn

end SmallScheme
