import SmallScheme.Store
/-!
# The bindings of a frame

Each name has one place in a frame, in the order in which the names were first bound. A name that is
bound again keeps its place and gets the new value, so of several values the last one counts. To
bind a name in one frame leaves all other frames as they are.
-/

namespace SmallScheme

namespace Bindings

variable {name : String} {value : Datum} {bindings : Bindings}

theorem isSome_get?_iff : (bindings.get? name).isSome ↔ name ∈ bindings.map Prod.fst := by
  induction bindings with
  | nil => simp [get?]
  | cons binding rest ih =>
    rw [get?, List.map_cons, List.mem_cons]
    split
    · next heq => simp [heq]
    · next hne => rw [ih, or_iff_right (Ne.symm hne)]

/-- A name that is there keeps its place, and a new one goes last. -/
theorem names_set (name : String) (value : Datum) (bindings : Bindings) :
    (bindings.set name value).map Prod.fst =
      if name ∈ bindings.map Prod.fst then bindings.map Prod.fst
      else bindings.map Prod.fst ++ [name] := by
  induction bindings with
  | nil => rfl
  | cons binding rest ih =>
    rw [set, List.map_cons]
    by_cases heq : binding.1 = name
    · simp [heq]
    · by_cases hmem : name ∈ rest.map Prod.fst
      · rw [if_neg heq, List.map_cons, ih, if_pos hmem, if_pos (List.mem_cons_of_mem _ hmem)]
      · have hnew : name ∉ binding.1 :: rest.map Prod.fst :=
          fun hmem' => hmem ((List.mem_cons.1 hmem').resolve_left (Ne.symm heq))
        rw [if_neg heq, List.map_cons, ih, if_neg hmem, if_neg hnew, List.cons_append]

theorem mem_names_set_iff {other : String} :
    other ∈ (bindings.set name value).map Prod.fst ↔
      other = name ∨ other ∈ bindings.map Prod.fst := by
  rw [names_set]
  split
  · next hmem =>
    refine ⟨.inr, ?_⟩
    rintro (rfl | hother)
    · exact hmem
    · exact hother
  · rw [List.mem_append, List.mem_singleton, or_comm]

theorem nodup_names_set (hnodup : (bindings.map Prod.fst).Nodup) :
    ((bindings.set name value).map Prod.fst).Nodup := by
  rw [names_set]
  split
  · exact hnodup
  · next hnew =>
    refine List.nodup_append.2 ⟨hnodup, List.pairwise_singleton _ name, ?_⟩
    rintro other hother _ hmem rfl
    exact hnew (List.mem_singleton.1 hmem ▸ hother)

/-! ### Several names -/

/-- Bind names in turn. -/
def setAll (pairs : List (String × Datum)) (bindings : Bindings) : Bindings :=
  pairs.foldl (fun bindings (name, value) => bindings.set name value) bindings

theorem ofPairs_eq_setAll (pairs : List (String × Datum)) : ofPairs pairs = setAll pairs [] := rfl

variable {pairs : List (String × Datum)}

/-- Of several values for one name the last one counts. -/
theorem get?_setAll (pairs : List (String × Datum)) (bindings : Bindings) (name : String) :
    (bindings.setAll pairs).get? name = (pairs.reverse.lookup name).or (bindings.get? name) := by
  induction pairs generalizing bindings with
  | nil => rfl
  | cons pair rest ih =>
    obtain ⟨first, value⟩ := pair
    have hstep : bindings.setAll ((first, value) :: rest) =
        (bindings.set first value).setAll rest := rfl
    rw [hstep, ih, List.reverse_cons, List.lookup_append, Option.or_assoc]
    congr 1
    by_cases heq : name = first
    · subst heq
      rw [get?_set_self, List.lookup_cons, beq_self_eq_true]
      rfl
    · rw [get?_set_of_ne heq, List.lookup_cons, beq_eq_false_iff_ne.2 heq]
      rfl

theorem mem_names_setAll_iff :
    name ∈ (bindings.setAll pairs).map Prod.fst ↔
      name ∈ pairs.map Prod.fst ∨ name ∈ bindings.map Prod.fst := by
  induction pairs generalizing bindings with
  | nil => exact ⟨.inr, fun hmem => hmem.resolve_left List.not_mem_nil⟩
  | cons pair rest ih =>
    have hstep : bindings.setAll (pair :: rest) = (bindings.set pair.1 pair.2).setAll rest := rfl
    rw [hstep, ih, mem_names_set_iff, List.map_cons, List.mem_cons, or_left_comm, or_assoc]

theorem nodup_names_setAll (hnodup : (bindings.map Prod.fst).Nodup) :
    ((bindings.setAll pairs).map Prod.fst).Nodup := by
  induction pairs generalizing bindings with
  | nil => exact hnodup
  | cons pair rest ih => exact ih (nodup_names_set hnodup)

end Bindings

/-! ### The frames of a store -/

namespace Store

theorem bindings_congr {before after : Store} (hframes : after.frames = before.frames)
    (frame : FrameId) : after.bindings frame = before.bindings frame := by
  unfold bindings
  rw [hframes]

theorem bindings_define_self {store : Store} {frame : FrameId} (hframe : frame < store.frames.size)
    (name : String) (value : Datum) :
    (store.define frame name value).bindings frame = (store.bindings frame).set name value := by
  unfold bindings define
  rw [Array.getElem?_modify, if_pos rfl, Array.getElem?_eq_getElem hframe]
  rfl

theorem bindings_define_of_ne {frame other : FrameId} (hne : other ≠ frame) (store : Store)
    (name : String) (value : Datum) :
    (store.define frame name value).bindings other = store.bindings other := by
  unfold bindings define
  rw [Array.getElem?_modify, if_neg (Ne.symm hne)]

theorem outer?_define (store : Store) (frame : FrameId) (name : String) (value : Datum)
    (other : FrameId) : (store.define frame name value).outer? other = store.outer? other := by
  unfold outer? define
  rw [Array.getElem?_modify]
  by_cases hframe : frame = other
  · rw [if_pos hframe]
    cases store.frames[other]? <;> rfl
  · rw [if_neg hframe]

theorem bindings_push_of_lt {before after : Store} {frame : Frame} {other : FrameId}
    (hframes : after.frames = before.frames.push frame) (hlt : other < before.frames.size) :
    after.bindings other = before.bindings other := by
  unfold bindings
  rw [hframes, Array.getElem?_push_lt hlt, Array.getElem?_eq_getElem hlt]

/-- A name has a value in a frame afterwards, and nothing else that can be told has changed. -/
structure DefinesOnly (store after : Store) (frame : FrameId) (name : String) (value : Datum) :
    Prop where
  bound : frame < store.frames.size → (after.bindings frame).get? name = some value
  others : ∀ other key, other ≠ frame ∨ key ≠ name →
    (after.bindings other).get? key = (store.bindings other).get? key
  size : after.frames.size = store.frames.size
  outer : ∀ other, after.outer? other = store.outer? other
  promises : after.promises = store.promises
  output : after.output = store.output
  log : after.log = store.log
  opened : after.opened = store.opened

theorem definesOnly_define (store : Store) (frame : FrameId) (name : String) (value : Datum) :
    store.DefinesOnly (store.define frame name value) frame name value := by
  refine ⟨fun hframe => ?_, fun other key hother => ?_, Array.size_modify,
    store.outer?_define frame name value, rfl, rfl, rfl, rfl⟩
  · rw [bindings_define_self hframe, Bindings.get?_set_self]
  · by_cases hframe : other = frame
    · subst hframe
      have hkey : key ≠ name := hother.resolve_left fun hne => hne rfl
      unfold bindings define
      rw [Array.getElem?_modify, if_pos rfl]
      cases store.frames[other]? with
      | none => rfl
      | some found => exact Bindings.get?_set_of_ne hkey value found.bindings
    · rw [bindings_define_of_ne hframe]

end Store

end SmallScheme
