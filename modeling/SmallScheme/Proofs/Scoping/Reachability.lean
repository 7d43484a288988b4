import SmallScheme.Proofs.Comparison.Scope
/-!
# What can be reached in a store

From a frame its outer frame can be reached and whatever its bindings refer to, and from a promise
what its value refers to or, as long as it has none, its expression and frame. A scope is closed if
nothing in it refers to anything outside; then all that is reached from inside is inside, and the
store can be changed there without an end to this.
-/

namespace SmallScheme

def Frame.InScope (scope : Reference → Prop) (frame : Frame) : Prop :=
  frame.bindings.InScope scope ∧ ∀ outer ∈ frame.outer, scope (.frame outer)

theorem Bindings.InScope.set {scope : Reference → Prop} {bindings : Bindings}
    (hbindings : bindings.InScope scope) (name : String) {value : Datum}
    (hvalue : value.InScope scope) : (bindings.set name value).InScope scope :=
  Bindings.forall_mem_set hbindings name hvalue

namespace Store

inductive Reaches (store : Store) (roots : Reference → Prop) : Reference → Prop where
  | root {reference : Reference} (hroot : roots reference) : Reaches store roots reference
  | outer {id outer : FrameId} {frame : Frame} (hid : Reaches store roots (.frame id))
    (hframe : store.frames[id]? = some frame) (houter : frame.outer = some outer) :
    Reaches store roots (.frame outer)
  | binding {id : FrameId} {frame : Frame} {binding : String × Datum} {reference : Reference}
    (hid : Reaches store roots (.frame id)) (hframe : store.frames[id]? = some frame)
    (hmem : binding ∈ frame.bindings) (hrefers : binding.2.RefersTo reference) :
    Reaches store roots reference
  | value {id : PromiseId} {value : Datum} {reference : Reference}
    (hid : Reaches store roots (.promise id)) (hforced : store.promises[id]? = some (.forced value))
    (hrefers : value.RefersTo reference) : Reaches store roots reference
  | expression {id : PromiseId} {expression : Datum} {frame : FrameId} {reference : Reference}
    (hid : Reaches store roots (.promise id))
    (hpending : store.promises[id]? = some (.pending expression frame))
    (hrefers : expression.RefersTo reference) : Reaches store roots reference
  | captured {id : PromiseId} {expression : Datum} {frame : FrameId}
    (hid : Reaches store roots (.promise id))
    (hpending : store.promises[id]? = some (.pending expression frame)) :
    Reaches store roots (.frame frame)

/-! ### Closed scopes -/

/-- What is in the scope refers to nothing outside, and what the store has not got yet is in it. -/
structure IsClosed (store : Store) (scope : Reference → Prop) : Prop where
  frames : ∀ ⦃id : FrameId⦄ ⦃frame : Frame⦄, scope (.frame id) → store.frames[id]? = some frame →
    frame.InScope scope
  promises : ∀ ⦃id : PromiseId⦄ ⦃promise : Promise⦄, scope (.promise id) →
    store.promises[id]? = some promise → promise.InScope scope
  newFrames : ∀ ⦃id : FrameId⦄, store.frames.size ≤ id → scope (.frame id)
  newPromises : ∀ ⦃id : PromiseId⦄, store.promises.size ≤ id → scope (.promise id)

/-- What is reached in the store, and what it does not have yet. -/
def IsReachedOrNew (store : Store) (roots : Reference → Prop) : Reference → Prop
  | .frame id => store.Reaches roots (.frame id) ∨ store.frames.size ≤ id
  | .promise id => store.Reaches roots (.promise id) ∨ store.promises.size ≤ id

variable {store after : Store} {roots scope : Reference → Prop}

theorem Reaches.isReachedOrNew {reference : Reference} (hreaches : store.Reaches roots reference) :
    store.IsReachedOrNew roots reference := by
  cases reference with
  | frame id => exact .inl hreaches
  | promise id => exact .inl hreaches

theorem isClosed_isReachedOrNew (store : Store) (roots : Reference → Prop) :
    store.IsClosed (store.IsReachedOrNew roots) where
  frames := by
    intro id frame hid hframe
    have hlt := (Array.getElem?_eq_some_iff.1 hframe).1
    have hreaches := hid.resolve_right (Nat.not_le_of_lt hlt)
    refine ⟨fun binding hmem reference hrefers => ?_, fun outer houter => ?_⟩
    · exact (hreaches.binding hframe hmem hrefers).isReachedOrNew
    · exact .inl (hreaches.outer hframe houter)
  promises := by
    intro id promise hid hpromise
    have hlt := (Array.getElem?_eq_some_iff.1 hpromise).1
    have hreaches := hid.resolve_right (Nat.not_le_of_lt hlt)
    cases promise with
    | pending expression frame =>
      refine ⟨fun reference hrefers => ?_, .inl (hreaches.captured hpromise)⟩
      exact (hreaches.expression hpromise hrefers).isReachedOrNew
    | forced value =>
      exact fun reference hrefers => (hreaches.value hpromise hrefers).isReachedOrNew
  newFrames := fun _ => .inr
  newPromises := fun _ => .inr

namespace IsClosed

/-- Nothing outside is reached from inside. -/
theorem of_reaches (hclosed : store.IsClosed scope) (hroots : ∀ reference, roots reference →
    scope reference) {reference : Reference} (hreaches : store.Reaches roots reference) :
    scope reference := by
  induction hreaches with
  | root hroot => exact hroots _ hroot
  | outer _ hframe houter ih => exact (hclosed.frames ih hframe).2 _ houter
  | binding _ hframe hmem hrefers ih => exact (hclosed.frames ih hframe).1 _ hmem hrefers
  | value _ hforced hrefers ih => exact hclosed.promises ih hforced hrefers
  | expression _ hpending hrefers ih => exact (hclosed.promises ih hpending).1 hrefers
  | captured _ hpending ih => exact (hclosed.promises ih hpending).2

theorem of_eq (hclosed : store.IsClosed scope) (hframes : after.frames = store.frames)
    (hpromises : after.promises = store.promises) : after.IsClosed scope where
  frames := hframes ▸ hclosed.frames
  promises := hpromises ▸ hclosed.promises
  newFrames := hframes ▸ hclosed.newFrames
  newPromises := hpromises ▸ hclosed.newPromises

theorem define (hclosed : store.IsClosed scope) (frame : FrameId) (name : String) {value : Datum}
    (hvalue : value.InScope scope) : (store.define frame name value).IsClosed scope where
  frames := by
    intro id found hid hfound
    rw [Store.define, Array.getElem?_modify] at hfound
    split at hfound
    · obtain ⟨earlier, hearlier, rfl⟩ := Option.map_eq_some_iff.1 hfound
      have hframe := hclosed.frames hid hearlier
      exact ⟨hframe.1.set name hvalue, hframe.2⟩
    · exact hclosed.frames hid hfound
  promises := hclosed.promises
  newFrames := fun id hid => hclosed.newFrames (by rwa [Store.define, Array.size_modify] at hid)
  newPromises := hclosed.newPromises

theorem pushFrame (hclosed : store.IsClosed scope) {frame : Frame} (hframe : frame.InScope scope) :
    (store.pushFrame frame).2.IsClosed scope where
  frames := by
    intro id found hid hfound
    rw [Store.pushFrame, Array.getElem?_push] at hfound
    split at hfound
    · cases hfound
      exact hframe
    · exact hclosed.frames hid hfound
  promises := hclosed.promises
  newFrames := by
    intro id hid
    rw [Store.pushFrame, Array.size_push] at hid
    exact hclosed.newFrames (Nat.le_of_lt hid)
  newPromises := hclosed.newPromises

theorem pushPromise (hclosed : store.IsClosed scope) {promise : Promise}
    (hpromise : promise.InScope scope) : (store.pushPromise promise).2.IsClosed scope where
  frames := hclosed.frames
  promises := by
    intro id found hid hfound
    rw [Store.pushPromise, Array.getElem?_push] at hfound
    split at hfound
    · cases hfound
      exact hpromise
    · exact hclosed.promises hid hfound
  newFrames := hclosed.newFrames
  newPromises := by
    intro id hid
    rw [Store.pushPromise, Array.size_push] at hid
    exact hclosed.newPromises (Nat.le_of_lt hid)

theorem settlePromise (hclosed : store.IsClosed scope) (id : PromiseId) {value : Datum}
    (hvalue : value.InScope scope) : (store.settlePromise id value).IsClosed scope where
  frames := hclosed.frames
  promises := by
    intro other found hother hfound
    rw [Store.settlePromise, Array.getElem?_modify] at hfound
    split at hfound
    · obtain ⟨earlier, -, rfl⟩ := Option.map_eq_some_iff.1 hfound
      exact hvalue
    · exact hclosed.promises hother hfound
  newFrames := hclosed.newFrames
  newPromises := by
    intro other hother
    rw [Store.settlePromise, Array.size_modify] at hother
    exact hclosed.newPromises hother

end IsClosed

/-! ### Stores that agree on some frames -/

/-- The stores are the same but for the bindings of frames that are not visible. -/
structure AgreesOn (visible : FrameId → Prop) (left right : Store) : Prop where
  rest : right = { left with frames := right.frames }
  outers : right.frames.map Frame.outer = left.frames.map Frame.outer
  frames : ∀ ⦃id : FrameId⦄, visible id → right.frames[id]? = left.frames[id]?

namespace AgreesOn

variable {visible visible' : FrameId → Prop} {left right : Store}

theorem mono (hagrees : left.AgreesOn visible right) (himplies : ∀ id, visible' id → visible id) :
    left.AgreesOn visible' right :=
  ⟨hagrees.rest, hagrees.outers, fun id hid => hagrees.frames (himplies id hid)⟩

theorem size_eq (hagrees : left.AgreesOn visible right) :
    right.frames.size = left.frames.size := by
  simpa only [Array.size_map] using congrArg Array.size hagrees.outers

theorem promises_eq (hagrees : left.AgreesOn visible right) :
    right.promises = left.promises := by
  rw [hagrees.rest]

/-- What leaves the frames alone and does not look at them keeps the stores in agreement. -/
theorem of_change (hagrees : left.AgreesOn visible right) (change : Store → Store)
    (hframes : ∀ store, (change store).frames = store.frames)
    (hchange : ∀ store frames, change { store with frames } = { change store with frames }) :
    (change left).AgreesOn visible (change right) where
  rest := by
    rw [hframes, ← hchange, ← hagrees.rest]
  outers := by rw [hframes, hframes, hagrees.outers]
  frames := fun id hid => by rw [hframes, hframes, hagrees.frames hid]

theorem define (hagrees : left.AgreesOn visible right) (frame : FrameId) (name : String)
    (value : Datum) : (left.define frame name value).AgreesOn visible
      (right.define frame name value) where
  rest := by
    rw [hagrees.rest]
    rfl
  outers := by
    have houters : ∀ store : Store, (store.define frame name value).frames.map Frame.outer =
        store.frames.map Frame.outer := by
      intro store
      refine Array.ext_getElem? fun id => ?_
      rw [Store.define, Array.getElem?_map, Array.getElem?_map, Array.getElem?_modify]
      split
      · rw [Option.map_map]
        rfl
      · rfl
    rw [houters, houters, hagrees.outers]
  frames := by
    intro id hid
    rw [Store.define, Store.define, Array.getElem?_modify, Array.getElem?_modify,
      hagrees.frames hid]

theorem pushFrame (hagrees : left.AgreesOn visible right) (frame : Frame) :
    (left.pushFrame frame).2.AgreesOn visible (right.pushFrame frame).2 where
  rest := by
    rw [hagrees.rest]
    rfl
  outers := by
    rw [Store.pushFrame, Store.pushFrame, Array.map_push, Array.map_push, hagrees.outers]
  frames := by
    intro id hid
    rw [Store.pushFrame, Store.pushFrame, Array.getElem?_push, Array.getElem?_push,
      hagrees.size_eq, hagrees.frames hid]

theorem pushPromise (hagrees : left.AgreesOn visible right) (promise : Promise) :
    (left.pushPromise promise).2.AgreesOn visible (right.pushPromise promise).2 :=
  hagrees.of_change (fun store => (store.pushPromise promise).2) (fun _ => rfl) fun _ _ => rfl

theorem settlePromise (hagrees : left.AgreesOn visible right) (id : PromiseId) (value : Datum) :
    (left.settlePromise id value).AgreesOn visible (right.settlePromise id value) :=
  hagrees.of_change (fun store => store.settlePromise id value) (fun _ => rfl) fun _ _ => rfl

theorem bindings_eq (hagrees : left.AgreesOn visible right) {id : FrameId} (hid : visible id) :
    right.bindings id = left.bindings id := by
  rw [bindings, bindings, hagrees.frames hid]

theorem outer?_eq (hagrees : left.AgreesOn visible right) {id : FrameId} (hid : visible id) :
    right.outer? id = left.outer? id := by
  rw [outer?, outer?, hagrees.frames hid]

/-- From a frame in a closed scope, a name is found in the same frame, which is in the scope. -/
theorem find?_eq (hclosed : left.IsClosed scope)
    (hagrees : left.AgreesOn (fun id => scope (.frame id)) right) {frame : FrameId}
    (hframe : scope (.frame frame)) (name : String) :
    right.find? name frame = left.find? name frame ∧
      ∀ found ∈ left.find? name frame, scope (.frame found) := by
  fun_induction left.find? name frame with
  | case1 frame value hbound =>
    rw [find?, hagrees.bindings_eq hframe, hbound]
    exact ⟨rfl, by rintro _ ⟨⟩; exact hframe⟩
  | case2 frame hunbound outer houter hlt ih =>
    have hscope : scope (.frame outer) := by
      rw [outer?] at houter
      split at houter
      · next found hfound => exact (hclosed.frames hframe hfound).2 outer houter
      · cases houter
    rw [find?.eq_def right, hagrees.bindings_eq hframe, hunbound, hagrees.outer?_eq hframe, houter]
    simp only [if_pos hlt]
    exact ih hscope
  | case3 frame hunbound outer houter hge =>
    rw [find?.eq_def right, hagrees.bindings_eq hframe, hunbound, hagrees.outer?_eq hframe, houter]
    simp only [if_neg hge]
    exact ⟨trivial, by rintro _ ⟨⟩⟩
  | case4 frame hunbound houter =>
    rw [find?.eq_def right, hagrees.bindings_eq hframe, hunbound, hagrees.outer?_eq hframe, houter]
    exact ⟨rfl, by rintro _ ⟨⟩⟩

theorem lookup?_eq (hclosed : left.IsClosed scope)
    (hagrees : left.AgreesOn (fun id => scope (.frame id)) right) {frame : FrameId}
    (hframe : scope (.frame frame)) (name : String) :
    right.lookup? name frame = left.lookup? name frame ∧
      ∀ value ∈ left.lookup? name frame, value.InScope scope := by
  obtain ⟨heq, hscope⟩ := find?_eq hclosed hagrees hframe name
  rw [lookup?, lookup?, heq]
  cases hfound : left.find? name frame with
  | none => exact ⟨rfl, by rintro _ ⟨⟩⟩
  | some found =>
    have hin := hscope found hfound
    refine ⟨congrArg (Bindings.get? name) (hagrees.bindings_eq hin), fun value hvalue => ?_⟩
    have hbindings : (left.bindings found).InScope scope := by
      rw [bindings]
      split
      · next frame hframe => exact (hclosed.frames hin hframe).1
      · exact fun _ hmem => absurd hmem List.not_mem_nil
    exact Bindings.good_of_get? hbindings hvalue

end AgreesOn

end Store

end SmallScheme
