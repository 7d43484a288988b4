import SmallScheme.Machine
import SmallScheme.Proofs.Reader.Syntax
/-!
# Sound stores

What a store may hold: values in its frames and forced promises, syntax in the promises still to be
forced, and no reference to a frame or promise that is not there. A store grows by extension, which
keeps every value a value.
-/

namespace SmallScheme

/-! ### Extension -/

/-- What may become of a promise: it can only be forced, and only once. -/
inductive Promise.Settles : Promise → Promise → Prop where
  | same (promise : Promise) : Settles promise promise
  | forced (expression : Datum) (frame : FrameId) (value : Datum) :
    Settles (.pending expression frame) (.forced value)

/-- What may become of a frame: names are added behind those there, and names get new values. -/
structure Frame.Extends (before after : Frame) : Prop where
  outer : after.outer = before.outer
  names : before.bindings.map Prod.fst <+: after.bindings.map Prod.fst

/-- The second store has everything that the first one has. -/
structure Store.Extends (before after : Store) : Prop where
  labels : before.nextLabel ≤ after.nextLabel
  frames : ∀ {id : FrameId} {frame : Frame}, before.frames[id]? = some frame →
    ∃ later, after.frames[id]? = some later ∧ frame.Extends later
  promises : ∀ {id : PromiseId} {promise : Promise}, before.promises[id]? = some promise →
    ∃ later, after.promises[id]? = some later ∧ promise.Settles later

theorem Promise.Settles.trans {first second third : Promise} (hleft : first.Settles second)
    (hright : second.Settles third) : first.Settles third := by
  cases hleft with
  | same => exact hright
  | forced expression frame value =>
    cases hright
    exact .forced expression frame value

theorem Frame.Extends.refl (frame : Frame) : frame.Extends frame :=
  ⟨rfl, List.prefix_refl _⟩

theorem Frame.Extends.trans {first second third : Frame} (hleft : first.Extends second)
    (hright : second.Extends third) : first.Extends third :=
  ⟨hright.outer.trans hleft.outer, hleft.names.trans hright.names⟩

theorem Bindings.names_prefix_set (name : String) (value : Datum) (bindings : Bindings) :
    bindings.map Prod.fst <+: (bindings.set name value).map Prod.fst := by
  induction bindings with
  | nil => exact List.nil_prefix
  | cons binding rest ih =>
    rw [Bindings.set]
    split
    · next heq =>
      have hnames : (binding :: rest).map Prod.fst = ((name, value) :: rest).map Prod.fst := by
        rw [List.map_cons, List.map_cons, heq]
      exact hnames ▸ List.prefix_refl _
    · exact (List.prefix_cons_inj _).2 ih

namespace Store

variable {before after store : Store}

namespace Extends

theorem refl (store : Store) : store.Extends store where
  labels := Nat.le_refl _
  frames := fun hframe => ⟨_, hframe, .refl _⟩
  promises := fun hpromise => ⟨_, hpromise, .same _⟩

theorem trans {last : Store} (hleft : before.Extends after) (hright : after.Extends last) :
    before.Extends last where
  labels := Nat.le_trans hleft.labels hright.labels
  frames := by
    intro id frame hframe
    obtain ⟨middle, hmiddle, hextends⟩ := hleft.frames hframe
    obtain ⟨later, hlater, hextends'⟩ := hright.frames hmiddle
    exact ⟨later, hlater, hextends.trans hextends'⟩
  promises := by
    intro id promise hpromise
    obtain ⟨middle, hmiddle, hsettles⟩ := hleft.promises hpromise
    obtain ⟨later, hlater, hsettles'⟩ := hright.promises hmiddle
    exact ⟨later, hlater, hsettles.trans hsettles'⟩

theorem frame_lt (hextends : before.Extends after) {id : FrameId}
    (hid : id < before.frames.size) : id < after.frames.size := by
  obtain ⟨later, hlater, -⟩ := hextends.frames (Array.getElem?_eq_getElem hid)
  exact (Array.getElem?_eq_some_iff.1 hlater).1

theorem promise_lt (hextends : before.Extends after) {id : PromiseId}
    (hid : id < before.promises.size) : id < after.promises.size := by
  obtain ⟨later, hlater, -⟩ := hextends.promises (Array.getElem?_eq_getElem hid)
  exact (Array.getElem?_eq_some_iff.1 hlater).1

end Extends

/-- Labels may be given out, and traces left. -/
theorem extends_of_eq (hlabels : before.nextLabel ≤ after.nextLabel)
    (hframes : after.frames = before.frames) (hpromises : after.promises = before.promises) :
    before.Extends after where
  labels := hlabels
  frames := fun hframe => ⟨_, hframes ▸ hframe, .refl _⟩
  promises := fun hpromise => ⟨_, hpromises ▸ hpromise, .same _⟩

theorem extends_define (store : Store) (frame : FrameId) (name : String) (value : Datum) :
    store.Extends (store.define frame name value) where
  labels := Nat.le_refl _
  frames := by
    intro id found hfound
    rw [define, Array.getElem?_modify, hfound]
    split
    · exact ⟨_, rfl, rfl, found.bindings.names_prefix_set name value⟩
    · exact ⟨_, rfl, .refl _⟩
  promises := fun hpromise => ⟨_, hpromise, .same _⟩

theorem extends_pushFrame (store : Store) (frame : Frame) :
    store.Extends (store.pushFrame frame).2 where
  labels := Nat.le_refl _
  frames := by
    intro id found hfound
    have hlt := (Array.getElem?_eq_some_iff.1 hfound).1
    rw [pushFrame, Array.getElem?_push, if_neg (Nat.ne_of_lt hlt)]
    exact ⟨_, hfound, .refl _⟩
  promises := fun hpromise => ⟨_, hpromise, .same _⟩

theorem extends_pushPromise (store : Store) (promise : Promise) :
    store.Extends (store.pushPromise promise).2 where
  labels := Nat.le_refl _
  frames := fun hframe => ⟨_, hframe, .refl _⟩
  promises := by
    intro id found hfound
    have hlt := (Array.getElem?_eq_some_iff.1 hfound).1
    rw [pushPromise, Array.getElem?_push, if_neg (Nat.ne_of_lt hlt)]
    exact ⟨_, hfound, .same _⟩

/-- A promise that is not forced yet may be. -/
theorem extends_settlePromise {id : PromiseId}
    (hpending : ∀ earlier, store.promises[id]? ≠ some (.forced earlier)) (value : Datum) :
    store.Extends (store.settlePromise id value) where
  labels := Nat.le_refl _
  frames := fun hframe => ⟨_, hframe, .refl _⟩
  promises := by
    intro other found hfound
    rw [settlePromise, Array.getElem?_modify, hfound]
    split
    · next heq =>
      subst heq
      cases found with
      | pending expression frame => exact ⟨_, rfl, .forced expression frame value⟩
      | forced earlier => exact absurd hfound (hpending earlier)
    · exact ⟨_, rfl, .same _⟩

end Store

/-! ### Values -/

/-- The names that parameters bind. -/
def Formals.names : Formals → List String
  | .fixed names => names
  | .rest name => [name]

namespace Datum

/-- The datum is what an evaluation may end with in the store: an atom that is no symbol, a pair of
values, or a procedure or promise whose parts the store holds. -/
inductive IsValue (store : Store) : Datum → Prop where
  | bool (value : Bool) : IsValue store (.bool value)
  | num (number : Double) : IsValue store (.num number)
  | str (text : String) : IsValue store (.str text)
  | quoted {name : String} (hname : IsIdentifier name) : IsValue store (.quoted name)
  | empty : IsValue store .empty
  | unspecified : IsValue store .unspecified
  | pair {label : Label} {head tail : Datum} (hlabel : label < store.nextLabel)
    (hhead : IsValue store head) (htail : IsValue store tail) :
    IsValue store (.pair label head tail)
  | builtin (procedure : Builtin) : IsValue store (.builtin procedure)
  | closure {label : Label} {name : Option String} {formals : Formals} {body : List Datum}
    {frame : FrameId} (hlabel : label < store.nextLabel)
    (hname : ∀ text ∈ name, IsIdentifier text)
    (hformals : ∀ formal ∈ formals.names, IsIdentifier formal)
    (hbody : ∀ form ∈ body, form.IsSyntax) (hframe : frame < store.frames.size) :
    IsValue store (.closure label name formals body frame)
  | promise {id : PromiseId} (hid : id < store.promises.size) : IsValue store (.promise id)

/-- The datum is what an evaluation may start with in the store: syntax, a value, the application of
one value to others, or the conditional that clauses stand for. -/
inductive IsExpression (store : Store) : Datum → Prop where
  | source {datum : Datum} (hwritten : datum.IsSyntax) : IsExpression store datum
  | value {datum : Datum} (hvalue : datum.IsValue store) : IsExpression store datum
  | application {items : List Datum} (hitems : ∀ item ∈ items, item.IsValue store) :
    IsExpression store (.form none items)
  | branch {test consequent alternative : Datum} (htest : IsExpression store test)
    (hconsequent : IsExpression store consequent)
    (halternative : IsExpression store alternative) :
    IsExpression store (.form none [keyword .branch, test, consequent, alternative])

variable {before after : Store} {datum : Datum}

theorem IsValue.mono (hvalue : datum.IsValue before) (hextends : before.Extends after) :
    datum.IsValue after := by
  induction hvalue with
  | bool value => exact .bool value
  | num number => exact .num number
  | str text => exact .str text
  | quoted hname => exact .quoted hname
  | empty => exact .empty
  | unspecified => exact .unspecified
  | pair hlabel _ _ ihhead ihtail =>
    exact .pair (Nat.lt_of_lt_of_le hlabel hextends.labels) ihhead ihtail
  | builtin procedure => exact .builtin procedure
  | closure hlabel hname hformals hbody hframe =>
    exact .closure (Nat.lt_of_lt_of_le hlabel hextends.labels) hname hformals hbody
      (hextends.frame_lt hframe)
  | promise hid => exact .promise (hextends.promise_lt hid)

theorem IsExpression.mono (hexpression : datum.IsExpression before)
    (hextends : before.Extends after) : datum.IsExpression after := by
  induction hexpression with
  | source hwritten => exact .source hwritten
  | value hvalue => exact .value (hvalue.mono hextends)
  | application hitems => exact .application fun item hmem => (hitems item hmem).mono hextends
  | branch _ _ _ ihtest ihconsequent ihalternative =>
    exact .branch ihtest ihconsequent ihalternative

theorem IsValue.of_mem_items {store : Store} {item : Datum} (hvalue : datum.IsValue store)
    (hmem : item ∈ datum.items) : item.IsValue store := by
  induction hvalue with
  | pair _ hhead _ _ ih =>
    rcases List.mem_cons.1 hmem with rfl | hmem
    · exact hhead
    · exact ih hmem
  | _ => exact absurd hmem List.not_mem_nil

end Datum

/-! ### Soundness -/

/-- What a promise holds is fit to be evaluated in its frame, or is a value. -/
def Promise.IsSound (store : Store) : Promise → Prop
  | .pending expression frame => expression.IsSyntax ∧ frame < store.frames.size
  | .forced value => value.IsValue store

/-- The names of the frame are bound to values, and the frame is younger than the one around it. -/
structure Frame.IsSound (store : Store) (id : FrameId) (frame : Frame) : Prop where
  bindings : ∀ binding ∈ frame.bindings, binding.2.IsValue store
  outer : ∀ outer ∈ frame.outer, outer < id

/-- The store has its first frame, and all that it holds is sound. -/
structure Store.Sound (store : Store) : Prop where
  root : 0 < store.frames.size
  frames : ∀ {id : FrameId} {frame : Frame}, store.frames[id]? = some frame →
    frame.IsSound store id
  promises : ∀ {id : PromiseId} {promise : Promise}, store.promises[id]? = some promise →
    promise.IsSound store

variable {before after store : Store}

theorem Promise.IsSound.mono {promise : Promise} (hsound : promise.IsSound before)
    (hextends : before.Extends after) : promise.IsSound after := by
  cases promise with
  | pending expression frame => exact ⟨hsound.1, hextends.frame_lt hsound.2⟩
  | forced value => exact Datum.IsValue.mono hsound hextends

theorem Frame.IsSound.mono {id : FrameId} {frame : Frame} (hsound : frame.IsSound before id)
    (hextends : before.Extends after) : frame.IsSound after id :=
  ⟨fun binding hmem => (hsound.bindings binding hmem).mono hextends, hsound.outer⟩

theorem Bindings.forall_mem_set {good : Datum → Prop} {bindings : Bindings}
    (hbindings : ∀ binding ∈ bindings, good binding.2) (name : String) {value : Datum}
    (hvalue : good value) : ∀ binding ∈ bindings.set name value, good binding.2 := by
  induction bindings with
  | nil => exact List.forall_mem_singleton.2 hvalue
  | cons binding rest ih =>
    rw [List.forall_mem_cons] at hbindings
    rw [Bindings.set]
    split
    · exact List.forall_mem_cons.2 ⟨hvalue, hbindings.2⟩
    · exact List.forall_mem_cons.2 ⟨hbindings.1, ih hbindings.2⟩

theorem Bindings.good_of_get? {good : Datum → Prop} {bindings : Bindings}
    (hbindings : ∀ binding ∈ bindings, good binding.2) {name : String} {value : Datum}
    (hget : bindings.get? name = some value) : good value := by
  induction bindings with
  | nil => cases hget
  | cons binding rest ih =>
    rw [List.forall_mem_cons] at hbindings
    rw [Bindings.get?] at hget
    split at hget
    · cases hget
      exact hbindings.1
    · exact ih hbindings.2 hget

namespace Store.Sound

theorem of_eq (hsound : before.Sound) (hlabels : before.nextLabel ≤ after.nextLabel)
    (hframes : after.frames = before.frames) (hpromises : after.promises = before.promises) :
    after.Sound := by
  have hextends := extends_of_eq hlabels hframes hpromises
  refine ⟨hframes ▸ hsound.root, fun hframe => ?_, fun hpromise => ?_⟩
  · exact (hsound.frames (hframes ▸ hframe)).mono hextends
  · exact (hsound.promises (hpromises ▸ hpromise)).mono hextends

theorem define (hsound : store.Sound) (frame : FrameId) (name : String) {value : Datum}
    (hvalue : value.IsValue store) : (store.define frame name value).Sound := by
  have hextends := extends_define store frame name value
  refine ⟨hextends.frame_lt hsound.root, ?_, fun h => (hsound.promises h).mono hextends⟩
  intro id later hlater
  rw [Store.define, Array.getElem?_modify] at hlater
  split at hlater
  · obtain ⟨found, hfound, rfl⟩ := Option.map_eq_some_iff.1 hlater
    have hframe := (hsound.frames hfound).mono hextends
    exact ⟨Bindings.forall_mem_set hframe.bindings name (hvalue.mono hextends), hframe.outer⟩
  · exact (hsound.frames hlater).mono hextends

theorem pushFrame (hsound : store.Sound) {frame : Frame}
    (hframe : frame.IsSound store store.frames.size) : (store.pushFrame frame).2.Sound := by
  have hextends := extends_pushFrame store frame
  refine ⟨hextends.frame_lt hsound.root, ?_, fun h => (hsound.promises h).mono hextends⟩
  intro id later hlater
  rw [Store.pushFrame, Array.getElem?_push] at hlater
  split at hlater
  · next heq =>
    cases hlater
    rw [heq]
    exact hframe.mono hextends
  · exact (hsound.frames hlater).mono hextends

theorem pushPromise (hsound : store.Sound) {promise : Promise} (hpromise : promise.IsSound store) :
    (store.pushPromise promise).2.Sound := by
  have hextends := extends_pushPromise store promise
  refine ⟨hsound.root, fun h => (hsound.frames h).mono hextends, ?_⟩
  intro id later hlater
  rw [Store.pushPromise, Array.getElem?_push] at hlater
  split at hlater
  · cases hlater
    exact hpromise.mono hextends
  · exact (hsound.promises hlater).mono hextends

theorem settlePromise (hsound : store.Sound) {id : PromiseId}
    (hpending : ∀ earlier, store.promises[id]? ≠ some (.forced earlier)) {value : Datum}
    (hvalue : value.IsValue store) : (store.settlePromise id value).Sound := by
  have hextends := extends_settlePromise hpending value
  refine ⟨hsound.root, fun h => (hsound.frames h).mono hextends, ?_⟩
  intro other later hlater
  rw [Store.settlePromise, Array.getElem?_modify] at hlater
  split at hlater
  · obtain ⟨found, -, rfl⟩ := Option.map_eq_some_iff.1 hlater
    exact hvalue.mono hextends
  · exact (hsound.promises hlater).mono hextends

/-- A name is bound to a value. -/
theorem isValue_of_lookup? (hsound : store.Sound) {name : String} {frame : FrameId} {value : Datum}
    (hlookup : store.lookup? name frame = some value) : value.IsValue store := by
  rw [lookup?] at hlookup
  split at hlookup
  · next found _ =>
    rw [bindings] at hlookup
    split at hlookup
    · next hframe => exact Bindings.good_of_get? (hsound.frames hframe).bindings hlookup
    · cases hlookup
  · cases hlookup

end Store.Sound

end SmallScheme
