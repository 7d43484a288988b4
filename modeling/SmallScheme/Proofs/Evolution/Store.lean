import Mathlib.Logic.Relation
import SmallScheme.Proofs.Soundness.Store
/-!
# How a store evolves

The store changes in a few ways only: labels are given out and traces are left, a name is bound, a
frame is put inside another one, a promise is made, and a promise that has no value yet gets one. An
evolution is any number of such changes. Whatever one change keeps, every evolution keeps.
-/

namespace SmallScheme

namespace Store

/-- One change of a store, in which only promises of some kind may be forced. -/
inductive Change (mayForce : PromiseId → Prop) : Store → Store → Prop where
  /-- Labels and traces only. -/
  | around {before after : Store} (hlabels : before.nextLabel ≤ after.nextLabel)
    (hframes : after.frames = before.frames) (hpromises : after.promises = before.promises) :
    Change mayForce before after
  | binding (store : Store) (frame : FrameId) (name : String) (value : Datum) :
    Change mayForce store (store.define frame name value)
  /-- Only the first frame of all is inside no other one. -/
  | frame (store : Store) (bindings : Bindings) (outer : FrameId) :
    Change mayForce store (store.pushFrame { bindings, outer := some outer }).2
  | promise (store : Store) (expression : Datum) (frame : FrameId) :
    Change mayForce store (store.pushPromise (.pending expression frame)).2
  | value {store : Store} {id : PromiseId} (hid : mayForce id)
    (hunforced : ∀ earlier, store.promises[id]? ≠ some (.forced earlier)) (value : Datum) :
    Change mayForce store (store.settlePromise id value)

/-- The second store comes from the first one by any number of changes. -/
def Evolves (mayForce : PromiseId → Prop) : Store → Store → Prop :=
  Relation.ReflTransGen (Change mayForce)

/-- Every frame but the first one is inside another one. -/
def IsRooted (store : Store) : Prop :=
  ∀ ⦃id : FrameId⦄ ⦃frame : Frame⦄, store.frames[id]? = some frame → frame.outer = none → id = 0

variable {mayForce mayForce' : PromiseId → Prop} {before after later : Store}

namespace Change

theorem mono (hchange : Change mayForce before after)
    (himplies : ∀ id, mayForce id → mayForce' id) : Change mayForce' before after := by
  cases hchange with
  | around hlabels hframes hpromises => exact .around hlabels hframes hpromises
  | binding => exact .binding _ _ _ _
  | frame => exact .frame _ _ _
  | promise => exact .promise _ _ _
  | value hid hunforced value => exact .value (himplies _ hid) hunforced value

theorem toExtends (hchange : Change mayForce before after) : before.Extends after := by
  cases hchange with
  | around hlabels hframes hpromises => exact extends_of_eq hlabels hframes hpromises
  | binding => exact extends_define _ _ _ _
  | frame => exact extends_pushFrame _ _
  | promise => exact extends_pushPromise _ _
  | value _ hunforced value => exact extends_settlePromise hunforced value

/-- A promise that may not be forced is left as it is. -/
theorem promise_eq (hchange : Change mayForce before after) {id : PromiseId}
    (hid : ¬ mayForce id) {promise : Promise} (hpromise : before.promises[id]? = some promise) :
    after.promises[id]? = some promise := by
  cases hchange with
  | around _ _ hpromises => rw [hpromises, hpromise]
  | binding => exact hpromise
  | frame => exact hpromise
  | promise expression frame =>
    have hlt := (Array.getElem?_eq_some_iff.1 hpromise).1
    rw [Store.pushPromise, Array.getElem?_push, if_neg (Nat.ne_of_lt hlt), hpromise]
  | @value other hother _ value =>
    have hne : other ≠ id := by
      rintro rfl
      exact hid hother
    rw [Store.settlePromise, Array.getElem?_modify, if_neg hne, hpromise]

theorem isRooted (hchange : Change mayForce before after) (hrooted : before.IsRooted) :
    after.IsRooted := by
  intro id found hfound houter
  cases hchange with
  | around _ hframes _ => exact hrooted (hframes ▸ hfound) houter
  | binding other name value =>
    rw [Store.define, Array.getElem?_modify] at hfound
    split at hfound
    · obtain ⟨earlier, hearlier, rfl⟩ := Option.map_eq_some_iff.1 hfound
      exact hrooted hearlier houter
    · exact hrooted hfound houter
  | frame bindings outer =>
    rw [Store.pushFrame, Array.getElem?_push] at hfound
    split at hfound
    · cases hfound
      cases houter
    · exact hrooted hfound houter
  | promise => exact hrooted hfound houter
  | value => exact hrooted hfound houter

end Change

namespace Evolves

theorem refl (store : Store) : store.Evolves mayForce store :=
  Relation.ReflTransGen.refl

theorem of_change (hchange : Change mayForce before after) : before.Evolves mayForce after :=
  .single hchange

theorem trans (hleft : before.Evolves mayForce after) (hright : after.Evolves mayForce later) :
    before.Evolves mayForce later :=
  Relation.ReflTransGen.trans hleft hright

theorem mono (hevolves : before.Evolves mayForce after)
    (himplies : ∀ id, mayForce id → mayForce' id) : before.Evolves mayForce' after := by
  induction hevolves with
  | refl => exact .refl before
  | tail _ hchange ih => exact ih.trans (.of_change (hchange.mono himplies))

theorem toExtends (hevolves : before.Evolves mayForce after) : before.Extends after := by
  induction hevolves with
  | refl => exact .refl before
  | tail _ hchange ih => exact ih.trans hchange.toExtends

theorem promise_eq (hevolves : before.Evolves mayForce after) {id : PromiseId}
    (hid : ¬ mayForce id) {promise : Promise} (hpromise : before.promises[id]? = some promise) :
    after.promises[id]? = some promise := by
  induction hevolves with
  | refl => exact hpromise
  | tail _ hchange ih => exact hchange.promise_eq hid ih

theorem isRooted (hevolves : before.Evolves mayForce after) (hrooted : before.IsRooted) :
    after.IsRooted := by
  induction hevolves with
  | refl => exact hrooted
  | tail _ hchange ih => exact hchange.isRooted ih

/-- A promise keeps the value that it has. -/
theorem forced (hevolves : before.Evolves mayForce after) {id : PromiseId} {value : Datum}
    (hforced : before.promises[id]? = some (.forced value)) :
    after.promises[id]? = some (.forced value) := by
  obtain ⟨promise, hpromise, hsettles⟩ := hevolves.toExtends.promises hforced
  cases hsettles
  exact hpromise

end Evolves

end Store

end SmallScheme
