import SmallScheme.Evaluator.Context
import SmallScheme.Machine
import SmallScheme.Proofs.Relabelling.Datum
/-!
# Relabelled stores

The labels of a store are those of the data that it holds. Moving them moves what is found in the
store, and leaves where it is found, what is displayed and what is logged as they are.
-/

namespace SmallScheme

/-! ### Faults and steps -/

namespace Fault

/-- The fault with the labels of its causes moved. -/
def relabel (shift : Shift) : Fault → Fault
  | notCallable callee => notCallable (callee.relabel shift)
  | closureArity closure expected given => closureArity (closure.relabel shift) expected given
  | notSymbol form datum => notSymbol form (datum.relabel shift)
  | clauseNotList clause => clauseNotList (clause.relabel shift)
  | notQuotable datum => notQuotable (datum.relabel shift)
  | malformedList value => malformedList (value.relabel shift)
  | notNumber context value => notNumber context (value.relabel shift)
  | notPair procedure value => notPair procedure (value.relabel shift)
  | notList procedure value => notList procedure (value.relabel shift)
  | notArgumentList value => notArgumentList (value.relabel shift)
  | notLoadable value => notLoadable (value.relabel shift)
  | fault => fault

variable (shift : Shift) (fault : Fault)

@[simp] theorem kind_relabel : (fault.relabel shift).kind = fault.kind := by
  cases fault <;> rfl

/-- No message shows a label. -/
@[simp] theorem message_relabel : (fault.relabel shift).message = fault.message := by
  cases fault with
  | notCallable callee => exact congrArg (· ++ _) (callee.source_relabel shift)
  | closureArity closure =>
    exact congrArg (· ++ _ ++ _ ++ _ ++ _ ++ _) (closure.diagnostic_relabel shift)
  | notSymbol _ datum => exact congrArg (_ ++ _ ++ · ++ _) (datum.diagnostic_relabel shift)
  | clauseNotList datum | notQuotable datum | notNumber _ datum =>
    exact congrArg (_ ++ ·) (datum.diagnostic_relabel shift)
  | malformedList value | notArgumentList value | notLoadable value =>
    exact congrArg (_ ++ ·) (value.source_relabel shift)
  | notPair _ value | notList _ value => exact congrArg (_ ++ ·) (value.display_relabel shift)
  | _ => rfl

@[simp] theorem report_relabel : (fault.relabel shift).report = fault.report := by
  rw [report, report, kind_relabel, message_relabel]

@[simp] theorem relabel_zero : fault.relabel .zero = fault := by
  cases fault <;> simp [relabel]

end Fault

def Interrupt.relabel (shift : Shift) : Interrupt → Interrupt
  | .fault cause => .fault (cause.relabel shift)
  | interrupt => interrupt

@[simp] theorem Interrupt.relabel_zero (interrupt : Interrupt) :
    interrupt.relabel .zero = interrupt := by
  cases interrupt <;> simp [relabel]

def Step.relabel (shift : Shift) : Step → Step
  | .done value => .done (value.relabel shift)
  | .proceed expression frame => .proceed (expression.relabel shift) frame

/-! ### Bindings -/

namespace Bindings

def relabel (shift : Shift) (bindings : Bindings) : Bindings :=
  bindings.map fun (name, value) => (name, value.relabel shift)

variable (shift : Shift)

theorem get?_relabel (name : String) (bindings : Bindings) :
    get? name (bindings.relabel shift) = (get? name bindings).map (Datum.relabel shift) := by
  induction bindings with
  | nil => rfl
  | cons binding rest ih =>
    rw [relabel, List.map_cons, get?, get?]
    by_cases hname : binding.1 = name
    · rw [if_pos hname, if_pos hname, Option.map_some]
    · rw [if_neg hname, if_neg hname, ← ih, relabel]

theorem set_relabel (name : String) (value : Datum) (bindings : Bindings) :
    (bindings.set name value).relabel shift =
      (bindings.relabel shift).set name (value.relabel shift) := by
  induction bindings with
  | nil => rfl
  | cons binding rest ih =>
    have hcons : ∀ binding rest, relabel shift (binding :: rest) =
        (binding.1, binding.2.relabel shift) :: relabel shift rest := fun _ _ => rfl
    rw [hcons, set, set]
    by_cases hname : binding.1 = name
    · rw [if_pos hname, if_pos hname, hcons]
    · rw [if_neg hname, if_neg hname, hcons, ih]

theorem ofPairs_relabel (pairs : List (String × Datum)) :
    (ofPairs pairs).relabel shift = ofPairs (relabel shift pairs) := by
  have hfold : ∀ bindings : Bindings,
      (pairs.foldl (fun bindings (name, value) => bindings.set name value) bindings).relabel shift =
        (relabel shift pairs).foldl (fun bindings (name, value) => bindings.set name value)
          (bindings.relabel shift) := by
    induction pairs with
    | nil => exact fun _ => rfl
    | cons pair rest ih =>
      intro bindings
      rw [List.foldl_cons, ih, set_relabel]
      rfl
  exact hfold []

end Bindings

def Frame.relabel (shift : Shift) (frame : Frame) : Frame :=
  { frame with bindings := frame.bindings.relabel shift }

def Promise.relabel (shift : Shift) : Promise → Promise
  | .pending expression frame => .pending (expression.relabel shift) frame
  | .forced value => .forced (value.relabel shift)

/-! ### Stores -/

namespace Store

/-- The store with all labels moved. -/
def relabel (shift : Shift) (store : Store) : Store :=
  { store with
    frames := store.frames.map (Frame.relabel shift)
    promises := store.promises.map (Promise.relabel shift)
    nextLabel := shift.apply store.nextLabel }

variable (shift : Shift) (store : Store)

theorem bindings_relabel (frame : FrameId) :
    (store.relabel shift).bindings frame = (store.bindings frame).relabel shift := by
  rw [bindings, bindings, relabel, Array.getElem?_map]
  cases store.frames[frame]? <;> rfl

theorem outer?_relabel (frame : FrameId) :
    (store.relabel shift).outer? frame = store.outer? frame := by
  rw [outer?, outer?, relabel, Array.getElem?_map]
  cases store.frames[frame]? <;> rfl

theorem find?_relabel (name : String) (frame : FrameId) :
    (store.relabel shift).find? name frame = store.find? name frame := by
  induction frame using Nat.strongRecOn with
  | ind frame ih =>
    rw [find?, find?, bindings_relabel, Bindings.get?_relabel, outer?_relabel]
    cases Bindings.get? name (store.bindings frame) with
    | some value => rfl
    | none =>
      rw [Option.map_none]
      cases store.outer? frame with
      | none => rfl
      | some outer =>
        by_cases houter : outer < frame
        · exact (if_pos houter).trans ((ih outer houter).trans (if_pos houter).symm)
        · exact (if_neg houter).trans (if_neg houter).symm

theorem lookup?_relabel (name : String) (frame : FrameId) :
    (store.relabel shift).lookup? name frame =
      (store.lookup? name frame).map (Datum.relabel shift) := by
  rw [lookup?, lookup?, find?_relabel]
  cases store.find? name frame with
  | none => rfl
  | some found =>
    change Bindings.get? name ((store.relabel shift).bindings found) = _
    rw [bindings_relabel, Bindings.get?_relabel]

theorem getElem?_promises_relabel (id : PromiseId) :
    (store.relabel shift).promises[id]? = store.promises[id]?.map (Promise.relabel shift) := by
  rw [relabel, Array.getElem?_map]

theorem define_relabel (frame : FrameId) (name : String) (value : Datum) :
    (store.define frame name value).relabel shift =
      (store.relabel shift).define frame name (value.relabel shift) := by
  have hframes : ∀ frames : Array Frame,
      (frames.modify frame fun found =>
          { found with bindings := found.bindings.set name value }).map (Frame.relabel shift) =
        (frames.map (Frame.relabel shift)).modify frame fun found =>
          { found with bindings := found.bindings.set name (value.relabel shift) } := by
    intro frames
    refine Array.ext_getElem? fun id => ?_
    rw [Array.getElem?_map, Array.getElem?_modify, Array.getElem?_modify, Array.getElem?_map]
    by_cases hid : frame = id
    · rw [if_pos hid, if_pos hid, Option.map_map, Option.map_map]
      congr 1
      funext found
      exact congrArg (Frame.mk · found.outer) (Bindings.set_relabel shift name value _)
    · rw [if_neg hid, if_neg hid]
  rw [define, define, relabel, relabel, hframes]

theorem pushFrame_relabel (frame : Frame) :
    (store.relabel shift).pushFrame (frame.relabel shift) =
      ((store.pushFrame frame).1, (store.pushFrame frame).2.relabel shift) := by
  simp only [pushFrame, relabel, Array.size_map, Array.map_push]

theorem pushPromise_relabel (promise : Promise) :
    (store.relabel shift).pushPromise (promise.relabel shift) =
      ((store.pushPromise promise).1, (store.pushPromise promise).2.relabel shift) := by
  simp only [pushPromise, relabel, Array.size_map, Array.map_push]

theorem settlePromise_relabel (id : PromiseId) (value : Datum) :
    (store.settlePromise id value).relabel shift =
      (store.relabel shift).settlePromise id (value.relabel shift) := by
  have hpromises : ∀ promises : Array Promise,
      (promises.modify id fun _ => .forced value).map (Promise.relabel shift) =
        (promises.map (Promise.relabel shift)).modify id
          fun _ => .forced (value.relabel shift) := by
    intro promises
    refine Array.ext_getElem? fun other => ?_
    rw [Array.getElem?_map, Array.getElem?_modify, Array.getElem?_modify, Array.getElem?_map]
    by_cases hid : id = other
    · rw [if_pos hid, if_pos hid, Option.map_map, Option.map_map]
      rfl
    · rw [if_neg hid, if_neg hid]
  rw [settlePromise, settlePromise, relabel, relabel, hpromises]

@[simp] theorem relabel_zero : store.relabel .zero = store := by
  have hbindings : ∀ bindings : Bindings, bindings.relabel .zero = bindings := by
    intro bindings
    simp [Bindings.relabel]
  have hframe : Frame.relabel .zero = id := by
    funext frame
    rw [Frame.relabel, hbindings, id]
  have hpromise : Promise.relabel .zero = id := by
    funext promise
    cases promise <;> simp [Promise.relabel]
  rw [relabel, hframe, hpromise, Array.map_id, Array.map_id, Shift.apply_zero]

end Store

end SmallScheme
