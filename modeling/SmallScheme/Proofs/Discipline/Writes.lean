import SmallScheme.Interpreter
import SmallScheme.Proofs.Discipline.Watch
import SmallScheme.Proofs.Evaluator.TailCalls
import SmallScheme.Proofs.Scoping.Bindings
/-!
# Where an evaluation writes

Names are bound in the frame of the evaluation, in frames that are made during it, and in the frames
that promises were made in which are forced during it: in no other frame. So the body of a closure,
which is evaluated in a frame of its own, leaves all frames from before the call as they are, unless
a promise is forced.
-/

namespace SmallScheme

open Machine

/-! ### Frames that are kept -/

/-- Certain frames of a store keep their bindings, and no name is bound there. -/
def Discipline.keeping (start : Store) (kept : FrameId → Prop) : Discipline where
  holds store := start.frames.size ≤ store.frames.size ∧
    ∀ frame < start.frames.size, kept frame → store.bindings frame = start.bindings frame
  mayUse frame := frame < start.frames.size → ¬ kept frame
  mayBreak _ := True
  holds_of_frames := by
    rintro before after ⟨hsize, hkept⟩ hframes
    refine ⟨hframes ▸ hsize, fun frame hlt hframe => ?_⟩
    rw [Store.bindings_congr hframes, hkept frame hlt hframe]
  holds_define := by
    rintro store frame ⟨hsize, hkept⟩ huse name value
    refine ⟨Nat.le_trans hsize (Nat.le_of_eq Array.size_modify.symm), fun other hlt hother => ?_⟩
    have hne : other ≠ frame := by
      rintro rfl
      exact huse hlt hother
    rw [Store.bindings_define_of_ne hne, hkept other hlt hother]
  holds_pushFrame := by
    rintro store ⟨hsize, hkept⟩ frame
    have hpush : (store.pushFrame frame).2.frames = store.frames.push frame := rfl
    refine ⟨?_, fun other hlt hother => ?_⟩
    · rw [hpush, Array.size_push]
      exact Nat.le_succ_of_le hsize
    · rw [Store.bindings_push_of_lt hpush (Nat.lt_of_lt_of_le hlt hsize), hkept other hlt hother]
  mayUse_size := fun hholds hlt => absurd hholds.1 (Nat.not_le_of_lt hlt)
  mayBreak_integerTooLarge := trivial

/-- Watch the forcing of the promises that were made in certain frames and have no value yet. -/
def Watch.forcing (made : FrameId → Bool) : Watch := fun event store =>
  match event with
  | .call (.builtin .force) [.promise id] =>
    match store.promises[id]? with
    | some (.pending _ frame) => made frame
    | _ => false
  | _ => false

theorem Watch.guards_forcing {made : FrameId → Bool} {kept : FrameId → Prop}
    (hmade : ∀ frame, kept frame → made frame = true) (start : Store) (host : Host) :
    (forcing made).Guards (.keeping start kept) host := by
  intro event store _ hunwatched
  cases event with
  | load name => exact fun _ _ => trivial
  | call callee arguments =>
    change (Discipline.keeping start kept).AllowsCall store callee arguments
    unfold Discipline.AllowsCall
    split
    · exact fun _ _ _ _ _ _ => trivial
    · next id =>
      intro expression frame hpending _ hkept
      have hwatched : forcing made (.call (.builtin .force) [.promise id]) store = true := by
        simp only [forcing, hpending]
        exact hmade frame hkept
      exact absurd hunwatched (hwatched ▸ Bool.noConfusion)
    · trivial

/-- A frame keeps its bindings unless the evaluation is in it or comes to forcing a promise that was
made in it. -/
theorem Machine.bindings_eq_of_not_meets {host : Host} {limit : Nat} {expression : Datum}
    {frame other : FrameId} {store : Store} {outcome : Outcome Datum} {made : FrameId → Bool}
    (hends : EndsWith (fun steps => evaluate host steps limit expression frame) store outcome)
    (hunwatched : ¬ Watched.Meets (.forcing made) host limit expression frame store)
    (hlt : other < store.frames.size) (hne : other ≠ frame) (hmade : made other = true) :
    outcome.store.bindings other = store.bindings other := by
  let kept : FrameId → Prop := fun other => other ≠ frame ∧ made other = true
  have hguards : (Watch.forcing made).Guards (.keeping store kept) host :=
    Watch.guards_forcing (fun _ hkept => hkept.2) store host
  have hstart : (Discipline.keeping store kept).holds store :=
    ⟨Nat.le_refl _, fun _ _ _ => rfl⟩
  have hframe : (Discipline.keeping store kept).mayUse frame := fun _ hkept => hkept.1 rfl
  obtain ⟨-, steps, hrun⟩ := Watched.endsWith_of_not_stops
    (fun steps => Watched.cuts_evaluate host steps limit expression frame) hends hunwatched
  have hobeys := Watched.obeys_evaluate hguards steps limit hstart hframe expression
  have hafter : (Discipline.keeping store kept).holds outcome.store := by
    cases outcome with
    | ok value after => exact (hobeys.ok hrun).1
    | error interrupt after => exact (hobeys.error hrun).1
  exact hafter.2 other hlt ⟨hne, hmade⟩

/-! ### Calls -/

theorem Machine.frames_of_bindArguments {closure : Datum} {formals : Formals}
    {arguments : List Datum} {bindings : Bindings} {store after : Store}
    (hbind : bindArguments closure formals arguments store = .ok bindings after) :
    after.frames = store.frames := by
  unfold bindArguments at hbind
  split at hbind
  · obtain ⟨list, between, hlist, hreturn⟩ := bind_eq_ok.1 hbind
    rw [listOf_eq] at hlist
    cases hlist
    cases hreturn
    rfl
  · split at hbind <;> cases hbind
    rfl

/-- A call makes one frame. -/
theorem Machine.frames_of_enterClosure {closure : Datum} {formals : Formals} {frame inner : FrameId}
    {arguments : List Datum} {store after : Store}
    (henter : enterClosure closure formals frame arguments store = .ok inner after) :
    inner = store.frames.size ∧
      ∃ bindings, after.frames = store.frames.push { bindings, outer := some frame } := by
  obtain ⟨bindings, between, hbind, hnew⟩ := bind_eq_ok.1 henter
  have hframes := frames_of_bindArguments hbind
  cases hnew
  rw [hframes]
  exact ⟨rfl, bindings, rfl⟩

/-- An evaluation changes the bindings of no frame there was before it, other than its own, without
forcing a promise made there. And where it is that of the body of a procedure in the frame of a
call, and no promise is forced, no frame from before the call changes. -/
theorem Machine.writes_of_endsWith {host : Host} {limit : Nat} {expression : Datum}
    {frame : FrameId} {store : Store} {outcome : Outcome Datum}
    (hends : EndsWith (fun steps => evaluate host steps limit expression frame) store outcome) :
    (∀ other < store.frames.size, other ≠ frame →
      outcome.store.bindings other ≠ store.bindings other →
        Watched.Meets (.forcing (· == other)) host limit expression frame store) ∧
    (¬ Watched.Meets (.forcing fun _ => true) host limit expression frame store →
      (∀ other < store.frames.size, other ≠ frame →
        outcome.store.bindings other = store.bindings other) ∧
      ∀ {context : Context} {callee : Datum} {arguments : List Datum} {before : Store},
        applyProcedure context callee arguments before = .ok (.proceed expression frame) store →
          ∀ other < before.frames.size,
            outcome.store.bindings other = before.bindings other) := by
  constructor
  · intro other hlt hne hchanged
    by_contra hunwatched
    have hmade : (other == other) = true := beq_self_eq_true other
    exact hchanged (bindings_eq_of_not_meets hends hunwatched hlt hne hmade)
  · intro hunforced
    have hothers : ∀ other < store.frames.size, other ≠ frame →
        outcome.store.bindings other = store.bindings other :=
      fun other hlt hne => bindings_eq_of_not_meets hends hunforced hlt hne rfl
    refine ⟨hothers, fun {context callee arguments before} hcall other hlt => ?_⟩
    obtain ⟨label, name, formals, body, captured, -, -, henter⟩ :=
      enterClosure_of_applyProcedure hcall
    obtain ⟨rfl, bindings, hframes⟩ := frames_of_enterClosure henter
    have hsize : other < store.frames.size := by
      rw [hframes, Array.size_push]
      exact Nat.lt_succ_of_lt hlt
    rw [hothers other hsize (Nat.ne_of_lt hlt), Store.bindings_push_of_lt hframes hlt]

/-- A promise that was made in the outermost frame writes there when it is forced in another one;
the body of a procedure that binds the same name does not. -/
theorem Machine.writes_of_forced_definition :
    let host : Host := { settings := .ofVariables ⟨none, none, none⟩, files := .catalogue [] }
    let definition : Datum := .form none [.keyword .define, .symbol "x", .str "late"]
    let before : Store := (Store.empty.pushFrame { bindings := [], outer := none }).2
    let called : Store := (before.pushFrame { bindings := [], outer := some 0 }).2
    let delayed : Store := (called.pushPromise (.pending definition 0)).2
    Watched.Meets (.forcing (· == 0)) host 3 (.form none [.builtin .force, .promise 0]) 1 delayed ∧
      ∃ outcome : Outcome Datum,
        EndsWith (fun steps => evaluate host steps 2 definition 1) called outcome ∧
          outcome.store.bindings 0 = before.bindings 0 ∧
            outcome.store.bindings 1 ≠ called.bindings 1 := by
  intro host definition before called delayed
  constructor
  · refine (writes_of_endsWith ⟨?_, 2, rfl⟩).1 0 ?_ ?_ ?_
    · trivial
    · decide
    · decide
    · intro hsame
      cases hsame
  · have hends : EndsWith (fun steps => evaluate host steps 2 definition 1) called
        (evaluate host 1 2 definition 1 called) := ⟨trivial, 1, rfl⟩
    have hunforced : ¬ Watched.Meets (.forcing fun _ => true) host 2 definition 1 called := by
      rintro ⟨steps, hfinished, hstopped⟩
      cases steps with
      | zero => exact hfinished rfl
      | succ steps => exact hstopped trivial
    let context : Context := { host, limit := 1, evaluate := evaluate host 1 1 }
    have hcall : applyProcedure context (.closure 0 none (.fixed []) [definition] 0) [] before =
        .ok (.proceed definition 1) called := rfl
    refine ⟨_, hends, ((writes_of_endsWith hends).2 hunforced).2 hcall 0 (by decide), ?_⟩
    intro hsame
    cases hsame

end SmallScheme
