import SmallScheme.Proofs.Sharing.Forms
import SmallScheme.Proofs.Soundness.Reachable
/-!
# Reachable stores live in a heap

Evaluation keeps cells as a whole, with however many steps and however deep. A fresh interpreter
needs no cell at all, so for every store that one reaches there is a heap that all its data live in:
wherever a label occurs in them, it stands for the same cell.
-/

namespace SmallScheme

open Machine

namespace Machine

variable {context : Context} {heap : Heap} {store : Store} {expression : Datum}

/-! ### Evaluation -/

theorem keeps_evaluateApplication (hcontext : context.KeepsCells) (hlives : store.LivesIn heap)
    (frame : FrameId) {operator : Datum} {operands : List Datum}
    (hoperator : operator.LivesIn heap) (hoperands : ∀ operand ∈ operands, operand.LivesIn heap) :
    Keeps heap store (evaluateApplication context frame operator operands) fun later step =>
      step.LivesIn later := by
  refine (hcontext hlives hoperator frame).bind fun between _ callee hextends hlives hcallee => ?_
  have harguments : Keeps between _
      (operands.mapM fun operand => context.evaluate operand frame) fun later arguments =>
        ∀ argument ∈ arguments, argument.LivesIn later :=
    .mapM (fun _ _ _ hextends hvalue => hvalue.mono hextends) hlives
      fun _ _ hextends' hlives operand hmem =>
        hcontext hlives ((hoperands operand hmem).mono (hextends.trans hextends')) frame
  refine harguments.bind fun _ _ arguments hextends hlives harguments => ?_
  exact keeps_applyProcedure hcontext hlives (hcallee.mono hextends) harguments

theorem keeps_step (hcontext : context.KeepsCells) (hlives : store.LivesIn heap)
    (frame : FrameId) (hexpression : expression.LivesIn heap) :
    Keeps heap store (step context expression frame) fun later next => next.LivesIn later := by
  cases expression with
  | absent | empty => exact .pure hlives (Datum.livesIn_of_cells_eq_nil rfl)
  | int value =>
    exact (keeps_orBreakDown hlives _ _).bind fun _ _ _ _ hlives _ =>
      .pure hlives (Datum.livesIn_of_cells_eq_nil rfl)
  | symbol name =>
    exact (keepsDatum_lookup hlives frame name).bind fun _ _ _ _ hlives hvalue =>
      .pure hlives hvalue
  | form label items =>
    cases items with
    | nil => exact .pure hlives (Datum.livesIn_of_cells_eq_nil rfl)
    | cons head operands =>
      rw [Datum.livesIn_form, List.forall_mem_cons] at hexpression
      rw [step_form]
      cases head.specialForm? with
      | some form => exact keeps_evaluateSpecial hcontext hlives frame hexpression.2 form
      | none => exact keeps_evaluateApplication hcontext hlives frame hexpression.1 hexpression.2
  | _ => exact .pure hlives hexpression

theorem keepsDatum_iterate (hcontext : context.KeepsCells) (hlives : store.LivesIn heap)
    (frame : FrameId) (hexpression : expression.LivesIn heap) (steps : Nat) :
    KeepsDatum heap store (iterate (step context) steps expression frame) := by
  induction steps generalizing heap store expression frame with
  | zero => exact .throw hlives _
  | succ steps ih =>
    refine (keeps_step hcontext hlives frame hexpression).bind fun _ _ next _ hlives hnext => ?_
    cases next with
    | done value => exact .pure hlives hnext
    | proceed expression frame => exact ih hlives frame hnext

theorem keepsDatum_evaluate (host : Host) (steps limit : Nat) (hlives : store.LivesIn heap)
    (hexpression : expression.LivesIn heap) (frame : FrameId) :
    KeepsDatum heap store (evaluate host steps limit expression frame) := by
  induction limit generalizing heap store expression frame with
  | zero => exact .throw hlives _
  | succ limit ih =>
    have hcontext : Context.KeepsCells { host, limit, evaluate := evaluate host steps limit } :=
      fun _ _ _ hlives hexpression frame => ih hlives hexpression frame
    exact keepsDatum_iterate hcontext hlives frame hexpression steps

/-! ### Sources -/

theorem keepsDatum_runStream (hcontext : context.KeepsCells) (hlives : store.LivesIn heap)
    (frame : FrameId) {previous : Datum} (hprevious : previous.LivesIn heap)
    {stream : TokenStream} (hstream : stream.OfText) :
    KeepsDatum heap store (runStream context frame previous stream) := by
  fun_induction runStream context frame previous stream generalizing heap store with
  | case1 => exact .pure hlives hprevious
  | case2 previous stream form rest hread ih =>
    obtain ⟨hform, hrest⟩ := TokenStream.isSyntax_of_readForm hstream hread
    refine (keepsDatum_attempt hcontext hlives frame hprevious hform.livesIn).bind ?_
    exact fun _ _ value _ hlives hvalue => ih value hlives hvalue hrest
  | case3 =>
    exact (keeps_record hlives _ _ _).bind fun _ _ _ hextends hlives _ =>
      .pure hlives (hprevious.mono hextends)
  | case4 => exact .throw hlives _

theorem keepsDatum_evaluateStream (hcontext : context.KeepsCells) (hlives : store.LivesIn heap)
    (frame : FrameId) {previous : Datum} (hprevious : previous.LivesIn heap)
    {stream : TokenStream} (hstream : stream.OfText) :
    KeepsDatum heap store (evaluateStream context frame previous stream) := by
  fun_induction evaluateStream context frame previous stream generalizing heap store with
  | case1 => exact .pure hlives hprevious
  | case2 previous stream form rest hread ih =>
    obtain ⟨hform, hrest⟩ := TokenStream.isSyntax_of_readForm hstream hread
    refine (keepsDatum_guarded (hcontext hlives hform.livesIn frame)).bind ?_
    exact fun _ _ value _ hlives hvalue => ih value hlives hvalue hrest
  | case3 => exact .throw hlives _

end Machine

/-! ### Interpreters -/

namespace Interpreter

theorem keepsCells_contextWithin (host : Host) (steps limit : Nat) :
    (contextWithin host steps limit).KeepsCells :=
  fun _ _ _ hlives hexpression frame =>
    keepsDatum_evaluate host steps limit hlives hexpression frame

theorem Request.keepsDatum_serve {context : Context} (hcontext : context.KeepsCells)
    {heap : Heap} {store : Store} (hlives : store.LivesIn heap) (request : Request) :
    KeepsDatum heap store (request.serve context) := by
  have hunspecified : Datum.unspecified.LivesIn heap := Datum.livesIn_of_cells_eq_nil rfl
  cases request with
  | eval text => exact keepsDatum_evaluateStream hcontext hlives rootFrame hunspecified (.rest _ _)
  | run text => exact keepsDatum_runStream hcontext hlives rootFrame hunspecified (.rest _ _)
  | load name => exact keepsDatum_loadFile hcontext hlives rootFrame name

theorem livesIn_initialStore : initialStore.LivesIn .empty := by
  have hempty : Store.empty.LivesIn .empty :=
    { fresh := fun _ _ => rfl
      frames := fun hframe => by cases hframe
      promises := fun hpromise => by cases hpromise }
  refine hempty.pushFrame fun binding hmem => ?_
  rcases List.mem_append.1 hmem with hmem | hmem
  · obtain ⟨procedure, -, rfl⟩ := List.mem_map.1 hmem
    exact Datum.livesIn_of_cells_eq_nil rfl
  · rw [List.mem_singleton.1 hmem]
    exact Datum.livesIn_of_cells_eq_nil rfl

/-- In a reachable store each label stands for one cell. -/
theorem exists_livesIn_of_reachable {store : Store} (hstore : Reachable store) :
    ∃ heap : Heap, store.LivesIn heap := by
  induction hstore with
  | initial => exact ⟨.empty, livesIn_initialStore⟩
  | value _ host steps limit request hserve ih =>
    obtain ⟨heap, hlives⟩ := ih
    have hkeeps := request.keepsDatum_serve (keepsCells_contextWithin host steps limit) hlives
    obtain ⟨later, hlater⟩ := hkeeps.exists_of_ok hserve
    exact ⟨later, hlater.2.1⟩
  | interrupt _ host steps limit request hserve ih =>
    obtain ⟨heap, hlives⟩ := ih
    have hkeeps := request.keepsDatum_serve (keepsCells_contextWithin host steps limit) hlives
    obtain ⟨later, hlater⟩ := hkeeps.exists_of_error hserve
    exact ⟨later, hlater.2⟩

end Interpreter

end SmallScheme
