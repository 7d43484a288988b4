import Mathlib.Data.List.Chain
import SmallScheme.Frames
import SmallScheme.Proofs.Evolution.Runs
import SmallScheme.Proofs.Scoping.Bindings
/-!
# Frames only grow

A name is looked up in the frames from one outwards. In whatever store an interpreter gets to, this
chain leads from each frame to older ones and ends at the root frame, where every built-in procedure
is bound. Frames never go, they stay inside the same ones and their names stay where they are; so a
name that resolves goes on to do so.
-/

namespace SmallScheme

open Machine Interpreter

namespace Store

variable {store after : Store} {name : String} {frame outer : FrameId}

def binds (store : Store) (name : String) (frame : FrameId) : Bool :=
  ((store.bindings frame).get? name).isSome

/-! ### The chain of frames -/

theorem chainFrom_of_inner (houter : store.outer? frame = some outer) (hlt : outer < frame) :
    store.chainFrom frame = frame :: store.chainFrom outer := by
  rw [chainFrom, houter]
  exact if_pos hlt

theorem chainFrom_of_outermost (houter : store.outer? frame = none) :
    store.chainFrom frame = [frame] := by
  rw [chainFrom, houter]

/-- A name is found in the first frame of the chain that binds it. -/
theorem find?_eq_find?_chainFrom (store : Store) (name : String) (frame : FrameId) :
    store.find? name frame = (store.chainFrom frame).find? (store.binds name) := by
  fun_induction store.find? name frame with
  | case1 frame value hbound =>
    have hbinds : store.binds name frame = true := by rw [binds, hbound]; rfl
    rw [chainFrom]
    split
    · split <;> rw [List.find?_cons_of_pos hbinds]
    · rw [List.find?_cons_of_pos hbinds]
  | case2 frame hunbound outer houter hlt ih =>
    have hbinds : ¬ store.binds name frame = true := by rw [binds, hunbound]; exact Bool.noConfusion
    rw [chainFrom_of_inner houter hlt, List.find?_cons_of_neg hbinds, ih]
  | case3 frame hunbound outer houter hge =>
    have hbinds : ¬ store.binds name frame = true := by rw [binds, hunbound]; exact Bool.noConfusion
    rw [chainFrom, houter]
    simp only [if_neg hge, List.find?_cons_of_neg hbinds, List.find?_nil]
  | case4 frame hunbound houter =>
    have hbinds : ¬ store.binds name frame = true := by rw [binds, hunbound]; exact Bool.noConfusion
    rw [chainFrom_of_outermost houter, List.find?_cons_of_neg hbinds, List.find?_nil]

theorem isSome_lookup?_iff :
    (store.lookup? name frame).isSome ↔
      ∃ found ∈ store.chainFrom frame, store.binds name found := by
  rw [lookup?, find?_eq_find?_chainFrom, ← List.find?_isSome]
  cases hfound : (store.chainFrom frame).find? (store.binds name) with
  | none => rfl
  | some found =>
    have hbinds : store.binds name found = true := List.find?_some hfound
    exact ⟨fun _ => rfl, fun _ => hbinds⟩

/-! ### Chains that end at the root -/

/-- The chain from the frame leads to older and older frames, each around the one before it, and to
the root frame in the end, which is in no other one. -/
structure EndsAtRoot (store : Store) (frame : FrameId) : Prop where
  head : (store.chainFrom frame).head? = some frame
  links : (store.chainFrom frame).IsChain fun inner outer =>
    store.outer? inner = some outer ∧ outer < inner
  last : (store.chainFrom frame).getLast? = some rootFrame
  root : store.outer? rootFrame = none

theorem EndsAtRoot.root_mem (hends : store.EndsAtRoot frame) :
    rootFrame ∈ store.chainFrom frame :=
  List.mem_of_getLast? hends.last

theorem outer?_eq_of_getElem? {id : FrameId} {found : Frame}
    (hfound : store.frames[id]? = some found) : store.outer? id = found.outer := by
  rw [outer?, hfound]

theorem Sound.outer_lt (hsound : store.Sound) (houter : store.outer? frame = some outer) :
    outer < frame := by
  rw [outer?] at houter
  split at houter
  · next hfound => exact (hsound.frames hfound).outer outer houter
  · cases houter

theorem endsAtRoot (hsound : store.Sound) (hrooted : store.IsRooted)
    (hframe : frame < store.frames.size) : store.EndsAtRoot frame := by
  -- the induction is on the age of the frame, since the frames around it are older
  induction frame using Nat.strongRecOn with
  | ind frame ih =>
    have hroot : store.outer? rootFrame = none := by
      cases hroot : store.outer? rootFrame with
      | none => rfl
      | some outer => exact absurd (hsound.outer_lt hroot) (Nat.not_lt_zero outer)
    cases houter : store.outer? frame with
    | none =>
      have hfound := Array.getElem?_eq_getElem hframe
      have hzero := hrooted hfound (outer?_eq_of_getElem? hfound ▸ houter)
      have hchain := chainFrom_of_outermost houter
      refine ⟨?_, ?_, ?_, hroot⟩ <;> rw [hchain]
      · rfl
      · exact .singleton frame
      · rw [hzero]
        rfl
    | some outer =>
      have hlt := hsound.outer_lt houter
      have hends := ih outer hlt (Nat.lt_trans hlt hframe)
      have hchain := chainFrom_of_inner houter hlt
      refine ⟨?_, ?_, ?_, hroot⟩ <;> rw [hchain]
      · rfl
      · refine List.isChain_cons.2 ⟨fun next hnext => ?_, hends.links⟩
        cases hends.head.symm.trans hnext
        exact ⟨houter, hlt⟩
      · rw [List.getLast?_cons, hends.last]
        rfl

/-! ### Extension -/

variable (hextends : store.Extends after)

include hextends in
theorem Extends.outer?_eq (hframe : frame < store.frames.size) :
    after.outer? frame = store.outer? frame := by
  have hfound := Array.getElem?_eq_getElem hframe
  obtain ⟨later, hlater, hframes⟩ := hextends.frames hfound
  rw [outer?_eq_of_getElem? hfound, outer?_eq_of_getElem? hlater, hframes.outer]

include hextends in
theorem Extends.chainFrom_eq (hframe : frame < store.frames.size) :
    after.chainFrom frame = store.chainFrom frame := by
  induction frame using Nat.strongRecOn with
  | ind frame ih =>
    have houter := hextends.outer?_eq hframe
    rw [chainFrom, chainFrom.eq_def store, houter]
    split
    · next outer _ =>
      split
      · next hlt => rw [ih outer hlt (Nat.lt_trans hlt hframe)]
      · rfl
    · rfl

include hextends in
theorem Extends.binds (hbinds : store.binds name frame) : after.binds name frame := by
  rw [Store.binds, bindings, Bindings.isSome_get?_iff] at hbinds ⊢
  cases hfound : store.frames[frame]? with
  | none =>
    rw [hfound] at hbinds
    cases hbinds
  | some found =>
    obtain ⟨later, hlater, hframes⟩ := hextends.frames hfound
    rw [hfound] at hbinds
    rw [hlater]
    exact hframes.names.subset hbinds

include hextends in
theorem Extends.isSome_lookup? (hframe : frame < store.frames.size)
    (hresolves : (store.lookup? name frame).isSome) : (after.lookup? name frame).isSome := by
  rw [isSome_lookup?_iff] at hresolves ⊢
  rw [hextends.chainFrom_eq hframe]
  obtain ⟨found, hmem, hbinds⟩ := hresolves
  exact ⟨found, hmem, hextends.binds hbinds⟩

end Store

/-! ### Interpreters -/

theorem Builtin.mem_all (procedure : Builtin) : procedure ∈ Builtin.all := by
  cases procedure <;> decide

namespace Interpreter

theorem leads_of_reachable {store : Store} (hstore : Reachable store) :
    Run.Leads initialStore store := by
  induction hstore with
  | initial => exact .refl
  | @value store after _ host steps limit request _ hserve ih =>
    let run : Run := ⟨host, steps, limit, .serve request, store⟩
    have hfinal : run.final = after := congrArg Outcome.store hserve
    exact hfinal ▸ .run ih trivial
  | @interrupt store after _ host steps limit request _ hserve ih =>
    let run : Run := ⟨host, steps, limit, .serve request, store⟩
    have hfinal : run.final = after := congrArg Outcome.store hserve
    exact hfinal ▸ .run ih trivial

theorem isRooted_initialStore : initialStore.IsRooted := by
  intro id frame hframe _
  exact Nat.lt_one_iff.1 (Array.getElem?_eq_some_iff.1 hframe).1

theorem binds_initialStore {name : String}
    (hname : (∃ procedure : Builtin, name = procedure.name) ∨ name = emptyListName) :
    initialStore.binds name rootFrame := by
  rw [Store.binds, Bindings.isSome_get?_iff]
  change name ∈ initialBindings.map Prod.fst
  rw [initialBindings, List.map_append, List.map_map, List.mem_append]
  rcases hname with ⟨procedure, rfl⟩ | rfl
  · exact .inl (List.mem_map_of_mem procedure.mem_all)
  · exact .inr List.mem_cons_self

/-- Frames only grow. Whatever is run from a reachable store, and whether it completes or not, every
frame is still there, inside the same frame and with the same names in the same places, behind which
others may be added. Each frame is inside an older one up to the root frame, so looking a name up
ends with the first frame on this chain that binds it; a name that resolves from a frame resolves
from there for ever, and every built-in procedure and the name of the empty list do so. -/
theorem frames_of_leads {store later : Store} (hstore : Reachable store)
    (hleads : Run.Leads store later) :
    (∀ {id : FrameId} {frame : Frame}, store.frames[id]? = some frame →
      ∃ grown, later.frames[id]? = some grown ∧ frame.Extends grown) ∧
    (∀ {frame : FrameId}, frame < later.frames.size →
      later.EndsAtRoot frame ∧
      (∀ name, later.find? name frame = (later.chainFrom frame).find? (later.binds name)) ∧
      (∀ procedure : Builtin, (later.lookup? procedure.name frame).isSome) ∧
      (later.lookup? emptyListName frame).isSome) ∧
    ∀ {frame : FrameId} {name : String}, frame < store.frames.size →
      (store.lookup? name frame).isSome → (later.lookup? name frame).isSome := by
  have hextends := hleads.evolves.toExtends
  have hevolves := (leads_of_reachable hstore).evolves.trans hleads.evolves
  have hsound := hleads.sound (sound_of_reachable hstore)
  have hends : ∀ {frame}, frame < later.frames.size → later.EndsAtRoot frame :=
    later.endsAtRoot hsound (hevolves.isRooted isRooted_initialStore)
  have hinitial : ∀ {frame name}, frame < later.frames.size →
      ((∃ procedure : Builtin, name = procedure.name) ∨ name = emptyListName) →
        (later.lookup? name frame).isSome :=
    fun hframe hname => Store.isSome_lookup?_iff.2
      ⟨rootFrame, (hends hframe).root_mem, hevolves.toExtends.binds (binds_initialStore hname)⟩
  refine ⟨hextends.frames, fun hframe => ⟨hends hframe, ?_, ?_, ?_⟩, hextends.isSome_lookup?⟩
  · exact fun name => later.find?_eq_find?_chainFrom name _
  · exact fun procedure => hinitial hframe (.inl ⟨procedure, rfl⟩)
  · exact hinitial hframe (.inr rfl)

/-- Whatever becomes of a text that calls a procedure and fails in it, a name of the root frame goes
on to resolve there. -/
theorem frames_of_leads_failing_call :
    let host : Host := { settings := .ofVariables ⟨none, none, none⟩, files := .catalogue [] }
    let run : Run := ⟨host, 100, 50, .serve (.run "((lambda (x y) (x y)) car 1)"), initialStore⟩
    Run.Leads initialStore run.final ∧ run.final.EndsAtRoot rootFrame ∧
      (run.final.lookup? "car" rootFrame).isSome := by
  intro host run
  have hleads : Run.Leads initialStore run.final := .run .refl trivial
  have hframes := frames_of_leads .initial hleads
  have hroot : rootFrame < run.final.frames.size := hleads.evolves.toExtends.frame_lt Nat.one_pos
  exact ⟨hleads, (hframes.2.1 hroot).1, (hframes.2.1 hroot).2.2.1 .car⟩

end Interpreter

end SmallScheme
