import SmallScheme.Frames
import SmallScheme.Proofs.Discipline.Writes
import SmallScheme.Proofs.Evaluator.Application
import SmallScheme.Proofs.Evaluator.Definitions
import SmallScheme.Proofs.Evolution.Frames
/-!
# The tree of scopes

Whatever a host does with frames, each is inside an older one or in none, so the frames around one
are a chain. A name means what the nearest frame of that chain binds it to. To define a name changes
what it means from where the frame is the nearest one with the name, and nothing else; and to update
a frame is to define the names of a mapping in turn, up to a key that is no name.
-/

namespace SmallScheme

open Machine Interpreter Definitions

/-! ### Chains of frames -/

namespace Store

variable {store after : Store} {frame outer found : FrameId} {name : String} {value : Datum}
  {chain other : List FrameId}

/-- The frames from one outwards, to the one that is in no other. -/
inductive OuterChain (store : Store) : FrameId → List FrameId → Prop where
  | outermost {frame : FrameId} (houter : store.outer? frame = none) :
    OuterChain store frame [frame]
  | inner {frame outer : FrameId} {chain : List FrameId} (houter : store.outer? frame = some outer)
    (hchain : OuterChain store outer chain) : OuterChain store frame (frame :: chain)

/-- The first frame from one outwards that binds the name. -/
def IsNearest (store : Store) (name : String) (frame found : FrameId) : Prop :=
  ∃ inside around, store.OuterChain frame (inside ++ found :: around) ∧
    store.binds name found = true ∧ ∀ nearer ∈ inside, store.binds name nearer = false

/-- Frames are inside older ones. -/
def IsOrdered (store : Store) : Prop :=
  ∀ frame outer, store.outer? frame = some outer → outer < frame

theorem OuterChain.unique (hchain : store.OuterChain frame chain)
    (hother : store.OuterChain frame other) : chain = other := by
  induction hchain generalizing other with
  | outermost houter =>
    cases hother with
    | outermost _ => rfl
    | inner hinner _ => cases houter.symm.trans hinner
  | inner houter _ ih =>
    cases hother with
    | outermost houtermost => cases houter.symm.trans houtermost
    | inner hinner hother =>
      cases houter.symm.trans hinner
      rw [ih hother]

theorem outerChain_chainFrom (hordered : store.IsOrdered) (frame : FrameId) :
    store.OuterChain frame (store.chainFrom frame) := by
  -- the induction is on the age of the frame, as the chain leads to older ones
  induction frame using Nat.strongRecOn with
  | ind frame ih =>
    cases houter : store.outer? frame with
    | none =>
      rw [chainFrom_of_outermost houter]
      exact .outermost houter
    | some outer =>
      have hlt := hordered frame outer houter
      rw [chainFrom_of_inner houter hlt]
      exact .inner houter (ih outer hlt)

theorem isNearest_iff (hordered : store.IsOrdered) :
    store.IsNearest name frame found ↔ store.find? name frame = some found := by
  have hchain := outerChain_chainFrom hordered frame
  rw [find?_eq_find?_chainFrom, List.find?_eq_some_iff_append]
  constructor
  · rintro ⟨inside, around, houter, hbinds, hinside⟩
    refine ⟨hbinds, inside, around, hchain.unique houter, fun nearer hnearer => ?_⟩
    rw [hinside nearer hnearer]
    rfl
  · rintro ⟨hbinds, inside, around, heq, hinside⟩
    exact ⟨inside, around, heq ▸ hchain, hbinds,
      fun nearer hnearer => Bool.not_eq_eq_eq_not.1 (hinside nearer hnearer)⟩

theorem find?_eq_none_iff (hordered : store.IsOrdered) :
    store.find? name frame = none ↔ ∀ found, ¬ store.IsNearest name frame found := by
  rw [Option.eq_none_iff_forall_ne_some]
  exact forall_congr' fun found => not_congr (isNearest_iff hordered).symm

theorem exists_get?_of_find? (hfind : store.find? name frame = some found) :
    ∃ value, (store.bindings found).get? name = some value ∧
      store.lookup? name frame = some value := by
  rw [find?_eq_find?_chainFrom] at hfind
  have hbinds : store.binds name found = true := List.find?_some hfind
  obtain ⟨value, hvalue⟩ := Option.isSome_iff_exists.1 hbinds
  refine ⟨value, hvalue, ?_⟩
  rw [lookup?, find?_eq_find?_chainFrom, hfind]
  exact hvalue

/-! ### A name that is defined -/

theorem isOrdered_define (hordered : store.IsOrdered) (frame : FrameId) (name : String)
    (value : Datum) : (store.define frame name value).IsOrdered :=
  fun inner outer houter =>
    hordered inner outer ((store.outer?_define frame name value inner).symm.trans houter)

theorem chainFrom_congr (houters : ∀ frame, after.outer? frame = store.outer? frame)
    (frame : FrameId) : after.chainFrom frame = store.chainFrom frame := by
  induction frame using Nat.strongRecOn with
  | ind frame ih =>
    rw [chainFrom, chainFrom, houters]
    split
    · next outer _ =>
      split
      · next hlt => rw [ih outer hlt]
      · rfl
    · rfl

/-- Two searches that differ at one element have the same result unless the first one finds it. -/
theorem find?_eq_of_ne {α : Type} {left right : α → Bool} {special : α} {items : List α}
    (hsame : ∀ item, item ≠ special → left item = right item) (hspecial : left special = true)
    (hfind : items.find? left ≠ some special) : items.find? left = items.find? right := by
  induction items with
  | nil => rfl
  | cons item rest ih =>
    by_cases heq : item = special
    · rw [heq, List.find?_cons_of_pos hspecial] at hfind
      exact absurd rfl hfind
    · rw [List.find?_cons, List.find?_cons, hsame item heq]
      cases hright : right item with
      | true => rfl
      | false =>
        have hleft : ¬ left item = true := by
          rw [hsame item heq, hright]
          exact Bool.noConfusion
        rw [List.find?_cons_of_neg hleft] at hfind
        exact ih hfind

/-- A name means the new value from where the frame is the nearest one that binds it. -/
theorem lookup?_of_definesOnly_of_nearest
    (hdefines : store.DefinesOnly after frame name value) (hframe : frame < store.frames.size)
    {inner : FrameId} (hfind : after.find? name inner = some frame) :
    after.lookup? name inner = some value := by
  rw [lookup?, hfind]
  exact hdefines.bound hframe

/-- Everywhere else a name means what it did before. -/
theorem lookup?_of_definesOnly (hdefines : store.DefinesOnly after frame name value)
    (hframe : frame < store.frames.size) {inner : FrameId} {key : String}
    (hfind : ¬ (key = name ∧ after.find? name inner = some frame)) :
    after.lookup? key inner = store.lookup? key inner := by
  have hsame : ∀ other, other ≠ frame ∨ key ≠ name →
      after.binds key other = store.binds key other := fun other hother =>
    congrArg Option.isSome (hdefines.others other key hother)
  have hfound : after.find? key inner = store.find? key inner := by
    rw [find?_eq_find?_chainFrom, find?_eq_find?_chainFrom, chainFrom_congr hdefines.outer]
    by_cases hkey : key = name
    · -- the searches for this name differ at the frame alone, and the later one does not stop there
      subst hkey
      have hbinds : after.binds key frame = true := by
        rw [binds, hdefines.bound hframe]
        rfl
      refine find?_eq_of_ne (fun other hother => hsame other (.inl hother)) hbinds ?_
      rw [← chainFrom_congr hdefines.outer, ← find?_eq_find?_chainFrom]
      exact fun hfound => hfind ⟨rfl, hfound⟩
    · exact congrArg (List.find? · (store.chainFrom inner))
        (funext fun other => hsame other (.inr hkey))
  rw [lookup?, lookup?, hfound]
  cases hcase : store.find? key inner with
  | none => rfl
  | some found =>
    refine hdefines.others found key ?_
    by_cases hkey : key = name
    · subst hkey
      refine .inl ?_
      rintro rfl
      exact hfind ⟨rfl, hfound.trans hcase⟩
    · exact .inr hkey

/-- Define names in turn. -/
def defineAll (store : Store) (frame : FrameId) (pairs : List (String × Datum)) : Store :=
  pairs.foldl (fun store (name, value) => store.define frame name value) store

end Store

namespace ScopeTree

variable {limit : Nat} {frame : FrameId} {store : Store} {key value : Datum}
  {pairs : List (String × Datum)} {entries rest mapping : List (Datum × Datum)}

/-! ### Mappings -/

/-- The entry of a mapping that binds a name. -/
def entry (pair : String × Datum) : Datum × Datum := (.symbol pair.1, pair.2)

/-- The keys can be keys, and there is one entry for each. -/
structure IsMapping (limit : Nat) (entries : List (Datum × Datum)) : Prop where
  keys : ∀ entry ∈ entries, entry.1.keyObstacle? limit = none
  once : entries.Pairwise fun earlier later => earlier.1.same later.1 = false

theorem mapKey_of_new (hnew : ∀ known ∈ mapping, known.1.same key = false) :
    mapKey key value mapping = mapping ++ [(key, value)] := by
  induction mapping with
  | nil => rfl
  | cons known rest ih =>
    obtain ⟨hknown, hrest⟩ := List.forall_mem_cons.1 hnew
    rw [mapKey, if_neg (by rw [hknown]; exact Bool.noConfusion), ih hrest, List.cons_append]

theorem foldl_mapKey (hnew : ∀ known ∈ mapping, ∀ entry ∈ entries, known.1.same entry.1 = false)
    (honce : entries.Pairwise fun earlier later => earlier.1.same later.1 = false) :
    entries.foldl (fun mapping (key, value) => mapKey key value mapping) mapping =
      mapping ++ entries := by
  induction entries generalizing mapping with
  | nil => rw [List.foldl_nil, List.append_nil]
  | cons entry rest ih =>
    obtain ⟨hfirst, hothers⟩ := List.pairwise_cons.1 honce
    have hstep : mapKey entry.1 entry.2 mapping = mapping ++ [entry] :=
      mapKey_of_new fun known hknown => hnew known hknown entry (List.mem_cons_self ..)
    have hlater : ∀ known ∈ mapping ++ [entry], ∀ later ∈ rest, known.1.same later.1 = false := by
      intro known hknown later hlater
      rcases List.mem_append.1 hknown with hknown | hknown
      · exact hnew known hknown later (List.mem_cons_of_mem _ hlater)
      · rw [List.mem_singleton.1 hknown]
        exact hfirst later hlater
    refine (congrArg (rest.foldl _) hstep).trans ((ih hlater hothers).trans ?_)
    rw [List.append_assoc, List.singleton_append]

theorem forM_checkKey (hkeys : ∀ entry ∈ entries, entry.1.keyObstacle? limit = none) :
    (entries.forM fun (key, _) => checkKey limit key) = pure () := by
  induction entries with
  | nil => rfl
  | cons entry rest ih =>
    obtain ⟨hkey, hrest⟩ := List.forall_mem_cons.1 hkeys
    have hfirst : checkKey limit entry.1 = pure () := by
      rw [checkKey, hkey]
    change (checkKey limit entry.1 >>= fun _ => rest.forM fun (key, _) => checkKey limit key) = _
    rw [hfirst, pure_bind, ih hrest]

/-- To update a frame is to define the names of the mapping in turn. -/
theorem updateKeys_eq (hmapping : IsMapping limit entries) (frame : FrameId) :
    updateKeys limit frame entries =
      entries.forM fun (key, value) => defineKey limit frame key value := by
  have hfold := foldl_mapKey (fun _ hknown => absurd hknown List.not_mem_nil) hmapping.once
  rw [List.nil_append] at hfold
  rw [updateKeys, forM_checkKey hmapping.keys]
  simp only [hfold, pure_bind]

theorem defineKey_eq_failDiagnosing (hkey : key.isName = false) (limit : Nat) (frame : FrameId)
    (value : Datum) : defineKey limit frame key value =
      failDiagnosing limit key (.notBindable key.plainText) := by
  cases key with
  | symbol name => cases hkey
  | _ => rfl

theorem defineKey_of_unnamed (limit : Nat) (hkey : key.isName = false) :
    ∃ interrupt, RefusedWith limit key interrupt ∧ ∀ frame value,
      defineKey limit frame key value = throw interrupt := by
  have hkind : (Fault.notBindable key.plainText).kind = .illFormed := rfl
  refine ⟨_, refusedWith_diagnosing hkind limit key, ?_⟩
  intro frame value
  rw [defineKey_eq_failDiagnosing hkey, failDiagnosing_eq]

theorem forM_defineKey (limit : Nat) (frame : FrameId) (pairs : List (String × Datum))
    (store : Store) :
    (pairs.forM fun (name, value) => defineKey limit frame (.symbol name) value) store =
      .ok () (store.defineAll frame pairs) := by
  induction pairs generalizing store with
  | nil => rfl
  | cons pair rest ih => exact ih (store.define frame pair.1 pair.2)

theorem forM_map_entry (limit : Nat) (frame : FrameId) (pairs : List (String × Datum)) :
    ((pairs.map entry).forM fun (key, value) => defineKey limit frame key value) =
      pairs.forM fun (name, value) => defineKey limit frame (.symbol name) value := by
  induction pairs with
  | nil => rfl
  | cons pair rest ih =>
    exact congrArg (fun next => defineKey limit frame (.symbol pair.1) pair.2 >>= fun _ => next) ih

/-- What comes before the first key that is no name is defined, and nothing behind it. -/
theorem forM_defineKey_of_unnamed (hkey : key.isName = false) :
    ∃ interrupt, RefusedWith limit key interrupt ∧
      ((pairs.map entry ++ (key, value) :: rest).forM fun (key, value) =>
        defineKey limit frame key value) store =
          .error interrupt (store.defineAll frame pairs) := by
  obtain ⟨interrupt, hrefused, hthrow⟩ := defineKey_of_unnamed limit hkey
  refine ⟨interrupt, hrefused, ?_⟩
  induction pairs generalizing store with
  | nil => exact bind_of_error (congrFun (hthrow frame value) store)
  | cons pair rest ih => exact ih

/-! ### What a host does with frames -/

/-- To make a frame, to bind a name or the entries of a mapping in one, and to enter a closure. -/
inductive Operation where
  | new (outer : Option FrameId)
  | define (frame : FrameId) (key value : Datum)
  | update (frame : FrameId) (entries : List (Datum × Datum))
  | call (callee : Datum) (formals : Formals) (captured : FrameId) (arguments : List Datum)

namespace Operation

/-- The frame that is needed. -/
def frame? : Operation → Option FrameId
  | new outer => outer
  | define frame .. | update frame _ => some frame
  | call _ _ captured _ => some captured

def perform (limit : Nat) : Operation → Machine Unit
  | new outer => discard (newFrame [] outer)
  | define frame key value => defineKey limit frame key value
  | update frame entries => updateKeys limit frame entries
  | call callee formals captured arguments =>
    discard (enterClosure callee formals captured arguments)

end Operation

/-- A host gets to the store: from nothing or from what an interpreter has left, and by operations
on frames that are there, whatever their ends. -/
inductive Built : Store → Prop where
  | empty : Built .empty
  | reachable {store : Store} (hstore : Interpreter.Reachable store) : Built store
  | operation {store : Store} (hstore : Built store) (limit : Nat) (operation : Operation)
    (hframe : ∀ frame, operation.frame? = some frame → frame < store.frames.size) :
    Built (Outcome.store (operation.perform limit store))

/-- Whatever its end, the computation leaves each frame in the one that it is in. -/
def KeepsOuter {α : Type} (computation : Machine α) : Prop :=
  ∀ store frame, (Outcome.store (computation store)).outer? frame = store.outer? frame

theorem keepsOuter_checkKey (limit : Nat) (key : Datum) : KeepsOuter (checkKey limit key) := by
  intro store frame
  rw [checkKey]
  cases key.keyObstacle? limit with
  | none => rfl
  | some obstacle => cases obstacle <;> rfl

theorem KeepsOuter.bind {α β : Type} {computation : Machine α} {next : α → Machine β}
    (hfirst : KeepsOuter computation) (hnext : ∀ value, KeepsOuter (next value)) :
    KeepsOuter (computation >>= next) := by
  intro store frame
  have hstore := hfirst store frame
  cases hrun : computation store with
  | ok value between =>
    rw [hrun] at hstore
    rw [bind_of_ok hrun, hnext value between frame]
    exact hstore
  | error interrupt after =>
    rw [hrun] at hstore
    rw [bind_of_error hrun]
    exact hstore

theorem keepsOuter_forM {α : Type} {run : α → Machine Unit} (hrun : ∀ item, KeepsOuter (run item))
    (items : List α) : KeepsOuter (items.forM run) := by
  induction items with
  | nil => exact fun _ _ => rfl
  | cons item rest ih => exact (hrun item).bind fun _ => ih

theorem keepsOuter_defineKey (limit : Nat) (frame : FrameId) (key value : Datum) :
    KeepsOuter (defineKey limit frame key value) := by
  intro store inner
  cases hkey : key.isName with
  | true =>
    obtain ⟨name, rfl⟩ := Datum.isName_iff.1 hkey
    exact store.outer?_define frame name value inner
  | false =>
    obtain ⟨interrupt, -, hthrow⟩ := defineKey_of_unnamed limit hkey
    rw [hthrow]
    rfl

theorem keepsOuter_updateKeys (limit : Nat) (frame : FrameId) (entries : List (Datum × Datum)) :
    KeepsOuter (updateKeys limit frame entries) :=
  (keepsOuter_forM (fun (key, _) => keepsOuter_checkKey limit key) entries).bind fun _ =>
    keepsOuter_forM (fun (key, value) => keepsOuter_defineKey limit frame key value) _

theorem isOrdered_of_keepsOuter {computation : Machine Unit} (hkeeps : KeepsOuter computation)
    (hordered : store.IsOrdered) : (Outcome.store (computation store)).IsOrdered :=
  fun frame outer houter => hordered frame outer ((hkeeps store frame).symm.trans houter)

theorem isOrdered_push {after : Store} {bindings : Bindings} {outer : Option FrameId}
    (hframes : after.frames = store.frames.push { bindings, outer }) (hordered : store.IsOrdered)
    (houter : ∀ frame, outer = some frame → frame < store.frames.size) : after.IsOrdered := by
  intro inner around haround
  rw [Store.outer?, hframes, Array.getElem?_push] at haround
  by_cases hnew : inner = store.frames.size
  · rw [if_pos hnew] at haround
    rw [hnew]
    exact houter around haround
  · rw [if_neg hnew] at haround
    exact hordered inner around haround

theorem enterClosure_eq_error {callee : Datum} {formals : Formals} {captured : FrameId}
    {arguments : List Datum} {interrupt : Interrupt} {after : Store}
    (henter : enterClosure callee formals captured arguments store = .error interrupt after) :
    after = store := by
  cases formals with
  | rest name => cases henter
  | fixed names =>
    by_cases hcount : names.length = arguments.length
    · rw [enterClosure_fixed hcount] at henter
      cases henter
    · rw [enterClosure_of_length_ne hcount] at henter
      cases henter
      rfl

/-- An operation on frames that are there leaves every frame in an older one. -/
theorem isOrdered_perform (hordered : store.IsOrdered) (limit : Nat) (operation : Operation)
    (hframe : ∀ frame, operation.frame? = some frame → frame < store.frames.size) :
    (Outcome.store (operation.perform limit store)).IsOrdered := by
  cases operation with
  | new outer => exact isOrdered_push rfl hordered hframe
  | define frame key value =>
    exact isOrdered_of_keepsOuter (keepsOuter_defineKey limit frame key value) hordered
  | update frame entries =>
    exact isOrdered_of_keepsOuter (keepsOuter_updateKeys limit frame entries) hordered
  | call callee formals captured arguments =>
    rw [Operation.perform]
    cases henter : enterClosure callee formals captured arguments store with
    | ok inner after =>
      obtain ⟨-, bindings, hframes⟩ := frames_of_enterClosure henter
      rw [discard_of_ok henter]
      exact isOrdered_push hframes hordered fun frame heq => hframe frame heq
    | error interrupt after =>
      cases enterClosure_eq_error henter
      rw [discard_of_error henter]
      exact hordered

/-- In whatever store a host has come to, every frame is in an older one. -/
theorem isOrdered_of_built (hbuilt : Built store) : store.IsOrdered := by
  induction hbuilt with
  | empty => exact fun frame outer houter => nomatch houter
  | reachable hstore => exact fun _ _ houter => (sound_of_reachable hstore).outer_lt houter
  | operation _ limit operation hframe ih => exact isOrdered_perform ih limit operation hframe

/-! ### The laws of scopes -/

/-- What an outcome says, without the store that it leaves. -/
def answer {α : Type} : Outcome α → Except Interrupt α
  | .ok value _ => .ok value
  | .error interrupt _ => .error interrupt

/-- What is expected of the frames of a store. -/
structure ScopeLaws (limit : Nat) (store : Store) : Prop where
  chain : ∀ frame, ∃! chain, store.OuterChain frame chain
  /-- A name is found in the nearest frame that binds it. -/
  find : ∀ frame name, ∃ found?, findKey limit frame (.symbol name) store = .ok found? store ∧
    ∀ found, found? = some found ↔ store.IsNearest name frame found
  /-- Its value is the one that it has there. -/
  lookup : ∀ frame name found, store.IsNearest name frame found →
    ∃ value, (store.bindings found).get? name = some value ∧
      lookupKey limit frame (.symbol name) store = .ok value store
  unbound : ∀ frame name, (∀ found, ¬ store.IsNearest name frame found) →
    lookupKey limit frame (.symbol name) store = .error (.fault (.unbound name)) store
  /-- What is defined is seen from where its frame is the nearest with the name, and from everywhere
  else all names mean what they did. A name that is there keeps its place, a new one goes last. -/
  define : ∀ frame < store.frames.size, ∀ name value, ∃ after,
    defineKey limit frame (.symbol name) value store = .ok () after ∧
    (∀ inner key,
      (key = name ∧ after.IsNearest name inner frame →
        lookupKey limit inner (.symbol key) after = .ok value after) ∧
      (¬ (key = name ∧ after.IsNearest name inner frame) →
        answer (lookupKey limit inner (.symbol key) after) =
          answer (lookupKey limit inner (.symbol key) store))) ∧
    (after.bindings frame).map Prod.fst =
      (if name ∈ (store.bindings frame).map Prod.fst then (store.bindings frame).map Prod.fst
      else (store.bindings frame).map Prod.fst ++ [name]) ∧
    ∀ other ≠ frame, after.bindings other = store.bindings other
  refuse : ∀ key, key.isName = false → ∃ interrupt, RefusedWith limit key interrupt ∧
    ∀ frame value, defineKey limit frame key value store = .error interrupt store
  /-- The entries of a mapping are defined in turn, and those before a key that is no name are kept
  where there is one. -/
  update : ∀ frame (pairs : List (String × Datum)), ∃ after,
    (pairs.forM fun (name, value) => defineKey limit frame (.symbol name) value) store =
      .ok () after ∧
    (IsMapping limit (pairs.map entry) →
      updateKeys limit frame (pairs.map entry) store = .ok () after) ∧
    ∀ key value rest, key.isName = false →
      IsMapping limit (pairs.map entry ++ (key, value) :: rest) →
        ∃ interrupt, RefusedWith limit key interrupt ∧
          updateKeys limit frame (pairs.map entry ++ (key, value) :: rest) store =
            .error interrupt after

theorem lookupKey_symbol (limit : Nat) (frame : FrameId) (name : String) (store : Store) :
    lookupKey limit frame (.symbol name) store =
      match store.lookup? name frame with
      | some value => .ok value store
      | none => .error (.fault (.unbound name)) store :=
  lookup_eq frame name store

theorem answer_lookupKey_congr {after : Store} {inner : FrameId} {name : String}
    (hlookup : after.lookup? name inner = store.lookup? name inner) :
    answer (lookupKey limit inner (.symbol name) after) =
      answer (lookupKey limit inner (.symbol name) store) := by
  rw [lookupKey_symbol, lookupKey_symbol, hlookup]
  cases store.lookup? name inner <;> rfl

/-- Whatever operations a host has done on frames, from nothing or in an interpreter, the frames are
a tree of scopes: each is in a chain of its own, a name is found in the nearest frame of the chain
that binds it and has the value that it has there; to define a name changes what it means from where
the frame is that nearest one, and nothing else; what is no name is refused and changes nothing; and
to update a frame is to define the entries of a mapping in turn, up to the first that is refused. -/
theorem scopeLaws_of_built (hbuilt : Built store) (limit : Nat) : ScopeLaws limit store where
  chain frame :=
    have hchain := Store.outerChain_chainFrom (isOrdered_of_built hbuilt) frame
    ⟨_, hchain, fun _ hother => hother.unique hchain⟩
  find frame name :=
    ⟨store.find? name frame, rfl, fun _ => (Store.isNearest_iff (isOrdered_of_built hbuilt)).symm⟩
  lookup frame name found hnearest := by
    obtain ⟨value, hvalue, hlookup⟩ :=
      Store.exists_get?_of_find? ((Store.isNearest_iff (isOrdered_of_built hbuilt)).1 hnearest)
    exact ⟨value, hvalue, by rw [lookupKey_symbol, hlookup]⟩
  unbound frame name hnone := by
    have hfind := (Store.find?_eq_none_iff (isOrdered_of_built hbuilt)).2 hnone
    have hlookup : store.lookup? name frame = none := by rw [Store.lookup?, hfind]
    rw [lookupKey_symbol, hlookup]
  define frame hframe name value := by
    let after := store.define frame name value
    have hafter : after.IsOrdered :=
      Store.isOrdered_define (isOrdered_of_built hbuilt) frame name value
    have hdefines : store.DefinesOnly after frame name value := store.definesOnly_define ..
    refine ⟨after, rfl, fun inner key => ⟨?_, fun hother => ?_⟩, ?_, fun other hother => ?_⟩
    · rintro ⟨rfl, hnearest⟩
      rw [lookupKey_symbol, Store.lookup?_of_definesOnly_of_nearest hdefines hframe
        ((Store.isNearest_iff hafter).1 hnearest)]
    · rw [Store.isNearest_iff hafter] at hother
      exact answer_lookupKey_congr (Store.lookup?_of_definesOnly hdefines hframe hother)
    · rw [Store.bindings_define_self hframe, Bindings.names_set]
    · exact Store.bindings_define_of_ne hother store name value
  refuse key hkey := by
    obtain ⟨interrupt, hrefused, hthrow⟩ := defineKey_of_unnamed limit hkey
    exact ⟨interrupt, hrefused, fun frame value => congrFun (hthrow frame value) store⟩
  update frame pairs := by
    refine ⟨_, forM_defineKey limit frame pairs store, fun hmapping => ?_,
      fun key value rest hkey hmapping => ?_⟩
    · rw [updateKeys_eq hmapping, forM_map_entry]
      exact forM_defineKey limit frame pairs store
    · rw [updateKeys_eq hmapping]
      exact forM_defineKey_of_unnamed hkey

/-- Of two frames the inner one sees what is defined in the outer one. -/
theorem lookupKey_of_two_frames :
    let outermost : Store := Outcome.store ((Operation.new none).perform 1 .empty)
    let store : Store := Outcome.store ((Operation.new (some 0)).perform 1 outermost)
    Built store ∧ ∃ after,
      defineKey 1 0 (.symbol "x") (.str "a") store = .ok () after ∧
        lookupKey 1 1 (.symbol "x") after = .ok (.str "a") after := by
  intro outermost store
  have hbuilt : Built store := by
    refine .operation (.operation .empty 1 (.new none) ?_) 1 (.new (some 0)) ?_
    · rintro frame ⟨⟩
    · rintro frame ⟨⟩
      exact Nat.zero_lt_one
  have hsize : 0 < store.frames.size := Nat.zero_lt_two
  obtain ⟨after, hdefine, hseen, -⟩ :=
    (scopeLaws_of_built hbuilt 1).define 0 hsize "x" (.str "a")
  refine ⟨hbuilt, after, hdefine, (hseen 1 "x").1 ⟨rfl, ?_⟩⟩
  cases hdefine
  refine ⟨[1], [], .inner rfl (.outermost rfl), rfl, fun nearer hnearer => ?_⟩
  rw [List.mem_singleton.1 hnearer]
  rfl

theorem quoteItems_replicate_empty (limit count : Nat) (store : Store) :
    quoteItems (limit + 1) (.replicate count (.form none [])) store =
      .ok (.replicate count .empty) store := by
  induction count with
  | zero => rfl
  | succ count ih =>
    have hempty : quoteDatum (limit + 1) (.form none []) store = .ok .empty store := rfl
    rw [List.replicate_succ, quoteItems, bind_of_ok hempty, bind_of_ok ih]
    rfl

/-- The value of a quoted list of many empty lists is no name, but cannot be shown: it is refused
for its depth and not as a fault of form. -/
theorem defineKey_of_deep_key :
    let store : Store := Outcome.store ((Operation.new none).perform depthLimit .empty)
    let form : Datum := .form none (.replicate 20000 (.form none []))
    ∃ key after, quoteDatum depthLimit form store = .ok key after ∧
      Built store ∧ key.isName = false ∧
      defineKey depthLimit 0 key (.bool true) store = .error .tooDeep store ∧
      ¬ ∃ fault after, fault.kind = .illFormed ∧
        defineKey depthLimit 0 key (.bool true) store = .error (.fault fault) after := by
  intro store form
  let key : Datum := .chain store.nextLabel (.replicate 20000 .empty) .empty
  have hquote : quoteDatum (998 + 2) form store =
      listOf (.replicate 20000 .empty) .empty store := by
    rw [quoteDatum, if_neg (Nat.succ_ne_zero _)]
    exact bind_of_ok (quoteItems_replicate_empty 998 20000 store)
  have hdeep : key.isTooDeepToDiagnose depthLimit = true := by
    refine Datum.isTooDeepToDiagnose_chain _ _ ?_
    rw [List.length_replicate]
    decide
  have hkey : key.isName = false := rfl
  have hrun : defineKey depthLimit 0 key (.bool true) store = .error .tooDeep store := by
    rw [defineKey_eq_failDiagnosing hkey, failDiagnosing, hdeep]
    rfl
  have hbuilt : Built store := .operation .empty depthLimit (.new none) (by rintro frame ⟨⟩)
  refine ⟨key, _, hquote.trans (listOf_eq _ _ _), hbuilt, hkey, hrun, ?_⟩
  rintro ⟨fault, after, -, hfault⟩
  cases hrun.symm.trans hfault

end ScopeTree

end SmallScheme
