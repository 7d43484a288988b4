import SmallScheme.Proofs.Evaluator.Endings
import SmallScheme.Proofs.Evaluator.Loading
import SmallScheme.Proofs.Evaluator.Rejection
/-!
# Loading what a list names

A list of names, with lists inside it however nested, is loaded as its names are one by one, from
left to right. What is found on the way that is neither a name nor a list of such is refused when
its turn comes, and what has been loaded before that stays.
-/

namespace SmallScheme

open Machine

/-! ### The leaves of a value -/

namespace Datum

/-- What a value is made of for someone who loads it: an empty list is nothing, a list is what its
elements are made of, and everything else, an improper list too, is a piece of its own. -/
def leaves : Datum → List Datum
  | .empty => []
  | .pair label head tail =>
    if tail.isList then head.leaves ++ tail.leaves else [.pair label head tail]
  | datum => [datum]

theorem leaves_of_isList {datum : Datum} (hlist : datum.isList) :
    datum.leaves = datum.items.flatMap leaves := by
  induction datum, hlist using list_induction with
  | empty => rfl
  | pair label head tail htail ih => rw [leaves, if_pos htail, items, List.flatMap_cons, ih]

theorem leaves_of_pair {label : Label} {head tail : Datum}
    (himproper : ¬ (pair label head tail).isList) :
    (pair label head tail).leaves = [pair label head tail] := if_neg himproper

/-- The name of the file that a value stands for. -/
def fileName? : Datum → Option String
  | .str name | .quoted name => some name
  | _ => none

/-- The expression for the loading of a single name. -/
def loading : Datum → Datum
  | .quoted name => .form none [.keyword .load, .form none [.keyword .quote, .symbol name]]
  | leaf => .form none [.keyword .load, leaf]

end Datum

namespace Machine

/-- Load the file of a name; what is no name is refused. -/
def loadLeaf (context : Context) (frame : FrameId) (leaf : Datum) : Machine Unit :=
  match leaf.fileName? with
  | some name => loadLeniently context frame name
  | none => fail (.notLoadable leaf)

variable {host : Host} {context : Context} {limit : Nat} {frame : FrameId} {store : Store}
  {datum leaf : Datum} {name : String}

theorem loadLeaf_of_name (hname : leaf.fileName? = some name) :
    loadLeaf context frame leaf = loadLeniently context frame name := by
  rw [loadLeaf, hname]

theorem loadLeaf_of_none (hname : leaf.fileName? = none) :
    loadLeaf context frame leaf = fail (.notLoadable leaf) := by
  rw [loadLeaf, hname]

theorem forM_flatMap {α β : Type} {items : List α} {pieces : α → List β} {run : α → Machine Unit}
    {visit : β → Machine Unit} (hitems : ∀ item ∈ items, run item = forM (pieces item) visit) :
    forM items run = forM (items.flatMap pieces) visit := by
  induction items with
  | nil => rfl
  | cons item rest ih =>
    rw [List.forall_mem_cons] at hitems
    rw [List.forM_cons, List.flatMap_cons, List.forM_append, hitems.1, ih hitems.2]

theorem forM_singleton {α : Type} (item : α) (run : α → Machine Unit) :
    forM [item] run = run item := by
  rw [List.forM_cons]
  exact bind_pure_unit

theorem loadTarget_of_name (hname : datum.fileName? = some name) :
    loadTarget context frame (limit + 1) datum = loadLeniently context frame name := by
  cases datum with
  | str | quoted =>
    cases hname
    rfl
  | _ => cases hname

theorem loadTarget_of_isList (hpair : datum.isPair) (hlist : datum.isList) :
    loadTarget context frame (limit + 1) datum =
      forM datum.items (loadTarget context frame limit) := by
  cases datum with
  | pair label head tail =>
    change (if (Datum.pair label head tail).isList then _ else _) = _
    rw [if_pos hlist]
    rfl
  | _ => cases hpair

theorem loadTarget_of_not_isList (hlist : ¬ datum.isList) (hname : datum.fileName? = none) :
    loadTarget context frame (limit + 1) datum = failPrinting limit datum (.notLoadable datum) := by
  cases datum with
  | pair label head tail =>
    change (if (Datum.pair label head tail).isList then _ else _) = _
    rw [if_neg hlist]
  | str | quoted => cases hname
  | empty => exact absurd rfl hlist
  | _ => rfl

/-- To load what a value names is to load its leaves in turn, unless it nests too deep. -/
theorem loadTarget_eq (hvalue : datum.IsValue store) (hnesting : datum.nesting + 1 < limit) :
    loadTarget context frame limit datum = forM datum.leaves (loadLeaf context frame) := by
  induction limit generalizing datum with
  | zero => exact absurd hnesting (Nat.not_lt_zero _)
  | succ limit ih =>
    have hrefused : ¬ datum.isList → datum.fileName? = none → datum.leaves = [datum] →
        loadTarget context frame (limit + 1) datum =
          forM datum.leaves (loadLeaf context frame) := by
      intro hlist hname hleaves
      have hshown : datum.printObstacle? limit = none :=
        hvalue.printObstacle?_eq_none.1 limit (Nat.lt_of_succ_lt_succ hnesting)
      rw [loadTarget_of_not_isList hlist hname, failPrinting_of_shown hshown, hleaves,
        forM_singleton, loadLeaf_of_none hname]
      rfl
    have hnamed : ∀ name, datum.fileName? = some name → datum.leaves = [datum] →
        loadTarget context frame (limit + 1) datum =
          forM datum.leaves (loadLeaf context frame) := by
      intro name hname hleaves
      rw [loadTarget_of_name hname, hleaves, forM_singleton, loadLeaf_of_name hname]
    cases hvalue with
    | str name | @quoted name => exact hnamed name rfl rfl
    | empty => rfl
    | @pair label head tail hlabel hhead htail =>
      have hpair : (Datum.pair label head tail).IsValue store := .pair hlabel hhead htail
      by_cases hlist : (Datum.pair label head tail).isList
      · rw [loadTarget_of_isList rfl hlist, Datum.leaves_of_isList hlist]
        refine forM_flatMap fun item hmem => ?_
        have hless := Datum.nesting_lt_of_mem_items hmem
        exact ih (hpair.of_mem_items hmem) (by omega)
      · exact hrefused hlist rfl (Datum.leaves_of_pair hlist)
    | _ => exact hrefused Bool.false_ne_true rfl rfl

/-! ### How a loading ends -/

theorem steady_loadTarget (host : Host) (limit : Nat) (frame : FrameId) (depth : Nat)
    (target : Datum) :
    Steady fun steps =>
      loadTarget (Interpreter.contextWithin host steps limit) frame depth target := by
  refine steady_of_simulates (fun _ => rfl) fun steps more hle => ?_
  have htarget := simulates_loadTarget (isSimulated_contextWithin host limit hle) frame depth target
  rwa [Datum.relabel_zero] at htarget

theorem steady_loadLeniently (host : Host) (limit : Nat) (frame : FrameId) (name : String) :
    Steady fun steps =>
      loadLeniently (Interpreter.contextWithin host steps limit) frame name :=
  steady_of_simulates (fun _ => rfl) fun _ _ hle =>
    simulates_loadLeniently (isSimulated_contextWithin host limit hle) frame name

theorem steady_forM_loadLeaf (host : Host) (limit : Nat) (frame : FrameId) (leaves : List Datum) :
    Steady fun steps =>
      forM leaves (loadLeaf (Interpreter.contextWithin host steps limit) frame) := by
  induction leaves with
  | nil => exact steady_const _
  | cons leaf rest ih =>
    simp only [List.forM_cons]
    refine Steady.bind ?_ fun _ => ih
    cases hname : leaf.fileName? with
    | some name =>
      simp only [loadLeaf_of_name hname]
      exact steady_loadLeniently host limit frame name
    | none =>
      simp only [loadLeaf_of_none hname]
      exact steady_const _

variable {outcome : Outcome Datum}

/-- A loading is the loading of the value that its operand has. -/
theorem endsWith_load_iff {label : Option Label} {operand target : Datum} {between : Store}
    (hoperand : Configuration.EndsWith host limit ⟨operand, frame, store⟩ (.ok target between)) :
    Configuration.EndsWith host (limit + 1) ⟨.form label [.keyword .load, operand], frame, store⟩
        outcome ↔
      EndsWith (fun steps => loadTarget (Interpreter.contextWithin host steps limit) frame limit
        target >>= fun _ => pure .unspecified) between outcome := by
  refine (Configuration.endsWith_special_iff
    (fun context => evaluateLoad context frame [operand])
    fun _ => rfl).trans ?_
  exact endsWith_bind_of_ok (steady_evaluate host limit operand frame)
    (fun target => (steady_loadTarget host limit frame limit target).bind fun _ =>
      steady_const _) hoperand

/-- The loading of a single name, which the expression for it stands for. -/
theorem endsWith_loading_iff (hname : leaf.fileName? = some name) :
    Configuration.EndsWith host (limit + 2) ⟨leaf.loading, frame, store⟩ outcome ↔
      EndsWith (fun steps => loadLeniently (Interpreter.contextWithin host steps (limit + 1)) frame
        name >>= fun _ => pure .unspecified) store outcome := by
  have hload : ∀ operand, Configuration.EndsWith host (limit + 1) ⟨operand, frame, store⟩
      (.ok leaf store) →
      (Configuration.EndsWith host (limit + 2) ⟨.form none [.keyword .load, operand], frame, store⟩
        outcome ↔
      EndsWith (fun steps => loadLeniently (Interpreter.contextWithin host steps (limit + 1)) frame
        name >>= fun _ => pure .unspecified) store outcome) := by
    intro operand hoperand
    refine (endsWith_load_iff hoperand).trans ?_
    simp only [loadTarget_of_name hname]
  cases leaf with
  | str text => exact hload (.str text) ⟨trivial, 1, rfl⟩
  | quoted text =>
    have hquote : evaluate host 1 (limit + 1) (.form none [.keyword .quote, .symbol text]) frame =
        pure (.quoted text) := evaluate_of_done rfl
    exact hload _ ⟨trivial, 1, congrFun hquote store⟩
  | _ => cases hname

/-- A loading that has a value has the unspecified one. -/
theorem endsWith_loading_ok_iff (hname : leaf.fileName? = some name) {value : Datum}
    {between : Store} :
    Configuration.EndsWith host (limit + 2) ⟨leaf.loading, frame, store⟩ (.ok value between) ↔
      value = .unspecified ∧
        EndsWith (fun steps => loadLeniently (Interpreter.contextWithin host steps (limit + 1))
          frame name) store (.ok () between) := by
  rw [endsWith_loading_iff hname,
    endsWith_map_iff (steady_loadLeniently host (limit + 1) frame name)]
  constructor
  · rintro (⟨_, between, hvalue, heq⟩ | ⟨_, _, -, heq⟩)
    · cases heq
      exact ⟨rfl, hvalue⟩
    · cases heq
  · rintro ⟨rfl, hvalue⟩
    exact .inl ⟨(), between, hvalue, rfl⟩

theorem endsWith_loading_error_iff (hname : leaf.fileName? = some name) {interrupt : Interrupt}
    {after : Store} :
    Configuration.EndsWith host (limit + 2) ⟨leaf.loading, frame, store⟩
        (.error interrupt after) ↔
      EndsWith (fun steps => loadLeniently (Interpreter.contextWithin host steps (limit + 1)) frame
        name) store (.error interrupt after) := by
  rw [endsWith_loading_iff hname,
    endsWith_map_iff (steady_loadLeniently host (limit + 1) frame name)]
  constructor
  · rintro (⟨_, _, -, heq⟩ | ⟨_, _, herror, heq⟩)
    · cases heq
    · cases heq
      exact herror
  · exact fun herror => .inr ⟨interrupt, after, herror, rfl⟩

end Machine

namespace Configuration

/-- The names among the leaves are loaded in turn, each by an expression of its own, up to the first
whose loading is interrupted or the first leaf that is no name. -/
inductive LoadsEach (host : Host) (limit : Nat) (frame : FrameId) :
    List Datum → Store → Outcome Datum → Prop where
  | nil {store : Store} : LoadsEach host limit frame [] store (.ok .unspecified store)
  | loaded {leaf value : Datum} {name : String} {rest : List Datum} {store between : Store}
    {outcome : Outcome Datum} (hname : leaf.fileName? = some name)
    (hleaf : EndsWith host limit ⟨leaf.loading, frame, store⟩ (.ok value between))
    (hrest : LoadsEach host limit frame rest between outcome) :
    LoadsEach host limit frame (leaf :: rest) store outcome
  | interrupted {leaf : Datum} {name : String} {rest : List Datum} {store after : Store}
    {interrupt : Interrupt} (hname : leaf.fileName? = some name)
    (hleaf : EndsWith host limit ⟨leaf.loading, frame, store⟩ (.error interrupt after)) :
    LoadsEach host limit frame (leaf :: rest) store (.error interrupt after)
  | refused {leaf : Datum} {rest : List Datum} {store : Store} (hname : leaf.fileName? = none) :
    LoadsEach host limit frame (leaf :: rest) store (.error (.fault (.notLoadable leaf)) store)

variable {host : Host} {limit : Nat} {frame : FrameId} {store : Store} {leaves : List Datum}
  {outcome : Outcome Datum}

theorem endsWith_forM_loadLeaf_iff :
    Machine.EndsWith (fun steps =>
      forM leaves (loadLeaf (Interpreter.contextWithin host steps (limit + 1)) frame) >>= fun _ =>
        pure .unspecified) store outcome ↔
      LoadsEach host (limit + 2) frame leaves store outcome := by
  induction leaves generalizing store with
  | nil =>
    refine endsWith_pure_iff.trans ⟨?_, ?_⟩
    · rintro rfl
      exact .nil
    · rintro ⟨⟩
      rfl
  | cons leaf rest ih =>
    simp only [List.forM_cons, bind_assoc]
    cases hname : leaf.fileName? with
    | none =>
      simp only [loadLeaf_of_none hname]
      refine (endsWith_throw_iff Interrupt.noConfusion).trans ⟨?_, ?_⟩
      · rintro rfl
        exact .refused hname
      · rintro (_ | hother | hother | _)
        · rw [hname] at hother
          cases hother
        · rw [hname] at hother
          cases hother
        · rfl
    | some name =>
      simp only [loadLeaf_of_name hname]
      refine (endsWith_bind_iff (steady_loadLeniently host (limit + 1) frame name) fun _ =>
        (steady_forM_loadLeaf host (limit + 1) frame rest).bind fun _ =>
          steady_const _).trans ⟨?_, ?_⟩
      · rintro (⟨⟨⟩, between, hvalue, hrest⟩ | ⟨interrupt, after, herror, rfl⟩)
        · exact .loaded hname ((endsWith_loading_ok_iff hname).2 ⟨rfl, hvalue⟩) (ih.1 hrest)
        · exact .interrupted hname ((endsWith_loading_error_iff hname).2 herror)
      · rintro (_ | ⟨-, hvalue, hrest⟩ | ⟨-, herror⟩ | hother)
        · exact .inl ⟨(), _, ((endsWith_loading_ok_iff hname).1 hvalue).2, ih.2 hrest⟩
        · exact .inr ⟨_, _, (endsWith_loading_error_iff hname).1 herror, rfl⟩
        · rw [hname] at hother
          cases hother

/-- If all leaves are names, to load them in turn is to evaluate the sequence of the loadings, where
the last one has a level of nesting more to use; it must have no use for it. -/
theorem loadsEach_iff_evaluatesBody (hnames : ∀ leaf ∈ leaves, ∃ name, leaf.fileName? = some name)
    (hroom : ∀ earlier last between, leaves = earlier ++ [last] →
      LoadsEach host (limit + 2) frame earlier store (.ok .unspecified between) → ∀ outcome,
        EndsWith host (limit + 2) ⟨last.loading, frame, between⟩ outcome ↔
          EndsWith host (limit + 3) ⟨last.loading, frame, between⟩ outcome) :
    LoadsEach host (limit + 2) frame leaves store outcome ↔
      EvaluatesBody host (limit + 2) frame (leaves.map Datum.loading) store outcome := by
  induction leaves generalizing store with
  | nil =>
    constructor
    · rintro ⟨⟩
      exact .nil
    · rintro ⟨⟩
      exact .nil
  | cons leaf rest ih =>
    rw [List.forall_mem_cons] at hnames
    obtain ⟨⟨name, hname⟩, hnames⟩ := hnames
    cases rest with
    | nil =>
      have hlast := hroom [] leaf store rfl .nil
      constructor
      · rintro (_ | ⟨-, hvalue, hrest⟩ | ⟨-, herror⟩ | hother)
        · cases hrest
          obtain ⟨rfl, -⟩ := (endsWith_loading_ok_iff hname).1 hvalue
          exact .last ((hlast _).1 hvalue)
        · exact .last ((hlast _).1 herror)
        · rw [hname] at hother
          cases hother
      · rintro (_ | hleaf)
        rw [← hlast] at hleaf
        cases outcome with
        | ok value between =>
          obtain ⟨rfl, -⟩ := (endsWith_loading_ok_iff hname).1 hleaf
          exact .loaded hname hleaf .nil
        | error interrupt after => exact .interrupted hname hleaf
    | cons next rest =>
      have hlater : ∀ {value between}, EndsWith host (limit + 2) ⟨leaf.loading, frame, store⟩
          (.ok value between) → (LoadsEach host (limit + 2) frame (next :: rest) between outcome ↔
            EvaluatesBody host (limit + 2) frame ((next :: rest).map Datum.loading) between
              outcome) := by
        intro value between hvalue
        refine ih hnames ?_
        intro earlier last final heq hloads
        exact hroom (leaf :: earlier) last final (congrArg (leaf :: ·) heq)
          (.loaded hname hvalue hloads)
      constructor
      · rintro (_ | ⟨-, hvalue, hrest⟩ | ⟨-, herror⟩ | hother)
        · exact .cons hvalue ((hlater hvalue).1 hrest)
        · exact .interrupted herror
        · rw [hname] at hother
          cases hother
      · rintro (_ | _ | ⟨hvalue, hrest⟩ | herror)
        · exact .loaded hname hvalue ((hlater hvalue).2 hrest)
        · exact .interrupted hname herror

/-- The loading of a name whose file cannot be opened or decoded is one record of the log. -/
theorem endsWith_loading_iff_of_error {leaf : Datum} {name reason : String} {path : Path}
    {failure : ReadFailure} (hname : leaf.fileName? = some name)
    (hresolve : host.resolve name = .ok path) (hread : host.files.read path = .error failure)
    (hreason : failure.reason? path = some reason) :
    EndsWith host (limit + 2) ⟨leaf.loading, frame, store⟩ outcome ↔
      outcome = .ok .unspecified
        { store with
          opened := store.opened.push path.text
          log := store.log.push
            { level := .error, logger := .loadForm,
              message := "load " ++ path.text ++ " failed: " ++ reason } } := by
  have hload : ∀ context : Context, context.host = host →
      loadLeniently context frame name store = .ok PUnit.unit
        { store with
          opened := store.opened.push path.text
          log := store.log.push
            { level := .error, logger := .loadForm,
              message := "load " ++ path.text ++ " failed: " ++ reason } } := by
    rintro context rfl
    exact loadLeniently_of_error hresolve hread hreason
  refine (endsWith_loading_iff hname).trans ?_
  exact (endsWith_bind_of_ok (steady_loadLeniently host (limit + 1) frame name)
    (fun _ => steady_const _) ⟨trivial, 0, hload _ rfl⟩).trans endsWith_pure_iff

/-- The loading of a name whose file cannot be read as a whole raises what is wrong with it. -/
theorem endsWith_loading_iff_of_readSource_error {leaf : Datum} {name text : String} {path : Path}
    {fault : Fault} (hname : leaf.fileName? = some name)
    (hresolve : host.resolve name = .ok path) (hread : host.files.read path = .ok text)
    (hfailure : readSource (limit + 1) text = .error (.fault fault)) :
    EndsWith host (limit + 2) ⟨leaf.loading, frame, store⟩ outcome ↔
      outcome = .error (.fault fault) (store.noteLoading path) := by
  have hload : loadLeniently (Interpreter.contextWithin host 0 (limit + 1)) frame name store =
      .error (.fault fault) (store.noteLoading path) :=
    loadLeniently_of_readSource_error hresolve hread hfailure
  have hends : EndsWith host (limit + 2) ⟨leaf.loading, frame, store⟩
      (.error (.fault fault) (store.noteLoading path)) :=
    (endsWith_loading_error_iff hname).2 ⟨Interrupt.noConfusion, 0, hload⟩
  constructor
  · intro houtcome
    exact Machine.EndsWith.unique (steady_evaluate host (limit + 2) _ frame) houtcome hends
  · rintro rfl
    exact hends

end Configuration

namespace Interpreter

/-- In a reachable store, and in every sound one that an evaluation inside another may start from,
let the operand of a loading have a value that nests less deep than the limit. The loading ends
exactly as the loadings of its leaves in turn: as the first that is interrupted, or with the refusal
of the first leaf that is no name, and otherwise with the unspecified value. A name whose file
cannot be opened or decoded only leaves a record in the log; one whose text is not well formed
interrupts the loading. So, if all leaves are names, the loading does what the sequence of the
single loadings does, provided that the last of these, which may nest one level deeper there, makes
no use of that level. -/
theorem endsWith_load_iff_loadsEach :
    (∀ {store : Store}, Reachable store → store.Sound) ∧
      ∀ {store : Store}, store.Sound →
        ∀ (host : Host) (limit : Nat) (label : Option Label) {operand value : Datum}
          {frame : FrameId} {after : Store}, operand.IsExpression store →
          frame < store.frames.size →
          Configuration.EndsWith host (limit + 1) ⟨operand, frame, store⟩ (.ok value after) →
          value.nesting < limit →
            let load : Configuration := ⟨.form label [.keyword .load, operand], frame, store⟩
            let single (leaf : Datum) (between : Store) : Configuration :=
              ⟨leaf.loading, frame, between⟩
            (∀ outcome, load.EndsWith host (limit + 2) outcome ↔
              Configuration.LoadsEach host (limit + 2) frame value.leaves after outcome) ∧
            (∀ {leaf : Datum} {name : String} {path : Path}, leaf.fileName? = some name →
              host.resolve name = .ok path →
                (∀ failure reason, host.files.read path = .error failure →
                  failure.reason? path = some reason → ∀ between outcome,
                    (single leaf between).EndsWith host (limit + 2) outcome ↔
                      outcome = .ok .unspecified
                        { between with
                          opened := between.opened.push path.text
                          log := between.log.push
                            { level := .error, logger := .loadForm,
                              message := "load " ++ path.text ++ " failed: " ++ reason } }) ∧
                ∀ text fault, host.files.read path = .ok text →
                  readSource (limit + 1) text = .error (.fault fault) →
                    fault.kind = .illFormed ∧ ∀ between outcome,
                      (single leaf between).EndsWith host (limit + 2) outcome ↔
                        outcome = .error (.fault fault) (between.noteLoading path)) ∧
            ((∀ leaf ∈ value.leaves, ∃ name, leaf.fileName? = some name) →
              (∀ earlier last between, value.leaves = earlier ++ [last] →
                Configuration.LoadsEach host (limit + 2) frame earlier after
                  (.ok .unspecified between) → ∀ outcome,
                  (single last between).EndsWith host (limit + 2) outcome ↔
                    (single last between).EndsWith host (limit + 3) outcome) →
              ∀ outcome, load.EndsWith host (limit + 2) outcome ↔
                Configuration.EndsWith host (limit + 3)
                  ⟨.form none (.keyword .begin :: value.leaves.map Datum.loading), frame, after⟩
                  outcome) := by
  refine ⟨sound_of_reachable, ?_⟩
  intro store hsound host limit label operand value frame after hoperand hframe hvalue hnesting load
    single
  obtain ⟨steps, hevaluated⟩ := hvalue.2
  have hisValue : value.IsValue after :=
    ((givesValue_evaluate host steps (limit + 1) hsound hframe hoperand).ok hevaluated).2.2
  have hload : ∀ outcome, load.EndsWith host (limit + 2) outcome ↔
      Configuration.LoadsEach host (limit + 2) frame value.leaves after outcome := by
    intro outcome
    refine (endsWith_load_iff hvalue).trans ?_
    simp only [loadTarget_eq hisValue (Nat.succ_lt_succ hnesting)]
    exact Configuration.endsWith_forM_loadLeaf_iff
  refine ⟨hload, fun hname hresolve => ⟨?_, ?_⟩, ?_⟩
  · intro failure reason hread hreason between outcome
    exact Configuration.endsWith_loading_iff_of_error hname hresolve hread hreason
  · intro text fault hread hfailure
    refine ⟨(isOfText_of_readSource hfailure).kind_eq, fun between outcome => ?_⟩
    exact Configuration.endsWith_loading_iff_of_readSource_error hname hresolve hread hfailure
  · intro hnames hroom outcome
    rw [hload, Configuration.endsWith_begin_iff]
    exact Configuration.loadsEach_iff_evaluatesBody hnames hroom

/-- Before a truth value is refused, the name in front of it is loaded, and that its file is missing
does not matter; and a list of that name alone is loaded as the sequence with this loading is. -/
theorem endsWith_load_of_list :
    let host : Host :=
      { settings := .ofVariables ⟨none, none, none⟩
        files := { isFile := fun _ => .ok true, read := fun _ => .error (.refused .missing) } }
    let path := Path.ofText "lib.scm"
    let listing (items : List Datum) : Datum :=
      .form none [.keyword .load, .form none (.builtin .list :: items)]
    let listed : Store :=
      { initialStore with nextLabel := initialStore.nextLabel + 2 }
    Configuration.EndsWith host 4 ⟨listing [.str "lib", .bool true], rootFrame, initialStore⟩
        (.error (.fault (.notLoadable (.bool true)))
          { listed with
            opened := listed.opened.push path.text
            log := listed.log.push
              { level := .error, logger := .loadForm,
                message := "load " ++ path.text ++ " failed: " ++
                  Refusal.missing.message path.text } }) ∧
      ∀ outcome, Configuration.EndsWith host 4 ⟨listing [.str "lib"], rootFrame, initialStore⟩
          outcome ↔
        Configuration.EndsWith host 5
          ⟨.form none [.keyword .begin, .form none [.keyword .load, .str "lib"]], rootFrame,
            { initialStore with nextLabel := initialStore.nextLabel + 1 }⟩ outcome := by
  intro host path listing listed
  have hsound : initialStore.Sound := endsWith_load_iff_loadsEach.1 .initial
  have hextended : (Path.ofText "lib").withExtension ".scm" = .ok (Path.ofText "lib.scm") := by rfl
  have hresolve : host.resolve "lib" = .ok path := by
    rw [Host.resolve, show host.settings.extension = ".scm" from rfl, hextended]
    rfl
  have hlisting : ∀ items : List Datum, (∀ item ∈ items, item.IsValue initialStore) →
      (Datum.form none (.builtin .list :: items)).IsExpression initialStore := fun items hitems =>
    .application (List.forall_mem_cons.2 ⟨.builtin .list, hitems⟩)
  have hnames : ∀ item ∈ [Datum.str "lib"], item.IsValue initialStore :=
    List.forall_mem_singleton.2 (.str "lib")
  have hitems : ∀ item ∈ [Datum.str "lib", .bool true], item.IsValue initialStore :=
    List.forall_mem_cons.2 ⟨.str "lib", List.forall_mem_singleton.2 (.bool true)⟩
  constructor
  · obtain ⟨hload, hsingle, -⟩ := endsWith_load_iff_loadsEach.2 hsound host 2 none
      (hlisting _ hitems) hsound.root ⟨trivial, 1, rfl⟩ (by decide)
    have hmissing := (@hsingle (.str "lib") "lib" path rfl hresolve).1 _ _ rfl rfl listed
    exact (hload _).2 (.loaded rfl ((hmissing _).2 rfl) (.refused rfl))
  · obtain ⟨-, -, hsequence⟩ := endsWith_load_iff_loadsEach.2 hsound host 2 none
      (hlisting _ hnames) hsound.root ⟨trivial, 1, rfl⟩ (by decide)
    refine hsequence (List.forall_mem_singleton.2 ⟨"lib", rfl⟩) ?_
    intro earlier last between hleaves _ outcome
    have hlast : last = .str "lib" := by
      have hends := congrArg List.getLast? hleaves
      rw [List.getLast?_concat] at hends
      exact (Option.some.inj hends).symm
    subst hlast
    -- a missing file leaves the same record at every limit
    exact (Configuration.endsWith_loading_iff_of_error rfl hresolve rfl rfl).trans
      (Configuration.endsWith_loading_iff_of_error rfl hresolve rfl rfl).symm

/-! ### Loadings that end in other ways -/

namespace Wrapped

variable {count limit : Nat} {value : Datum}

theorem exists_leaves_eq (hvalue : Wrapped count value) :
    ∃ leaf, value.leaves = [leaf] ∧ leaf.fileName? = none := by
  induction hvalue with
  | improper label => exact ⟨_, Datum.leaves_of_pair Bool.false_ne_true, rfl⟩
  | @wrap count value label _ ih =>
    obtain ⟨leaf, hleaves, hname⟩ := ih
    have hempty : Datum.empty.isList := rfl
    refine ⟨leaf, ?_, hname⟩
    rw [Datum.leaves, if_pos hempty, hleaves]
    rfl

theorem loadTarget_eq (hvalue : Wrapped count value) (hlimit : limit ≤ count) (context : Context)
    (frame : FrameId) : loadTarget context frame limit value = throw .tooDeep := by
  induction hvalue generalizing limit with
  | improper label =>
    cases Nat.le_zero.1 hlimit
    rfl
  | @wrap count value label _ ih =>
    cases limit with
    | zero => rfl
    | succ limit =>
      rw [loadTarget_of_isList rfl rfl]
      exact (forM_singleton value _).trans (ih (Nat.le_of_succ_le_succ hlimit))

end Wrapped

/-- To load the empty name is neither refused nor does it have a value; and a program can compute a
list whose only leaf is no name, but which nests so deep that its loading is given up instead of
refusing that leaf. -/
theorem evaluate_load_of_unnamed_or_deep :
    let host : Host := { settings := .ofVariables ⟨none, none, none⟩, files := .catalogue [] }
    ((Datum.str "").leaves = [.str ""] ∧ (Datum.str "").fileName? = some "" ∧
      evaluate host 1 2 (.form none [.keyword .load, .str ""]) rootFrame initialStore =
        .error (.breakdown (.emptyName ".")) initialStore) ∧
    ∃ store value leaf, Reachable store ∧
      evaluate host stepBudget (depthLimit - 1) (.symbol "x") rootFrame store = .ok value store ∧
      value.leaves = [leaf] ∧ leaf.fileName? = none ∧
      evaluate host stepBudget depthLimit (.form none [.keyword .load, .symbol "x"]) rootFrame
        store = .error .tooDeep store := by
  intro host
  refine ⟨⟨rfl, rfl, rfl⟩, ?_⟩
  obtain ⟨store, value, hstore, -, hvalue, hwrapped⟩ := exists_reachable_wrapped host depthLimit
  obtain ⟨leaf, hleaves, hname⟩ := hwrapped.exists_leaves_eq
  have hoperand : evaluate host stepBudget (depthLimit - 1) (.symbol "x") rootFrame store =
      .ok value store := evaluate_symbol hvalue
  refine ⟨store, value, leaf, hstore, hoperand, hleaves, hname, ?_⟩
  have hload : evaluate host (999999999999999 + 1) (999 + 1)
      (.form none [.keyword .load, .symbol "x"]) rootFrame =
      evaluate host stepBudget 999 (.symbol "x") rootFrame >>= fun target =>
        loadTarget { host, limit := 999, evaluate := evaluate host stepBudget 999 } rootFrame 999
          target >>= fun _ => pure .unspecified :=
    evaluate_of_done rfl
  refine (congrFun hload store).trans ((bind_of_ok hoperand).trans ?_)
  rw [hwrapped.loadTarget_eq (by decide)]
  rfl

end Interpreter

end SmallScheme
