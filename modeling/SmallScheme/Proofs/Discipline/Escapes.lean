import SmallScheme.Proofs.Discipline.Watch
import SmallScheme.Proofs.Evaluator.Sequence
/-!
# What gets past a resilient sequence

A text that is run ends without a value only in two ways. Either it is nested too deep for the
reader, or something in the run breaks down: a remainder with an infinite dividend, or the loading
of a name for which there is no path, whose search is refused, or which no file can have. No fault
gets out, and neither does the depth that an evaluation reaches.
-/

namespace SmallScheme

open Machine

/-! ### Causes of breakdowns -/

theorem Double.isZero_finite_zero (negative : Bool) (representable : Representable 0) :
    (finite negative 0 representable).isZero = true := by
  cases negative <;> rfl

/-- Only an infinite dividend lacks a remainder, unless the divisor is zero. -/
theorem Double.exists_infinite_of_remainder? {left right : Double}
    (hremainder : left.remainder? right = none) (hzero : right.isZero = false) :
    (∃ negative, left = .infinite negative) ∧ right ≠ .nan := by
  cases left with
  | nan => cases hremainder
  | infinite negative =>
    refine ⟨⟨negative, rfl⟩, ?_⟩
    rintro rfl
    cases hremainder
  | finite negative units representable =>
    cases right with
    | nan => cases hremainder
    | infinite => cases hremainder
    | finite negative units representable =>
      rw [remainder?] at hremainder
      split at hremainder
      · next hunits =>
        subst hunits
        rw [isZero_finite_zero] at hzero
        cases hzero
      · cases hremainder

/-- The arguments are an infinite dividend and a divisor that is neither zero nor no number. -/
def lacksRemainder (dividend divisor : Datum) : Bool :=
  match dividend.number?, divisor.number? with
  | some (.infinite _), some right => right != .nan && !right.isZero
  | _, _ => false

theorem lacksRemainder_of_remainder? {dividend divisor : Datum} {left right : Double}
    (hleft : dividend.number? = some left) (hright : divisor.number? = some right)
    (hzero : right.isZero = false) (hremainder : left.remainder? right = none) :
    lacksRemainder dividend divisor = true := by
  obtain ⟨⟨negative, rfl⟩, hnan⟩ := Double.exists_infinite_of_remainder? hremainder hzero
  simp [lacksRemainder, hleft, hright, hzero, hnan]

/-- What bars the loading of a name: its path has no last part or would get an impossible one, the
search is refused, or what is found is no path that a file can have. -/
inductive Host.IsBarred (host : Host) (name : String) : Breakdown → Prop where
  | unnamed (hname : (Path.ofText name).name.isEmpty) :
    IsBarred host name (.emptyName (Path.ofText name).text)
  | invalid
    (hname : Path.isFileName ((Path.ofText name).name ++ host.settings.extension) = false) :
    IsBarred host name (.invalidName ((Path.ofText name).name ++ host.settings.extension))
  | refused {candidate : Path} {refusal : Refusal}
    (hrefused : host.files.isFile candidate = .error refusal) :
    IsBarred host name (.searchRefused refusal candidate.text)
  | impossible {found : Path} (hfound : host.resolve name = .ok found)
    (hread : host.files.read found = .error .zeroInName) : IsBarred host name .zeroInName

theorem Host.isBarred_of_breakdown? {host : Host} {name : String} {breakdown : Breakdown}
    (hbreakdown : host.breakdown? name = some breakdown) : host.IsBarred name breakdown := by
  unfold breakdown? at hbreakdown
  split at hbreakdown
  · next hresolve =>
    cases hbreakdown
    rcases exists_of_resolve hresolve with
      ⟨hempty, rfl⟩ | ⟨hinvalid, rfl⟩ | ⟨candidate, refusal, hrefused, rfl⟩
    · exact .unnamed hempty
    · exact .invalid hinvalid
    · exact .refused hrefused
  · next found hresolve =>
    split at hbreakdown <;> cases hbreakdown
    next hread => exact .impossible hresolve hread

/-- Watch everything that causes a breakdown. -/
def Watch.causing (host : Host) (breakdown : Breakdown) : Watch := fun event _ =>
  match event with
  | .call (.builtin .remainder) [dividend, divisor] =>
    breakdown == .remainderDomain && lacksRemainder dividend divisor
  | .load name => host.breakdown? name == some breakdown
  | _ => false

/-- Only a remainder and a name that is barred are watched. -/
theorem Watch.exists_of_causing {host : Host} {breakdown : Breakdown} {event : Event}
    {store : Store} (hwatched : causing host breakdown event store = true) :
    breakdown = .remainderDomain ∨ ∃ name, host.IsBarred name breakdown := by
  unfold causing at hwatched
  split at hwatched
  · rw [Bool.and_eq_true, beq_iff_eq] at hwatched
    exact .inl hwatched.1
  · next name =>
    rw [beq_iff_eq] at hwatched
    exact .inr ⟨name, Host.isBarred_of_breakdown? hwatched⟩
  · cases hwatched

/-- Everything may be done that does not break down in a certain way. -/
def Discipline.avoiding (breakdown : Breakdown) (hinteger : breakdown ≠ .integerTooLarge) :
    Discipline where
  holds _ := True
  mayUse _ := True
  mayBreak other := other ≠ breakdown
  holds_of_frames := fun _ _ => trivial
  holds_define := fun _ _ _ _ => trivial
  holds_pushFrame := fun _ _ => trivial
  mayUse_size := fun _ => trivial
  mayBreak_integerTooLarge := hinteger.symm

theorem Watch.guards_causing (host : Host) {breakdown : Breakdown}
    (hinteger : breakdown ≠ .integerTooLarge) :
    (causing host breakdown).Guards (.avoiding breakdown hinteger) host := by
  intro event store _ hunwatched
  cases event with
  | load name =>
    rintro other hother rfl
    have hwatched : causing host other (.load name) store = true := by
      rw [causing, Option.mem_def.1 hother]
      exact beq_self_eq_true _
    exact absurd hunwatched (hwatched ▸ Bool.noConfusion)
  | call callee arguments =>
    change (Discipline.avoiding breakdown hinteger).AllowsCall store callee arguments
    unfold Discipline.AllowsCall
    split
    · next dividend divisor =>
      rintro left right hleft hright hzero hremainder rfl
      have hwatched : causing host .remainderDomain
          (.call (.builtin .remainder) [dividend, divisor]) store = true := by
        rw [causing, lacksRemainder_of_remainder? hleft hright hzero hremainder]
        rfl
      exact absurd hunwatched (hwatched ▸ Bool.noConfusion)
    · exact fun _ _ _ => trivial
    · trivial

/-! ### Runs under watch -/

namespace Machine

theorem isRepeated_runStream {context : Context} {family : Nat → Datum → FrameId → Machine Datum}
    (hcontext : ∀ expression frame, Reference.IsRepeated (context.evaluate expression frame)
      fun number => family number expression frame)
    (frame : FrameId) (previous : Datum) (stream : TokenStream) :
    Reference.IsRepeated (runStream context frame previous stream) fun number =>
      runStream { context with evaluate := family number } frame previous stream := by
  let forms := (stream.readAll context.limit).1
  have hsame : forms.map (Datum.relabel .zero) = forms := by
    rw [← Datum.relabelAll_eq_map, Datum.relabelAll_zero]
  have hattempt := simulates_attempt (Reference.isSimulated_of_isRepeated hcontext) frame
  have hforms := Simulates.foldlM hattempt forms previous
  rw [hsame, Datum.relabel_zero] at hforms
  simp only [runStream_eq]
  refine hforms.bind fun value => ?_
  rw [Datum.relabel_zero]
  exact Reference.isRepeated_refl _

theorem obeys_runStream {rules : Discipline} {context : Context} {store : Store} {frame : FrameId}
    (hcontext : context.IsObedient rules) (hholds : rules.holds store)
    (hframe : rules.mayUse frame) (previous : Datum) (stream : TokenStream) :
    Obeys rules store (runStream context frame previous stream) := by
  rw [runStream_eq]
  have hforms : Obeys rules store
      ((stream.readAll context.limit).1.foldlM (attempt context frame) previous) :=
    .foldlM hholds _ fun _ previous form hholds =>
      obeys_attempt hcontext hholds hframe previous form
  refine hforms.bind fun _ value hholds _ => ?_
  unfold concludeResiliently
  split
  · exact .pure hholds trivial
  · exact (obeys_record hholds _ _ _).bind fun _ _ hholds _ => .pure hholds trivial
  · next hfailure =>
    exact .throw hholds ((TokenStream.isOfText_of_mem_readAll hfailure).mayEndWith rules)

/-- What ends a run of forms before its end is no fault, and not the depth of an evaluation. -/
theorem RunsForms.escape_of_error {context : Context} {frame : FrameId} {previous : Datum}
    {forms : List Datum} {store after : Store} {interrupt : Interrupt}
    (hruns : RunsForms context frame previous forms store (.error interrupt after)) :
    interrupt.fault? = none := by
  generalize houtcome : EStateM.Result.error interrupt after = outcome at hruns
  induction hruns with
  | nil => cases houtcome
  | value _ _ ih => exact ih houtcome
  | fault _ _ _ ih => exact ih houtcome
  | escape _ hescape =>
    cases houtcome
    exact hescape

/-- A run is ended by a breakdown or a lack of steps, or by the depth of the text. -/
theorem fault?_of_runStream {context : Context} {frame : FrameId} {previous : Datum}
    {stream : TokenStream} {store after : Store} {interrupt : Interrupt}
    (hrun : runStream context frame previous stream store = .error interrupt after) :
    interrupt.fault? = none ∨
      interrupt = .tooDeep ∧ (stream.readAll context.limit).2 = some .tooDeep := by
  rw [runStream_eq, bind_concludeResiliently] at hrun
  cases hforms : (stream.readAll context.limit).1.foldlM (attempt context frame) previous store with
  | error other between =>
    rw [hforms] at hrun
    cases hrun
    exact .inl (runsForms_iff.2 hforms).escape_of_error
  | ok value between =>
    rw [hforms] at hrun
    unfold Outcome.reporting at hrun
    dsimp only at hrun
    split at hrun
    · cases hrun
    · cases hrun
    · next other hfault hfailure =>
      cases hrun
      have htext := TokenStream.isOfText_of_mem_readAll hfailure
      cases interrupt with
      | fault fault => exact absurd rfl (hfault fault)
      | tooDeep => exact .inr ⟨rfl, hfailure⟩
      | breakdown => exact htext.elim
      | outOfSteps => exact htext.elim

end Machine

namespace Interpreter

/-- A run of a text comes to something that is watched. -/
def RunMeets (watch : Watch) (host : Host) (limit : Nat) (text : String) : Store → Prop :=
  Watched.Stops
    (fun steps => (Request.run text).serve (Watched.contextWithin watch host steps limit))
    fun steps => (Request.run text).serve (contextWithin host steps limit)

theorem cuts_run (watch : Watch) (host : Host) (steps limit : Nat) (text : String) :
    Watched.Cuts ((Request.run text).serve (Watched.contextWithin watch host steps limit))
      ((Request.run text).serve (contextWithin host steps limit)) := by
  let context := Watched.contextWithin watch host steps limit
  have hcontext : ∀ expression frame, Reference.IsRepeated (context.evaluate expression frame)
      fun _ => evaluate host steps limit expression frame :=
    Watched.isRepeated_evaluate host steps limit
  exact Watched.cuts_of_isRepeated
    (isRepeated_runStream hcontext rootFrame .unspecified (.ofText text))

/-- A run that comes to something watched does so for an event that is. -/
theorem exists_of_runMeets {watch : Watch} {host : Host} {limit : Nat} {text : String}
    {store : Store} (hmeets : RunMeets watch host limit text store) :
    ∃ event other, watch event other = true := by
  by_contra hnone
  have hunwatched : ∀ event other, watch event other = false := by
    intro event other
    cases hevent : watch event other with
    | false => rfl
    | true => exact absurd ⟨event, other, hevent⟩ hnone
  obtain ⟨steps, hfinished, hstopped⟩ := hmeets
  have hsame : Watched.contextWithin watch host steps limit = contextWithin host steps limit := by
    rw [Watched.contextWithin, Watched.evaluate_of_unwatched hunwatched]
    rfl
  simp only [hsame] at hstopped
  exact hstopped hfinished

/-- A run that breaks down comes to what causes that: under watch for it, the run would avoid it. -/
theorem runMeets_of_breakdown {host : Host} {limit : Nat} {text : String} {store after : Store}
    {breakdown : Breakdown} (hstore : Reachable store)
    (hends : EndsWith (fun steps => (Request.run text).serve (contextWithin host steps limit)) store
      (.error (.breakdown breakdown) after)) :
    RunMeets (.causing host breakdown) host limit text store := by
  have ⟨_, steps, hrun⟩ := hends
  by_contra hunmet
  have hsafe := givesValue_serve (sound_of_reachable hstore) host steps limit (.run text)
  have hinteger : breakdown ≠ .integerTooLarge := by
    rintro rfl
    exact (hsafe.error hrun).2.2
  obtain ⟨-, watchedSteps, hwatched⟩ := Watched.endsWith_of_not_stops
    (fun steps => cuts_run (.causing host breakdown) host steps limit text) hends hunmet
  let context := Watched.contextWithin (.causing host breakdown) host watchedSteps limit
  have hcontext : context.IsObedient (.avoiding breakdown hinteger) :=
    fun _ _ hholds hframe expression =>
      Watched.obeys_evaluate (Watch.guards_causing host hinteger) watchedSteps limit hholds
        hframe expression
  have hobeys : Obeys (.avoiding breakdown hinteger) store ((Request.run text).serve context) :=
    obeys_runStream hcontext trivial trivial .unspecified (.ofText text)
  exact (hobeys.error hwatched).2 rfl

/-- If a run in a reachable store ends without a value, either the text is nested too deep to be
read, or it is ended by a breakdown whose cause occurs in the run: a remainder that there is none
of, or the loading of a name that is barred from it. -/
theorem cause_of_run_error {host : Host} {limit : Nat} {text : String} {store after : Store}
    {interrupt : Interrupt} (hstore : Reachable store)
    (hends : EndsWith (fun steps => (Request.run text).serve (contextWithin host steps limit)) store
      (.error interrupt after)) :
    (interrupt = .tooDeep ∧ ((TokenStream.ofText text).readAll limit).2 = some .tooDeep) ∨
      ∃ breakdown, interrupt = .breakdown breakdown ∧
        RunMeets (.causing host breakdown) host limit text store ∧
        (breakdown = .remainderDomain ∨ ∃ name, host.IsBarred name breakdown) := by
  have ⟨hfinished, steps, hrun⟩ := hends
  rcases fault?_of_runStream hrun with hescape | hread
  · cases interrupt with
    | fault => cases hescape
    | tooDeep => cases hescape
    | outOfSteps => exact absurd rfl hfinished
    | breakdown breakdown =>
      have hmeets := runMeets_of_breakdown hstore hends
      obtain ⟨event, other, hwatched⟩ := exists_of_runMeets hmeets
      exact .inr ⟨breakdown, rfl, hmeets, Watch.exists_of_causing hwatched⟩
  · exact .inl hread

/-! ### Every breakdown of a loading gets out -/

theorem exists_of_loadFile {context : Context} {name : String} {breakdown : Breakdown}
    (hbreakdown : context.host.breakdown? name = some breakdown) (frame : FrameId)
    (store : Store) :
    ∃ after, loadFile context frame name store = .error (.breakdown breakdown) after := by
  unfold Host.breakdown? at hbreakdown
  unfold loadFile
  split at hbreakdown
  · next hresolve =>
    cases hbreakdown
    rw [hresolve]
    exact ⟨store, rfl⟩
  · next path hresolve =>
    split at hbreakdown <;> cases hbreakdown
    next hread =>
    have htext : readFileText context.host path store =
        .error (.breakdown .zeroInName) { store with opened := store.opened.push path.text } := by
      unfold readFileText
      rw [hread]
      rfl
    rw [hresolve]
    exact ⟨_, bind_of_error htext⟩

/-- The source text that loads a name. -/
def loadText (name : String) : List Char :=
  '(' :: (joinChars [' '] ["load".toList, Literal.encode name.toList] ++ [')'])

theorem readSource_loadText (name : String) (limit : Nat) :
    readSource (limit + 1) (String.ofList (loadText name)) =
      .ok [.form none [.keyword .load, .str name]] := by
  have hload : ReadsAs (limit + 1) 0 "load".toList (.keyword .load) :=
    readsAs_identifier (isIdentifier_keyword .load)
  have hname : ReadsAs (limit + 1) 0 (Literal.encode name.toList) (.str name) := by
    have hstring : ReadsAs (limit + 1) 0 (Literal.encode name.toList)
        (.str (String.ofList name.toList)) := readsAs_string name.toList
    rwa [String.ofList_toList] at hstring
  exact readSource_of_readsAs (readsAs_form (.cons hload (.cons hname .nil)))
    (Nat.le_add_left 1 limit)

/-- A run of a text that loads a name breaks down if the loading does. -/
theorem run_loadText {host : Host} {name : String} {breakdown : Breakdown}
    (hbreakdown : host.breakdown? name = some breakdown) (steps limit : Nat) (store : Store) :
    ∃ after, (Request.run (String.ofList (loadText name))).serve
      (contextWithin host (steps + 1) (limit + 2)) store = .error (.breakdown breakdown) after := by
  let inner : Context :=
    { host, limit := limit + 1, evaluate := evaluate host (steps + 1) (limit + 1) }
  have hinner : inner.host.breakdown? name = some breakdown := hbreakdown
  obtain ⟨after, hfile⟩ := exists_of_loadFile hinner rootFrame store
  have hleniently : loadLeniently inner rootFrame name store =
      .error (.breakdown breakdown) after := by
    rw [loadLeniently, tryCatch_of_error (discard_of_error hfile)]
    rfl
  have hload : evaluateLoad inner rootFrame [.str name] store =
      .error (.breakdown breakdown) after := by
    have htarget : inner.evaluate (.str name) rootFrame store = .ok (.str name) store := rfl
    exact (bind_of_ok htarget).trans (bind_of_error hleniently)
  have hform : evaluate host (steps + 1) (limit + 2) (.form none [.keyword .load, .str name])
      rootFrame store = .error (.breakdown breakdown) after := by
    rw [evaluate, iterate_succ, step_keyword]
    exact bind_of_error (map_of_error hload)
  refine ⟨after, ?_⟩
  rw [serve_run_of_readSource (readSource_loadText name (limit + 1)), List.foldlM_cons]
  exact bind_of_error (attempt_of_escape hform rfl)

/-- The empty name has no path, and that its loading breaks down is what ends a run that asks for
it. -/
theorem cause_of_unnamed_load :
    let host : Host := { settings := .ofVariables ⟨none, none, none⟩, files := .catalogue [] }
    RunMeets (.causing host (.emptyName ".")) host 2 (String.ofList (loadText ""))
      initialStore := by
  intro host
  have hbreakdown : host.breakdown? "" = some (.emptyName ".") := rfl
  obtain ⟨after, hrun⟩ := run_loadText hbreakdown 0 0 initialStore
  have hends : EndsWith (fun steps => (Request.run (String.ofList (loadText ""))).serve
      (contextWithin host steps 2)) initialStore (.error (.breakdown (.emptyName ".")) after) :=
    ⟨by rintro ⟨⟩, 1, hrun⟩
  rcases cause_of_run_error .initial hends with ⟨hdeep, -⟩ | ⟨breakdown, hcause, hmeets, -⟩
  · cases hdeep
  · cases hcause
    exact hmeets

end Interpreter

end SmallScheme
