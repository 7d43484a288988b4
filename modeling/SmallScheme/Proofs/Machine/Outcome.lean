import SmallScheme.Machine
/-!
# Outcomes of composed computations

What a composed computation ends with, in terms of what its parts end with.
-/

namespace SmallScheme

namespace Machine

variable {α β : Type} {computation : Machine α} {next : α → Machine β} {store after : Store}

theorem bind_of_ok {value : α} (hfirst : computation store = .ok value after) :
    (computation >>= next) store = next value after := by
  simp only [bind, EStateM.bind, hfirst]

theorem bind_of_error {interrupt : Interrupt}
    (hfirst : computation store = .error interrupt after) :
    (computation >>= next) store = .error interrupt after := by
  simp only [bind, EStateM.bind, hfirst]

theorem bind_congr_of_eq {other : Machine α} (hfirst : computation store = other store) :
    (computation >>= next) store = (other >>= next) store := by
  simp only [bind, EStateM.bind, hfirst]

/-- A composed computation has a value only if each part has one. -/
theorem bind_eq_ok {value : β} :
    (computation >>= next) store = .ok value after ↔
      ∃ first between,
        computation store = .ok first between ∧ next first between = .ok value after := by
  constructor
  · intro hboth
    cases hfirst : computation store with
    | ok first between =>
      rw [bind_of_ok hfirst] at hboth
      exact ⟨first, between, rfl, hboth⟩
    | error interrupt between =>
      rw [bind_of_error hfirst] at hboth
      cases hboth
  · rintro ⟨first, between, hfirst, hnext⟩
    rw [bind_of_ok hfirst, hnext]

theorem map_of_ok {function : α → β} {value : α} (hfirst : computation store = .ok value after) :
    (function <$> computation) store = .ok (function value) after := by
  rw [map_eq_pure_bind, bind_of_ok hfirst]
  rfl

theorem map_of_error {function : α → β} {interrupt : Interrupt}
    (hfirst : computation store = .error interrupt after) :
    (function <$> computation) store = .error interrupt after := by
  rw [map_eq_pure_bind, bind_of_error hfirst]

theorem discard_of_ok {value : α} (hfirst : computation store = .ok value after) :
    (discard computation : Machine PUnit) store = .ok PUnit.unit after :=
  map_of_ok hfirst

theorem discard_of_error {interrupt : Interrupt}
    (hfirst : computation store = .error interrupt after) :
    (discard computation : Machine PUnit) store = .error interrupt after :=
  map_of_error hfirst

theorem tryCatch_of_ok {handler : Interrupt → Machine α} {value : α}
    (hfirst : computation store = .ok value after) :
    tryCatch computation handler store = .ok value after := by
  change EStateM.tryCatch computation handler store = _
  delta EStateM.tryCatch
  simp only [hfirst]

/-- A handler starts in the store that the interrupt leaves. -/
theorem tryCatch_of_error {handler : Interrupt → Machine α} {interrupt : Interrupt}
    (hfirst : computation store = .error interrupt after) :
    tryCatch computation handler store = handler interrupt after := by
  change EStateM.tryCatch computation handler store = _
  delta EStateM.tryCatch
  simp only [hfirst]
  rfl

/-- What ends a computation that refuses a datum: a fault that shows the datum, unless it is too
deep for that. -/
def diagnosing (limit : Nat) (datum : Datum) (fault : Fault) : Interrupt :=
  if datum.isTooDeepToDiagnose limit then .tooDeep else .fault fault

theorem diagnosing_cases (limit : Nat) (datum : Datum) (fault : Fault) :
    diagnosing limit datum fault = .fault fault ∨
      diagnosing limit datum fault = .tooDeep ∧ datum.isTooDeepToDiagnose limit = true := by
  rw [diagnosing]
  split
  · next hdeep => exact .inr ⟨rfl, hdeep⟩
  · exact .inl rfl

theorem failDiagnosing_eq (limit : Nat) (datum : Datum) (fault : Fault) :
    (failDiagnosing limit datum fault : Machine α) = throw (diagnosing limit datum fault) := by
  rw [failDiagnosing, diagnosing]
  split <;> rfl

theorem failDiagnosing_ne_ok {limit : Nat} {datum : Datum} {fault : Fault} {value : α} :
    (failDiagnosing limit datum fault : Machine α) store ≠ .ok value after := by
  rw [failDiagnosing_eq]
  rintro ⟨⟩

/-- What ends a computation that refuses a datum by its text: a fault that holds the text, unless
there is something in the way of writing it. -/
def printing (limit : Nat) (datum : Datum) (fault : Fault) : Interrupt :=
  match datum.printObstacle? limit with
  | none => .fault fault
  | some .tooDeep => .tooDeep
  | some .integerTooLarge => .breakdown .integerTooLarge

theorem failPrinting_eq (limit : Nat) (datum : Datum) (fault : Fault) :
    (failPrinting limit datum fault : Machine α) = throw (printing limit datum fault) := by
  rw [failPrinting, checkPrintable, printing]
  cases datum.printObstacle? limit with
  | none => rfl
  | some obstacle => cases obstacle <;> rfl

theorem checkPrintable_of_shown {limit : Nat} {datum : Datum}
    (hshown : datum.printObstacle? limit = none) (store : Store) :
    checkPrintable limit datum store = .ok () store := by
  rw [checkPrintable, hshown]
  rfl

theorem exists_checkPrintable_of_hidden {limit : Nat} {datum : Datum}
    (hhidden : datum.printObstacle? limit ≠ none) (store : Store) :
    ∃ interrupt, checkPrintable limit datum store = .error interrupt store := by
  rw [checkPrintable]
  cases hobstacle : datum.printObstacle? limit with
  | none => exact absurd hobstacle hhidden
  | some obstacle =>
    cases obstacle with
    | tooDeep => exact ⟨.tooDeep, rfl⟩
    | integerTooLarge => exact ⟨.breakdown .integerTooLarge, rfl⟩

theorem lookup_eq (frame : FrameId) (name : String) (store : Store) :
    lookup frame name store =
      match store.lookup? name frame with
      | some value => .ok value store
      | none => .error (.fault (.unbound name)) store := by
  change (match store.lookup? name frame with
    | some value => return value
    | none => fail (.unbound name) : Machine Datum) store = _
  cases store.lookup? name frame <;> rfl

/-- The number of new labels depends on the length of the chain only. -/
theorem listOf_eq (heads : List Datum) (ending : Datum) (store : Store) :
    listOf heads ending store =
      .ok (.chain store.nextLabel heads ending)
        { store with nextLabel := store.nextLabel + heads.length } := rfl

end Machine

end SmallScheme
