import SmallScheme.Proofs.Depth.Datum
import SmallScheme.Proofs.Evaluator.DeepPrograms
import SmallScheme.Proofs.Evaluator.Denotation
import SmallScheme.Proofs.Reader.Nesting
import SmallScheme.Proofs.Reader.NormalForm
/-!
# Quoting what is read

What a reader makes of a text can be quoted as long as enough levels are left for how deep it nests.
The value has none of the syntax in it, all its lists are proper, and it is printed like the form.
-/

namespace SmallScheme

open Machine

/-! ### Forms that are read -/

namespace Datum

variable {limit : Nat} {form value : Datum}

/-- A reader makes the form of some text, whether or not all of the text can be read. -/
def IsRead (limit : Nat) (form : Datum) : Prop :=
  ∃ text, form ∈ ((TokenStream.ofText text).readAll limit).1

theorem isRead_iff : form.IsRead limit ↔ form.IsSyntax ∧ form.nesting ≤ limit := by
  constructor
  · rintro ⟨text, hmem⟩
    exact ⟨TokenStream.isSyntax_of_mem_readAll (.rest text.toList 0) form hmem,
      TokenStream.nesting_le_of_mem_readAll form hmem⟩
  · rintro ⟨hwritten, hdeep⟩
    obtain ⟨text, hreads⟩ := exists_readsAs_of_isSyntax hwritten limit
    have hread := readAll_of_readSource (readSource_of_readsAs hreads hdeep)
    exact ⟨String.ofList text, hread ▸ List.mem_singleton_self form⟩

/-- No part of the value is syntax. -/
theorem Denotes.not_isSyntax_of_holds (hvalue : form.Denotes value) {part : Datum}
    (hpart : value.Holds part) :
    (∀ name, part ≠ .symbol name) ∧ ∀ label items, part ≠ .form label items := by
  induction hvalue with
  | cons _ _ ihhead ihtail =>
    cases hpart with
    | self => exact ⟨fun _ => Datum.noConfusion, fun _ _ => Datum.noConfusion⟩
    | head hpart => exact ihhead hpart
    | tail hpart => exact ihtail hpart
  | _ =>
    cases hpart
    exact ⟨fun _ => Datum.noConfusion, fun _ _ => Datum.noConfusion⟩

/-- Nothing but its depth keeps a piece of syntax from being printed. -/
theorem printObstacle?_eq_or_of_isSyntax (hwritten : form.IsSyntax) (bound : Nat) :
    form.printObstacle? bound = none ∨ form.printObstacle? bound = some .tooDeep := by
  by_cases hdeep : form.printObstacle? bound = some .tooDeep
  · exact .inr hdeep
  · have hshown := printObstacle?_of_isSyntax hwritten (Nat.le_max_right bound form.nesting)
    have hlarger : bound ≤ max bound form.nesting + 1 :=
      Nat.le_succ_of_le (Nat.le_max_left bound form.nesting)
    exact .inl ((stable_printObstacle? form hlarger hdeep).symm.trans hshown)

/-- The value is free of syntax and improper lists, and its texts are those of the form. The search
for improper lists and the printing of the two may be too deep, but have no other outcome. -/
structure IsQuotationOf (value form : Datum) : Prop where
  not_holds_symbol : ∀ name, ¬ value.Holds (.symbol name)
  not_holds_form : ∀ label items, ¬ value.Holds (.form label items)
  wellFormed? : ∀ bound, value.wellFormed? bound ≠ some false
  source_eq : value.source = form.source
  display_eq : value.display = form.display
  printObstacle?_value : ∀ bound,
    value.printObstacle? bound = none ∨ value.printObstacle? bound = some .tooDeep
  printObstacle?_form : ∀ bound,
    form.printObstacle? bound = none ∨ form.printObstacle? bound = some .tooDeep

theorem Denotes.isQuotationOf (hwritten : form.IsSyntax) (hvalue : form.Denotes value) :
    value.IsQuotationOf form where
  not_holds_symbol name hpart := (hvalue.not_isSyntax_of_holds hpart).1 name rfl
  not_holds_form label items hpart := (hvalue.not_isSyntax_of_holds hpart).2 label items rfl
  wellFormed? bound hanswer :=
    Bool.noConfusion ((wellFormed_iff_of_wellFormed? hanswer).1 hvalue.wellFormed)
  source_eq := congrArg String.ofList (hvalue.chars_eq .literal).1
  display_eq := congrArg String.ofList (hvalue.chars_eq .bare).1
  printObstacle?_value bound := by
    rw [(hvalue.printObstacle?_eq bound).1]
    exact printObstacle?_eq_or_of_isSyntax hwritten bound
  printObstacle?_form := printObstacle?_eq_or_of_isSyntax hwritten

theorem Denotes.wellFormed?_eq_some_true (hvalue : form.Denotes value) {bound : Nat}
    (hdeep : form.nesting < bound) : value.wellFormed? bound = some true := by
  obtain ⟨answer, hanswer⟩ :=
    Option.ne_none_iff_exists'.1 (wellFormed?_ne_none (hvalue.nesting_eq.trans_lt hdeep))
  rw [hanswer, (wellFormed_iff_of_wellFormed? hanswer).1 hvalue.wellFormed]

end Datum

/-- What a reader makes of a text is quoted, unless it is too deep for the levels that are left. The
value that it is quoted as has no syntax in it, all its lists are proper and it is printed like the
form in every way. Two forms that are quoted are equal exactly if their values are. And for every
depth some number of levels is enough to quote, search and print all that nests as deep. -/
theorem quoteDatum_of_isRead :
    ∃ levels : Nat → Nat, ∀ (limit : Nat) (form : Datum), form.IsRead limit →
      ∀ (room : Nat) (store : Store),
        (levels form.nesting ≤ room → ∃ value after,
          quoteDatum room form store = .ok value after) ∧
        ((∃ count, quoteDatum room form store =
            .error .tooDeep { store with nextLabel := store.nextLabel + count }) ∨
          ∃ value count,
            quoteDatum room form store =
                .ok value { store with nextLabel := store.nextLabel + count } ∧
              value.IsQuotationOf form ∧
              (∀ bound, levels form.nesting ≤ bound →
                value.wellFormed? bound = some true ∧ value.printObstacle? bound = none ∧
                  form.printObstacle? bound = none) ∧
              ∀ other otherLimit otherRoom otherStore otherValue otherAfter,
                other.IsRead otherLimit →
                  quoteDatum otherRoom other otherStore = .ok otherValue otherAfter →
                    value.same otherValue = form.same other) := by
  refine ⟨(· + 1), fun limit form hread room store => ?_⟩
  obtain ⟨hwritten, -⟩ := Datum.isRead_iff.1 hread
  rcases Nat.lt_or_ge room form.nesting with hdeep | hdeep
  · refine ⟨fun henough => absurd hdeep (Nat.not_lt.2 (Nat.le_of_succ_le henough)), .inl ?_⟩
    exact exists_quoteDatum_eq_tooDeep hwritten hdeep store
  · obtain ⟨value, count, hquote, hvalue⟩ := exists_quoteDatum_eq_ok hwritten hdeep store
    refine ⟨fun _ => ⟨value, _, hquote⟩,
      .inr ⟨value, count, hquote, hvalue.isQuotationOf hwritten, fun bound henough => ?_, ?_⟩⟩
    · cases bound with
      | zero => exact absurd henough (Nat.not_succ_le_zero _)
      | succ bound =>
        have hshown := Datum.printObstacle?_of_isSyntax hwritten (Nat.le_of_succ_le_succ henough)
        exact ⟨hvalue.wellFormed?_eq_some_true henough,
          (hvalue.printObstacle?_eq _).1.trans hshown, hshown⟩
    · intro other otherLimit otherRoom otherStore otherValue otherAfter hother hquoteOther
      exact hvalue.same_eq (denotes_of_quoteDatum (Datum.isRead_iff.1 hother).1 hquoteOther).2

/-- With enough levels, a list of a string and a number inside of another list is quoted, as a value
that is printed and is equal to itself. -/
theorem quoteDatum_of_inner_list :
    let form : Datum := .form none [.symbol "a", .form none [.str "b", .num (.zero false)]]
    ∃ enough, ∀ room, enough ≤ room → ∃ value count,
      quoteDatum room form .empty =
          .ok value { Store.empty with nextLabel := Store.empty.nextLabel + count } ∧
        value.IsQuotationOf form ∧ value.wellFormed? room = some true ∧
        value.printObstacle? room = none ∧ value.same value = true := by
  intro form
  have hread : form.IsRead 2 := by
    refine Datum.isRead_iff.2 ⟨.form ?_, by decide⟩
    rw [List.forall_mem_cons, List.forall_mem_singleton]
    refine ⟨Datum.isSyntax_symbol (by decide) (by decide) rfl, .form ?_⟩
    rw [List.forall_mem_cons, List.forall_mem_singleton]
    exact ⟨.str "b", .num (by rintro ⟨⟩)⟩
  obtain ⟨levels, hquoted⟩ := quoteDatum_of_isRead
  refine ⟨levels form.nesting, fun room henough => ?_⟩
  obtain ⟨hroom, ⟨_, htooDeep⟩ | ⟨value, count, hquote, hquotation, hshown, hequal⟩⟩ :=
    hquoted 2 form hread room .empty
  · obtain ⟨_, _, hquote⟩ := hroom henough
    cases htooDeep.symm.trans hquote
  · obtain ⟨hlists, hprints, -⟩ := hshown room henough
    refine ⟨value, count, hquote, hquotation, hlists, hprints, ?_⟩
    rw [hequal form 2 room .empty value _ hread hquote]
    decide

/-- A form that a reader makes of a text may be too deep to be quoted where fewer levels are left
than the reader had. Here it is quoted by a promise that is forced inside of negations. -/
theorem Interpreter.quoteDatum_of_nestedForms :
    let host : Host := { settings := .ofVariables ⟨none, none, none⟩, files := .catalogue [] }
    let form := Datum.nestedForms 759
    let store := promising (.form none [.keyword .quote, form])
    form.IsRead depthLimit ∧ Reachable store ∧
      ∃ after, quoteDatum 748 form store = .error .tooDeep after ∧
        Configuration.EndsWith host depthLimit
          ⟨Datum.negation^[250] (.form none [.symbol "force", .symbol "x"]), rootFrame, store⟩
          (.error .tooDeep after) := by
  intro host form store
  have hwritten : form.IsSyntax := Datum.isSyntax_nestedForms 759
  have hnesting : form.nesting = 760 := Datum.nesting_nestedForms 759
  have hdeep : 748 < form.nesting := by
    rw [hnesting]
    decide
  obtain ⟨count, hquote⟩ := exists_quoteDatum_eq_tooDeep hwritten hdeep store
  have hends : Configuration.EndsWith host 749
      ⟨.form none [.keyword .quote, form], rootFrame, store⟩ (.error .tooDeep _) :=
    ⟨Interrupt.noConfusion, 1, (congrFun (evaluate_of_done rfl) _).trans hquote⟩
  have hreachable : Reachable store := by
    refine reachable_promising host (Datum.isSyntax_keyword_form .quote hwritten) ?_
    rw [Datum.nesting_keyword_form, hnesting]
    decide
  refine ⟨Datum.isRead_iff.2 ⟨hwritten, ?_⟩, hreachable, _, hquote,
    endsWith_iterate_negation_force hends 250⟩
  rw [hnesting]
  decide

end SmallScheme
