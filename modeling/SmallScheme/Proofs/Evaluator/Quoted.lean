import SmallScheme.Proofs.Datum.Likeness
import SmallScheme.Proofs.Evaluator.DeepPrograms
import SmallScheme.Proofs.Evaluator.RoundTrip
/-!
# Quoted data

What is read from a source text without infinite literals and then quoted is well-formed data. The
source text of such data says all that there is to compare: data are alike exactly if they print
alike, because what is printed can be read back. Only the comparison may be too deep to say so.
-/

namespace SmallScheme

open Datum Machine

/-! ### Data and their texts -/

namespace Datum

variable {left right : Datum}

theorem IsData.isComparable {datum : Datum} (hdata : datum.IsData) : datum.IsComparable := by
  induction hdata with
  | bool value => exact .bool value
  | @num number hfinite =>
    refine .num ?_
    rintro rfl
    exact hfinite
  | str text => exact .str text
  | quoted => exact .quoted _
  | empty => exact .empty
  | pair _ _ ihhead ihtail => exact .pair ihhead ihtail

/-- Data of one shape agree, and data that agree have one shape. -/
theorem shape_eq_iff_agrees (hleft : left.IsData) (hright : right.IsData) :
    left.shape = right.shape ↔ left.Agrees right := by
  constructor
  · intro hshape
    induction hleft generalizing right with
    | pair _ _ ihhead ihtail =>
      cases hright with
      | pair hhead htail =>
        simp only [shape, pair.injEq, true_and] at hshape
        exact .pair (ihhead hhead hshape.1) (ihtail htail hshape.2)
      | _ => cases hshape
    | num =>
      cases hright with
      | num => exact .num (num.inj hshape)
      | _ => cases hshape
    | _ =>
      cases hright <;> cases hshape
      constructor
  · intro hagrees
    induction hagrees with
    | num hnumber => exact congrArg num hnumber
    | pair _ _ ihhead ihtail =>
      cases hleft with
      | pair hhead htail =>
        cases hright with
        | pair hotherHead hotherTail =>
          rw [shape, shape, ihhead hhead hotherHead, ihtail htail hotherTail]
    | _ => rfl

/-- Data that agree are written alike, each by itself and as the rest of a chain. -/
theorem Agrees.chars_eq (hagrees : left.Agrees right) (style : StringStyle) :
    left.chars style = right.chars style ∧ left.tailChars style = right.tailChars style := by
  induction hagrees with
  | @num first second hnumber =>
    simp only [chars, tailChars, atomChars, Double.sourceChars_eq hnumber, and_self]
  | pair _ _ ihhead ihtail =>
    simp only [chars, tailChars, ihhead.1, ihtail.2, and_self]
  | _ => exact ⟨rfl, rfl⟩

/-- Well-formed data can be read back from their text. -/
theorem IsData.readSource_source {datum : Datum} (hdata : datum.IsData) (hwell : datum.WellFormed)
    {limit : Nat} (hdeep : datum.nesting < limit) :
    readSource limit datum.source = .ok [datum.syntaxOf] := by
  exact readSource_of_readsAs (readsAs_chars hdata (wellFormed?_of_wellFormed hwell hdeep))
    (Nat.le_refl limit)

/-- Well-formed data agree exactly if they have one text. -/
theorem agrees_iff_source_eq (hleft : left.IsData) (hright : right.IsData)
    (hwellLeft : left.WellFormed) (hwellRight : right.WellFormed) :
    left.Agrees right ↔ left.source = right.source := by
  constructor
  · intro hagrees
    exact congrArg String.ofList (hagrees.chars_eq .literal).1
  · intro hsource
    have hreadLeft := hleft.readSource_source hwellLeft
      (Nat.lt_succ_of_le (Nat.le_max_left left.nesting right.nesting))
    have hreadRight := hright.readSource_source hwellRight
      (Nat.lt_succ_of_le (Nat.le_max_right left.nesting right.nesting))
    have hforms : [right.syntaxOf] = [left.syntaxOf] :=
      Except.ok.inj (hreadRight.symm.trans (hsource ▸ hreadLeft))
    exact agrees_of_syntaxOf_eq hleft hright hwellLeft hwellRight
      (List.singleton_inj.1 hforms).symm

/-- Well-formed data are alike exactly if they have one text. -/
theorem isAlike_iff_source_eq (hleft : left.IsData) (hright : right.IsData)
    (hwellLeft : left.WellFormed) (hwellRight : right.WellFormed) :
    left.isAlike right = true ↔ left.source = right.source :=
  calc left.isAlike right = true
    _ ↔ left.shape = right.shape := isAlike_iff_shape hleft.isComparable hright.isComparable
    _ ↔ left.Agrees right := shape_eq_iff_agrees hleft hright
    _ ↔ left.source = right.source := agrees_iff_source_eq hleft hright hwellLeft hwellRight

end Datum

/-! ### What is read and quoted -/

/-- Quoting syntax whose numbers are finite gives data, which nest no deeper than quoting may. -/
theorem isData_of_quoteDatum {limit : Nat} {datum quoted : Datum} {store after : Store}
    (hwritten : datum.IsSyntax) (hfinite : ∀ number ∈ datum.literals, number.IsFinite)
    (hquote : quoteDatum limit datum store = .ok quoted after) :
    quoted.IsData ∧ quoted.nesting ≤ limit := by
  obtain ⟨hdeep, hdenotes⟩ := denotes_of_quoteDatum hwritten hquote
  exact ⟨hdenotes.isData hwritten hfinite, hdenotes.nesting_eq ▸ hdeep⟩

/-- The value is what a form of some source text denotes when it is quoted, up to a limit of
nesting. No literal of the form is infinite. -/
def Datum.IsQuoted (limit : Nat) (value : Datum) : Prop :=
  ∃ readLimit text forms form store after, readSource readLimit text = .ok forms ∧ form ∈ forms ∧
    (∀ negative, .infinite negative ∉ form.literals) ∧
      quoteDatum limit form store = .ok value after

namespace Datum

/-- Neither is any number of a piece of syntax the one that is no number. -/
theorem IsSyntax.isFinite_of_mem_literals {datum : Datum} (hwritten : datum.IsSyntax)
    (hliterals : ∀ negative, .infinite negative ∉ datum.literals) :
    ∀ number ∈ datum.literals, number.IsFinite := by
  induction hwritten with
  | @num number hnumber =>
    rw [literals, List.forall_mem_singleton]
    cases number with
    | finite => trivial
    | infinite negative => exact absurd (List.mem_singleton_self _) (hliterals negative)
    | nan => exact absurd rfl hnumber
  | @form items _ ih =>
    rw [literals] at hliterals ⊢
    have hitems : ∀ item ∈ items, ∀ negative, .infinite negative ∉ item.literals := by
      intro item hmem negative hinfinite
      have hother : ∀ number ∈ literalsOfAll items, number ≠ .infinite negative := by
        rintro number hnumber rfl
        exact hliterals negative hnumber
      exact forall_mem_literalsOfAll.1 hother item hmem _ hinfinite rfl
    exact forall_mem_literalsOfAll.2 fun item hmem => ih item hmem (hitems item hmem)
  | _ => exact fun _ hmem => absurd hmem List.not_mem_nil

theorem IsQuoted.isData {limit : Nat} {value : Datum} (hquoted : value.IsQuoted limit) :
    value.IsData ∧ value.WellFormed ∧ value.nesting ≤ limit := by
  obtain ⟨readLimit, text, forms, form, store, after, hread, hmem, hliterals, hquote⟩ := hquoted
  have hwritten := isSyntax_of_readSource hread form hmem
  have hfinite := hwritten.isFinite_of_mem_literals hliterals
  obtain ⟨hdata, hdeep⟩ := isData_of_quoteDatum hwritten hfinite hquote
  exact ⟨hdata, wellFormed_of_quoteDatum hquote, hdeep⟩

theorem isQuoted_of_isSyntax {limit : Nat} {form value : Datum} {store after : Store}
    (hwritten : form.IsSyntax) (hliterals : ∀ negative, .infinite negative ∉ form.literals)
    (hquote : quoteDatum limit form store = .ok value after) : value.IsQuoted limit := by
  obtain ⟨readLimit, text, hread⟩ := isSyntax_iff_exists_text.1 hwritten
  exact ⟨readLimit, text, _, form, store, after, hread, List.mem_cons_self, hliterals, hquote⟩

end Datum

/-- Quoted data are equal exactly if they print the same text, or the comparison of them is too deep
for the levels that are left. For every depth some number of levels is enough for the comparison if
one of the two nests no deeper. -/
theorem isAlike_iff_source_of_isQuoted :
    ∃ levels : Nat → Nat, ∀ {leftLimit rightLimit : Nat} {left right : Datum},
      left.IsQuoted leftLimit → right.IsQuoted rightLimit → ∀ (context : Context) (store : Store),
        let outcome := callBuiltin context .isAlike [left, right] store
        (outcome = .ok (.bool (decide (left.source = right.source))) store ∨
          outcome = .error .tooDeep store) ∧
        (levels (min left.nesting right.nesting) ≤ context.limit →
          outcome = .ok (.bool (decide (left.source = right.source))) store) := by
  refine ⟨(· + 1), fun {leftLimit rightLimit left right} hleft hright context store => ?_⟩
  obtain ⟨hdataLeft, hwellLeft, -⟩ := hleft.isData
  obtain ⟨hdataRight, hwellRight, -⟩ := hright.isData
  have hanswer : left.isAlike right = decide (left.source = right.source) := by
    rw [Bool.eq_iff_iff, decide_eq_true_iff]
    exact isAlike_iff_source_eq hdataLeft hdataRight hwellLeft hwellRight
  intro outcome
  rw [← hanswer]
  obtain hcall | ⟨hcall, hdeepLeft, hdeepRight⟩ :=
    callBuiltin_isAlike hdataLeft.isComparable right context store
  · exact ⟨.inl hcall, fun _ => hcall⟩
  · have hdeep : context.limit ≤ min left.nesting right.nesting :=
      Nat.le_min.2 ⟨hdeepLeft, hdeepRight⟩
    exact ⟨.inr hcall, fun henough => absurd (henough.trans hdeep) (Nat.not_succ_le_self _)⟩

/-- With enough levels, lists that differ in the sign of a zero are equal; a string and a symbol of
the same letters are not. -/
theorem isAlike_quoted_lists :
    let signed : Datum := .pair 0 (.str "a") (.pair 1 (.num (.zero true)) .empty)
    let string : Datum := .pair 0 (.str "a") (.pair 1 (.num (.zero false)) .empty)
    let symbol : Datum := .pair 0 (.quoted "a") (.pair 1 (.num (.zero false)) .empty)
    ∃ enough, ∀ context : Context, enough ≤ context.limit →
      callBuiltin context .isAlike [signed, string] .empty = .ok (.bool true) .empty ∧
        callBuiltin context .isAlike [string, symbol] .empty = .ok (.bool false) .empty := by
  intro signed string symbol
  have hquoted : ∀ {first value : Datum} {negative : Bool} {after : Store}, first.IsSyntax →
      first.literals = [] →
        quoteDatum 2 (.form none [first, .num (.zero negative)]) .empty = .ok value after →
          value.IsQuoted 2 := by
    intro first value negative after hfirst hliterals hquote
    have hzero : (Datum.num (.zero negative)).IsSyntax := .num (by rintro ⟨⟩)
    have hitems : ∀ item ∈ [first, .num (.zero negative)], item.IsSyntax :=
      List.forall_mem_cons.2 ⟨hfirst, List.forall_mem_singleton.2 hzero⟩
    refine isQuoted_of_isSyntax (.form hitems) ?_ hquote
    simp [literals, literalsOfAll, hliterals, Double.zero]
  have hsigned : signed.IsQuoted 2 := hquoted (.str "a") rfl rfl
  have hstring : string.IsQuoted 2 := hquoted (.str "a") rfl rfl
  have hsymbol : symbol.IsQuoted 2 :=
    hquoted (Datum.isSyntax_symbol (by decide) (by decide) rfl) rfl rfl
  have hequal : decide (signed.source = string.source) = true := by decide +kernel
  have hdiffer : decide (string.source = symbol.source) = false := by decide +kernel
  obtain ⟨levels, hcompared⟩ := isAlike_iff_source_of_isQuoted
  refine ⟨levels 1, fun context henough => ⟨?_, ?_⟩⟩
  · exact hequal ▸ (hcompared hsigned hstring context .empty).2 henough
  · exact hdiffer ▸ (hcompared hstring hsymbol context .empty).2 henough

/-! ### A comparison that is too deep -/

/-- The comparison with itself needs one level for every list around the innermost one. -/
theorem Datum.Denotes.isAlike?_self_eq_none {count limit : Nat} {value : Datum}
    (hvalue : (nestedForms count).Denotes value) (hlimit : limit ≤ count) :
    value.isAlike? limit value = none := by
  induction count generalizing limit value with
  | zero =>
    cases hvalue
    rw [Nat.le_zero.1 hlimit, isAlike?, if_pos rfl]
    rintro _ _ _ ⟨⟩
  | succ count ih =>
    cases hvalue with
    | cons hhead _ =>
      cases limit with
      | zero => rw [isAlike?, if_pos rfl]
      | succ limit =>
        rw [isAlike?, if_neg (Nat.succ_ne_zero limit), Nat.add_sub_cancel,
          ih hhead (Nat.le_of_succ_le_succ hlimit)]

/-- A value that is quoted with all levels may be too deep to be compared with itself where fewer
are left. Here the comparison is the operator of an application that is an operator itself, and so
on. -/
theorem Interpreter.isAlike_of_deep_caller :
    let host : Host := { settings := .ofVariables ⟨none, none, none⟩, files := .catalogue [] }
    let comparison : Datum := .form none [.symbol Builtin.isAlike.name, .symbol "x", .symbol "x"]
    ∃ store value, Reachable store ∧ value.IsQuoted (depthLimit - 2) ∧
      evaluate host stepBudget 149 (.symbol "x") rootFrame store = .ok value store ∧
      evaluate host stepBudget 150 comparison rootFrame store = .error .tooDeep store ∧
      Configuration.EndsWith host depthLimit ⟨Datum.call^[850] comparison, rootFrame, store⟩
        (.error .tooDeep store) := by
  intro host comparison
  have hwritten : (nestedForms 249).IsSyntax := isSyntax_nestedForms 249
  have hdeep : (nestedForms 249).nesting + 2 ≤ depthLimit := by
    rw [nesting_nestedForms]
    decide
  have hliterals : ∀ negative, .infinite negative ∉ (nestedForms 249).literals := by
    rw [literals_nestedForms]
    exact fun _ => List.not_mem_nil
  obtain ⟨store, value, after, hstore, hothers, hbound, hvalue, hquote⟩ :=
    exists_reachable_quoted host hwritten hdeep
  have hcomparison : evaluate host (999999999999999 + 1) (148 + 2) comparison rootFrame store =
      .error .tooDeep store :=
    evaluate_isAlike_self (hothers _ (by decide)) hbound
      (hvalue.isAlike?_self_eq_none (by decide))
  exact ⟨store, value, hstore, isQuoted_of_isSyntax hwritten hliterals hquote,
    evaluate_symbol hbound, hcomparison,
    Configuration.endsWith_iterate_call ⟨Interrupt.noConfusion, _, hcomparison⟩ 850⟩

end SmallScheme
