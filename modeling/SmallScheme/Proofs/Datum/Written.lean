import SmallScheme.Proofs.Datum.WellFormed
import SmallScheme.Proofs.Number.ReadBack
import SmallScheme.Proofs.Reader.Reading
/-!
# Written data

A value made of data only, all of whose lists are proper, is printed as the text of a piece of
syntax: its `syntaxOf`. Two such values with the same syntax agree in everything but the identity of
their pairs and the sign of their zeros.
-/

namespace SmallScheme

namespace Datum

/-- The value is made of data only: it holds no procedure, no promise and nothing unspecified. -/
inductive IsData : Datum → Prop where
  | bool (value : Bool) : IsData (.bool value)
  | num {number : Double} (hfinite : number.IsFinite) : IsData (.num number)
  | str (text : String) : IsData (.str text)
  | quoted {name : String} (hname : IsIdentifier name) : IsData (.quoted name)
  | empty : IsData .empty
  | pair {label : Label} {head tail : Datum} (hhead : IsData head) (htail : IsData tail) :
    IsData (.pair label head tail)

/-- The two values have the same type at every position and the same content, except that the pairs
need not be the same ones and that zeros may differ in sign. -/
inductive Agrees : Datum → Datum → Prop where
  | bool (value : Bool) : Agrees (.bool value) (.bool value)
  | num {left right : Double} (hnumber : left.withoutZeroSign = right.withoutZeroSign) :
    Agrees (.num left) (.num right)
  | str (text : String) : Agrees (.str text) (.str text)
  | quoted (name : String) : Agrees (.quoted name) (.quoted name)
  | empty : Agrees .empty .empty
  | pair {leftLabel rightLabel : Label} {leftHead rightHead leftTail rightTail : Datum}
    (hhead : Agrees leftHead rightHead) (htail : Agrees leftTail rightTail) :
    Agrees (.pair leftLabel leftHead leftTail) (.pair rightLabel rightHead rightTail)

/-- The datum is a piece of syntax, and its numbers are finite and no negative zeros. -/
inductive IsPlain : Datum → Prop where
  | bool (value : Bool) : IsPlain (.bool value)
  | num {number : Double} (hfinite : number.IsFinite) (hsign : number ≠ .zero true) :
    IsPlain (.num number)
  | str (text : String) : IsPlain (.str text)
  | symbol {name : String} (hname : IsIdentifier name) : IsPlain (.symbol name)
  | form {items : List Datum} (hitems : ∀ item ∈ items, IsPlain item) : IsPlain (.form none items)

/-- The elements of a form. -/
def elements : Datum → List Datum
  | .form _ items => items
  | _ => []

/-- The syntax that the text of a value shows, if its lists are proper. -/
def syntaxOf : Datum → Datum
  | .num number => .num number.withoutZeroSign
  | .quoted name => .symbol name
  | .empty => .form none []
  | .pair _ head tail => .form none (head.syntaxOf :: tail.syntaxOf.elements)
  | datum => datum

theorem IsData.of_mem_items {datum item : Datum} (hdata : datum.IsData)
    (hmem : item ∈ datum.items) : item.IsData := by
  induction hdata with
  | pair hhead _ _ ih =>
    rcases List.mem_cons.1 hmem with rfl | hmem
    · exact hhead
    · exact ih hmem
  | _ => exact absurd hmem List.not_mem_nil

theorem syntaxOf_of_isList {datum : Datum} (hlist : datum.isList) :
    datum.syntaxOf = .form none (datum.items.map syntaxOf) := by
  induction datum, hlist using list_induction with
  | empty => rfl
  | pair label head tail _ ih => rw [syntaxOf, items, List.map_cons, ih, elements]

theorem withoutZeroSign_ne_zero (number : Double) : number.withoutZeroSign ≠ .zero true := by
  obtain ⟨negative, units, hunits⟩ | _ | _ := number
  · by_cases hzero : units = 0
    · simp [Double.withoutZeroSign, Double.zero, hzero]
    · simp [Double.withoutZeroSign, Double.zero, hzero]
  · rintro ⟨⟩
  · rintro ⟨⟩

theorem withoutZeroSign_eq_self {number : Double} (hsign : number ≠ .zero true) :
    number.withoutZeroSign = number := by
  obtain ⟨negative, units, hunits⟩ | _ | _ := number
  · cases negative with
    | false => rfl
    | true =>
      have hne : units ≠ 0 := by
        rintro rfl
        exact hsign rfl
      simp [Double.withoutZeroSign, hne]
  · rfl
  · rfl

theorem IsFinite.withoutZeroSign {number : Double} (hfinite : number.IsFinite) :
    number.withoutZeroSign.IsFinite := by
  cases number with
  | finite => trivial
  | infinite => exact hfinite
  | nan => exact hfinite

/-- What the text of well-formed data shows is plain syntax. -/
theorem IsData.isPlain_syntaxOf {datum : Datum} (hdata : datum.IsData)
    (hwell : datum.WellFormed) : datum.syntaxOf.IsPlain := by
  induction hdata with
  | bool value => exact .bool value
  | num hfinite => exact .num (IsFinite.withoutZeroSign hfinite) (withoutZeroSign_ne_zero _)
  | str text => exact .str text
  | quoted hname => exact .symbol hname
  | empty => exact .form fun _ hmem => absurd hmem List.not_mem_nil
  | pair hhead htail ihhead ihtail =>
    rcases hwell with hatom | ⟨hwellHead, hwellTail, hlist⟩
    · cases hatom
    · have htailPlain := ihtail hwellTail
      rw [syntaxOf_of_isList hlist] at htailPlain
      rw [syntaxOf, syntaxOf_of_isList hlist, elements]
      cases htailPlain with
      | form hitems => exact .form (List.forall_mem_cons.2 ⟨ihhead hwellHead, hitems⟩)

/-- Well-formed data with the same syntax agree. -/
theorem agrees_of_syntaxOf_eq {left right : Datum} (hleft : left.IsData) (hright : right.IsData)
    (hwellLeft : left.WellFormed) (hwellRight : right.WellFormed)
    (hwritten : left.syntaxOf = right.syntaxOf) : left.Agrees right := by
  induction hleft generalizing right with
  | bool value =>
    cases hright <;> cases hwritten
    exact .bool value
  | num hfinite =>
    cases hright <;> simp only [syntaxOf, num.injEq, reduceCtorEq] at hwritten
    exact .num hwritten
  | str text =>
    cases hright <;> cases hwritten
    exact .str text
  | quoted hname =>
    cases hright <;> cases hwritten
    exact .quoted _
  | empty =>
    cases hright <;> cases hwritten
    exact .empty
  | pair hhead htail ihhead ihtail =>
    cases hright with
    | pair hotherHead hotherTail =>
      rcases hwellLeft with hatom | ⟨hwellHead, hwellTail, hlist⟩
      · cases hatom
      rcases hwellRight with hatom | ⟨hwellOtherHead, hwellOtherTail, hotherList⟩
      · cases hatom
      simp only [syntaxOf, form.injEq, List.cons.injEq, true_and] at hwritten
      refine .pair (ihhead hotherHead hwellHead hwellOtherHead hwritten.1)
        (ihtail hotherTail hwellTail hwellOtherTail ?_)
      have htails := hwritten.2
      rw [syntaxOf_of_isList hlist, syntaxOf_of_isList hotherList] at htails ⊢
      exact congrArg (form none) htails
    | _ => cases hwritten

theorem Agrees.isList_eq {left right : Datum} (hagrees : left.Agrees right) :
    left.isList = right.isList := by
  induction hagrees with
  | pair _ _ _ ih => exact ih
  | _ => rfl

/-- Agreement keeps lists proper. -/
theorem Agrees.wellFormed {left right : Datum} (hagrees : left.Agrees right)
    (hwell : left.WellFormed) : right.WellFormed := by
  induction hagrees with
  | pair hhead htail ihhead ihtail =>
    rcases hwell with hatom | ⟨hwellHead, hwellTail, hlist⟩
    · cases hatom
    · exact .pair (ihhead hwellHead) (ihtail hwellTail) (htail.isList_eq ▸ hlist)
  | _ => exact .atom rfl

/-- A value and its syntax nest equally deep. -/
theorem nesting_syntaxOf {datum : Datum} (hwell : datum.WellFormed) :
    datum.syntaxOf.nesting = datum.nesting := by
  induction hwell with
  | @atom datum hatom =>
    cases datum with
    | pair => cases hatom
    | _ => rfl
  | @pair label head tail hhead htail hlist ihhead ihtail =>
    rw [syntaxOf_of_isList hlist, nesting] at ihtail
    rw [syntaxOf, syntaxOf_of_isList hlist, elements, nesting, nestingOfAll, nesting, ihhead,
      ← ihtail]
    omega

/-! ### The limits of nesting -/

theorem IsData.nesting_le {datum : Datum} {bound : Nat} (hdata : datum.IsData)
    (hwell : datum.wellFormed? bound = some true) : datum.nesting ≤ bound := by
  induction bound generalizing datum with
  | zero => cases hwell
  | succ bound ih =>
    cases hdata with
    | @pair label head tail hhead htail =>
      obtain ⟨hlist, hitems⟩ := items_of_wellFormed? hwell
      have hwhole : (Datum.pair label head tail).isList := hlist
      rw [nesting_of_isList hwhole]
      refine Nat.succ_le_succ (nestingOfAll_le_iff.2 fun item hmem => ?_)
      exact ih ((IsData.pair hhead htail).of_mem_items hmem) (hitems item hmem)
    | empty => exact Nat.le_add_left 1 bound
    | _ => exact Nat.zero_le _

/-- Data whose lists are proper as far as the limit goes can be printed. -/
theorem IsData.printObstacle?_eq_none {datum : Datum} {bound : Nat} (hdata : datum.IsData)
    (hwell : datum.wellFormed? bound = some true) : datum.printObstacle? bound = none := by
  induction bound generalizing datum with
  | zero => cases hwell
  | succ bound ih =>
    cases hdata with
    | pair hhead htail =>
      obtain ⟨hlist, hitems⟩ := items_of_wellFormed? hwell
      rw [printObstacle?_pair_of_isList bound hlist, itemsObstacle?_eq_none]
      intro item hmem
      exact ih ((IsData.pair hhead htail).of_mem_items hmem) (hitems item hmem)
    | _ => exact if_neg (Nat.succ_ne_zero bound)

/-! ### The numbers of a piece of syntax -/

mutual

/-- The numbers that stand in a piece of syntax. -/
def literals : Datum → List Double
  | .num number => [number]
  | .form _ items => literalsOfAll items
  | _ => []

def literalsOfAll : List Datum → List Double
  | [] => []
  | item :: rest => item.literals ++ literalsOfAll rest

end

theorem forall_mem_literalsOfAll {good : Double → Prop} {items : List Datum} :
    (∀ number ∈ literalsOfAll items, good number) ↔
      ∀ item ∈ items, ∀ number ∈ item.literals, good number := by
  induction items with
  | nil => simp [literalsOfAll]
  | cons item rest ih => rw [literalsOfAll, List.forall_mem_append, List.forall_mem_cons, ih]

theorem IsSyntax.isPlain {datum : Datum} (hwritten : datum.IsSyntax)
    (hliterals : ∀ number ∈ datum.literals, number.IsFinite ∧ number ≠ .zero true) :
    datum.IsPlain := by
  induction hwritten with
  | bool value => exact .bool value
  | num _ =>
    rw [literals, List.forall_mem_singleton] at hliterals
    exact .num hliterals.1 hliterals.2
  | str text => exact .str text
  | symbol hname => exact .symbol hname
  | form _ ih =>
    rw [literals, forall_mem_literalsOfAll] at hliterals
    exact .form fun item hmem => ih item hmem (hliterals item hmem)

/-- Plain syntax is syntax without the numbers that are not read back from their text. -/
theorem isPlain_iff {datum : Datum} : datum.IsPlain ↔
    datum.IsSyntax ∧ ∀ number ∈ datum.literals, number.IsFinite ∧ number ≠ .zero true := by
  constructor
  · intro hplain
    induction hplain with
    | bool value => exact ⟨.bool value, fun _ hmem => absurd hmem List.not_mem_nil⟩
    | @num number hfinite hsign =>
      refine ⟨.num ?_, List.forall_mem_singleton.2 ⟨hfinite, hsign⟩⟩
      rintro rfl
      exact hfinite
    | str text => exact ⟨.str text, fun _ hmem => absurd hmem List.not_mem_nil⟩
    | symbol hname => exact ⟨.symbol hname, fun _ hmem => absurd hmem List.not_mem_nil⟩
    | form _ ih =>
      rw [literals, forall_mem_literalsOfAll]
      exact ⟨.form fun item hmem => (ih item hmem).1, fun item hmem => (ih item hmem).2⟩
  · rintro ⟨hwritten, hliterals⟩
    exact hwritten.isPlain hliterals

end Datum

/-! ### The text of data -/

theorem ofAtom_sourceChars {number : Double} (hfinite : number.IsFinite) :
    Datum.ofAtom (String.ofList number.sourceChars) = .num number.withoutZeroSign := by
  obtain ⟨read, hparse, hread⟩ := Double.parse?_sourceChars hfinite
  have hboolean : booleanOf? (String.ofList number.sourceChars) = none := by
    have hne : ∀ text : String, Decimal.parse? text.toList = none →
        String.ofList number.sourceChars ≠ text := by
      rintro text hnone rfl
      rw [String.toList_ofList, hparse] at hnone
      cases hnone
    simp only [booleanOf?, hne "#t" rfl, hne "#true" rfl, hne "#f" rfl, hne "#false" rfl, or_self,
      ↓reduceIte]
  simp only [Datum.ofAtom, hboolean, String.toList_ofList, hparse, hread]

theorem sourceChars_ne_nil {number : Double} (hfinite : number.IsFinite) :
    number.sourceChars ≠ [] := by
  obtain ⟨read, hparse, -⟩ := Double.parse?_sourceChars hfinite
  intro hnil
  rw [hnil] at hparse
  cases hparse

/-- The text of data reads as their syntax, if their lists are proper as far as the text may
nest. -/
theorem readsAs_chars {limit bound : Nat} {datum : Datum} (hdata : datum.IsData)
    (hwell : datum.wellFormed? bound = some true) :
    ReadsAs limit bound (datum.chars .literal) datum.syntaxOf := by
  induction bound generalizing datum with
  | zero => cases hwell
  | succ bound ih =>
    cases hdata with
    | bool value =>
      cases value <;> exact readsAs_symbol (by decide) (List.all_eq_true.1 (by decide))
    | @num number hfinite =>
      rw [Datum.syntaxOf, ← ofAtom_sourceChars hfinite]
      exact readsAs_symbol (sourceChars_ne_nil hfinite)
        (Double.isSymbolChar_of_mem_sourceChars number)
    | str text =>
      have hreads : ReadsAs limit (bound + 1) (Literal.encode text.toList)
        (.str (String.ofList text.toList)) := readsAs_string text.toList
      rwa [String.ofList_toList] at hreads
    | quoted hname => exact readsAs_identifier hname
    | empty => exact (readsAs_form .nil : ReadsAs limit (0 + 1) _ _).mono (by omega)
    | @pair label head tail hhead htail =>
      obtain ⟨hlist, hitems⟩ := Datum.items_of_wellFormed? hwell
      have hwhole : (Datum.pair label head tail).isList := hlist
      rw [Datum.chars_pair_of_isList .literal hlist, Datum.syntaxOf_of_isList hwhole]
      refine readsAs_form ?_
      rw [List.forall₂_map_left_iff, List.forall₂_map_right_iff, List.forall₂_same]
      intro item hmem
      exact ih ((Datum.IsData.pair hhead htail).of_mem_items hmem) (hitems item hmem)

/-! ### The text of syntax -/

/-- Every number but the one that is no number can be written. -/
theorem exists_readsAs_num {number : Double} (hnumber : number ≠ .nan) (limit : Nat) :
    ∃ text, ReadsAs limit 0 text (.num number) := by
  obtain ⟨negative, units, hunits⟩ | negative | _ := number
  · by_cases hsign : Double.finite negative units hunits = .zero true
    · rw [hsign]
      exact ⟨['-', '0'], readsAs_symbol (by decide) (List.all_eq_true.1 (by decide))⟩
    · have hfinite : (Double.finite negative units hunits).IsFinite := trivial
      rw [← Datum.withoutZeroSign_eq_self hsign, ← ofAtom_sourceChars hfinite]
      exact ⟨_, readsAs_symbol (sourceChars_ne_nil hfinite)
        (Double.isSymbolChar_of_mem_sourceChars _)⟩
  · cases negative with
    | false => exact ⟨"1e999".toList, readsAs_symbol (by decide) (List.all_eq_true.1 (by decide))⟩
    | true => exact ⟨"-1e999".toList, readsAs_symbol (by decide) (List.all_eq_true.1 (by decide))⟩
  · exact absurd rfl hnumber

theorem exists_readsAs_of_isSyntax {datum : Datum} (hwritten : datum.IsSyntax) (limit : Nat) :
    ∃ text, ReadsAs limit datum.nesting text datum := by
  induction hwritten with
  | bool value =>
    cases value with
    | false => exact ⟨['#', 'f'], readsAs_symbol (by decide) (List.all_eq_true.1 (by decide))⟩
    | true => exact ⟨['#', 't'], readsAs_symbol (by decide) (List.all_eq_true.1 (by decide))⟩
  | num hnumber => exact exists_readsAs_num hnumber limit
  | str text =>
    have hreads : ReadsAs limit 0 (Literal.encode text.toList)
      (.str (String.ofList text.toList)) := readsAs_string text.toList
    rw [String.ofList_toList] at hreads
    exact ⟨_, hreads⟩
  | symbol hname => exact ⟨_, readsAs_identifier hname⟩
  | @form items hitems ih =>
    clear hitems
    -- the elements may all nest as deep as the deepest, which stays when they get fewer
    have htexts : ∃ texts, List.Forall₂ (ReadsAs limit (Datum.nestingOfAll items)) texts items := by
      have hdeep := Datum.nestingOfAll_le_iff.1 (Nat.le_refl (Datum.nestingOfAll items))
      generalize Datum.nestingOfAll items = depth at hdeep
      induction items with
      | nil => exact ⟨[], .nil⟩
      | cons item rest ihrest =>
        rw [List.forall_mem_cons] at ih hdeep
        obtain ⟨text, htext⟩ := ih.1
        obtain ⟨texts, htexts⟩ := ihrest ih.2 hdeep.2
        exact ⟨text :: texts, .cons (htext.mono hdeep.1) htexts⟩
    obtain ⟨texts, htexts⟩ := htexts
    exact ⟨_, readsAs_form htexts⟩

/-- Syntax is exactly what some text is read as. -/
theorem isSyntax_iff_exists_text {datum : Datum} :
    datum.IsSyntax ↔ ∃ limit text, readSource limit text = .ok [datum] := by
  constructor
  · intro hwritten
    obtain ⟨text, hreads⟩ := exists_readsAs_of_isSyntax hwritten datum.nesting
    exact ⟨_, _, readSource_of_readsAs hreads (Nat.le_refl _)⟩
  · rintro ⟨limit, text, hread⟩
    exact isSyntax_of_readSource hread datum List.mem_cons_self

end SmallScheme
