import SmallScheme.Datum.Equality
import SmallScheme.Proofs.Datum.Written
import SmallScheme.Proofs.Reader.Nesting
/-!
# Printing as a normal form

The forms of a source text, printed one per line, are again a source text, and reading that one
gives forms that print alike. What changes is the layout of the first text and nothing else, but for
the sign of a zero, which is not written, and an infinity, whose name is read as a symbol.
-/

namespace SmallScheme

/-! ### What the text of syntax is read as -/

namespace Double

/-- The source text of a number does not show the sign of a zero. -/
theorem sourceChars_withoutZeroSign (number : Double) :
    number.withoutZeroSign.sourceChars = number.sourceChars := by
  obtain ⟨negative, units, hunits⟩ | _ | _ := number
  · by_cases hzero : units = 0
    · subst hzero
      cases negative <;> simp [withoutZeroSign, sourceChars, integer?, signed]
    · simp [withoutZeroSign, hzero]
  · rfl
  · rfl

theorem equals_withoutZeroSign {number : Double} (hnumber : number ≠ .nan) :
    number.withoutZeroSign.equals number = true := by
  obtain ⟨negative, units, hunits⟩ | _ | _ := number
  · by_cases hzero : units = 0
    · subst hzero
      cases negative <;> simp [withoutZeroSign, equals, related, place?, signed]
    · simp [withoutZeroSign, equals, related, place?, hzero]
  · simp [withoutZeroSign, equals, related, place?]
  · exact absurd rfl hnumber

/-- What the source text of a number is read as: the number itself without the sign of a zero, and
a symbol in place of an infinity. -/
def reprinted : Double → Datum
  | .infinite negative => .symbol (infinite negative).text
  | number => .num number.withoutZeroSign

theorem reprinted_of_isFinite {number : Double} (hfinite : number.IsFinite) :
    number.reprinted = .num number.withoutZeroSign := by
  cases number with
  | finite => rfl
  | infinite => exact hfinite.elim
  | nan => rfl

end Double

namespace Datum

mutual

/-- What the text of a piece of syntax is read as. -/
def reprinted : Datum → Datum
  | .num number => number.reprinted
  | .form _ items => .form none (reprintedAll items)
  | datum => datum

def reprintedAll : List Datum → List Datum
  | [] => []
  | item :: rest => item.reprinted :: reprintedAll rest

end

theorem reprintedAll_eq_map (items : List Datum) : reprintedAll items = items.map reprinted := by
  induction items with
  | nil => rfl
  | cons item rest ih => rw [reprintedAll, List.map_cons, ih]

/-- What the text is read as prints alike. -/
theorem chars_reprinted {datum : Datum} (hwritten : datum.IsSyntax) :
    datum.reprinted.chars .literal = datum.chars .literal := by
  induction hwritten with
  | @num number hnumber =>
    obtain ⟨negative, units, hunits⟩ | negative | _ := number
    · exact Double.sourceChars_withoutZeroSign _
    · cases negative <;> rfl
    · exact absurd rfl hnumber
  | form _ ih =>
    rw [reprinted, reprintedAll_eq_map, chars_form, chars_form, List.map_map]
    exact congrArg (fun texts => '(' :: (joinChars [' '] texts ++ [')'])) (List.map_congr_left ih)
  | _ => rfl

theorem sameItems_iff_forall₂ {left right : List Datum} :
    sameItems left right = true ↔ List.Forall₂ (fun left right => left.same right = true)
      left right := by
  induction left generalizing right with
  | nil => cases right <;> simp [sameItems]
  | cons first rest ih => cases right <;> simp [sameItems, ih]

/-- Without infinities, what the text is read as is equal to what was printed. -/
theorem same_reprinted {datum : Datum} (hwritten : datum.IsSyntax)
    (hliterals : ∀ number ∈ datum.literals, ∀ negative, number ≠ .infinite negative) :
    datum.reprinted.same datum = true := by
  induction hwritten with
  | bool value => exact beq_self_eq_true (if value then (Double.one : Int) else 0)
  | @num number hnumber =>
    rw [literals, List.forall_mem_singleton] at hliterals
    cases number with
    | finite => exact Double.equals_withoutZeroSign hnumber
    | infinite negative => exact absurd rfl (hliterals negative)
    | nan => exact absurd rfl hnumber
  | str text => simp [reprinted, same, sameAtom]
  | symbol hname => simp [reprinted, same, sameAtom]
  | @form items _ ih =>
    rw [literals, forall_mem_literalsOfAll] at hliterals
    rw [reprinted, reprintedAll_eq_map, same, sameItems_iff_forall₂, List.forall₂_map_left_iff,
      List.forall₂_same]
    exact fun item hmem => ih item hmem (hliterals item hmem)

end Datum

theorem readsAs_chars_of_isSyntax {datum : Datum} (hwritten : datum.IsSyntax) (limit : Nat) :
    ReadsAs limit datum.nesting (datum.chars .literal) datum.reprinted := by
  induction hwritten with
  | bool value =>
    cases value <;> exact readsAs_symbol (by decide) (List.all_eq_true.1 (by decide))
  | @num number hnumber =>
    obtain ⟨negative, units, hunits⟩ | negative | _ := number
    · have hfinite : (Double.finite negative units hunits).IsFinite := trivial
      rw [Datum.reprinted, Double.reprinted_of_isFinite hfinite, ← ofAtom_sourceChars hfinite]
      exact readsAs_symbol (sourceChars_ne_nil hfinite) (Double.isSymbolChar_of_mem_sourceChars _)
    · cases negative <;> exact readsAs_symbol (by decide) (List.all_eq_true.1 (by decide))
    · exact absurd rfl hnumber
  | str text =>
    have hreads : ReadsAs limit 0 (Literal.encode text.toList)
      (.str (String.ofList text.toList)) := readsAs_string text.toList
    rwa [String.ofList_toList] at hreads
  | symbol hname => exact readsAs_identifier hname
  | @form items _ ih =>
    rw [Datum.reprinted, Datum.reprintedAll_eq_map, Datum.chars_form, Datum.nesting]
    refine readsAs_form ?_
    rw [List.forall₂_map_left_iff, List.forall₂_map_right_iff, List.forall₂_same]
    intro item hmem
    exact (ih item hmem).mono (Datum.nestingOfAll_le_iff.1 (Nat.le_refl _) item hmem)

/-- A piece of syntax can be printed by a printer that goes one level deeper than it nests. -/
theorem Datum.printObstacle?_of_isSyntax {datum : Datum} {limit : Nat} (hwritten : datum.IsSyntax)
    (hnesting : datum.nesting ≤ limit) : datum.printObstacle? (limit + 1) = none := by
  induction limit generalizing datum with
  | zero =>
    cases hwritten with
    | form => exact absurd hnesting (Nat.not_succ_le_zero _)
    | _ => rfl
  | succ limit ih =>
    cases hwritten with
    | @form items hitems =>
      have hdeep := nestingOfAll_le_iff.1 (Nat.le_of_succ_le_succ hnesting)
      have hprint : itemsObstacle? (limit + 1) items = none :=
        itemsObstacle?_eq_none.2 fun item hmem => ih (hitems item hmem) (hdeep item hmem)
      exact hprint
    | _ => rfl

theorem Datum.itemsCompareTooDeep_eq_false {limit : Nat} {items : List Datum}
    (hitems : ∀ item ∈ items, ∀ other : Datum, item.comparesTooDeep limit other = false)
    (others : List Datum) : itemsCompareTooDeep limit items others = false := by
  induction items generalizing others with
  | nil => cases others <;> rfl
  | cons item rest ih =>
    rw [List.forall_mem_cons] at hitems
    cases others with
    | nil => rfl
    | cons other others => rw [itemsCompareTooDeep, hitems.1, ih hitems.2, Bool.and_false]; rfl

/-- A piece of syntax that nests within the limit can be compared with anything. -/
theorem Datum.comparesTooDeep_of_isSyntax {datum : Datum} {limit : Nat} (hwritten : datum.IsSyntax)
    (hnesting : datum.nesting ≤ limit) (other : Datum) :
    datum.comparesTooDeep limit other = false := by
  induction limit generalizing datum other with
  | zero =>
    cases hwritten with
    | form => exact absurd hnesting (Nat.not_succ_le_zero _)
    | _ => cases other <;> rfl
  | succ limit ih =>
    cases hwritten with
    | @form items hitems =>
      have hdeep := nestingOfAll_le_iff.1 (Nat.le_of_succ_le_succ hnesting)
      cases other with
      | form label others =>
        have hcompare : itemsCompareTooDeep limit items others = false :=
          itemsCompareTooDeep_eq_false
            (fun item hmem => ih (hitems item hmem) (hdeep item hmem)) others
        simp [comparesTooDeep, hcompare]
      | _ => rfl
    | _ => cases other <;> rfl

/-! ### Texts one per line -/

/-- The source texts of the forms, one per line. -/
def sourceLines (forms : List Datum) : String :=
  String.ofList (joinChars ['\n'] (forms.map (Datum.chars .literal)))

namespace TokenStream

variable {limit depth : Nat}

theorem readAll_blank {char : Char} (hblank : isBlank char) (rest : List Char) (position : Nat) :
    (ofRest (char :: rest) position).readAll limit =
      (ofRest rest (position + 1)).readAll limit := by
  rw [← readAllInside_nil, ← readAllInside_nil, readAllInside, readAllInside,
    readInside_blank hblank]

/-- Texts that read as data, one per line, are read one after the other. -/
theorem readAll_joinChars {texts : List (List Char)} {data : List Datum}
    (hreads : List.Forall₂ (ReadsAs limit depth) texts data) (hdeep : depth ≤ limit)
    (position : Nat) :
    (ofRest (joinChars ['\n'] texts) position).readAll limit = (data, none) := by
  induction hreads generalizing position with
  | nil => exact readAll_of_end (readForm_ofRest_nil position)
  | @cons text datum texts data hfirst _ ih =>
    have hroom : ([] : List Enclosure).length + depth ≤ limit := (Nat.zero_add depth).trans_le hdeep
    cases texts with
    | nil =>
      have hread := hfirst [] [] position hroom delimited_nil
      rw [List.append_nil] at hread
      simp only [joinChars] at ih ⊢
      rw [readAll_of_readForm hread, ih]
    | cons next texts =>
      rw [joinChars.eq_3 _ _ _ (List.cons_ne_nil next texts), List.append_assoc,
        List.singleton_append]
      have hread := hfirst [] ('\n' :: joinChars ['\n'] (next :: texts)) position hroom
        (delimited_cons (by decide) _)
      rw [readAll_of_readForm hread, readAll_blank (by decide), ih]

end TokenStream

/-- Syntax that nests within the limit, printed one form per line, is read again as what its texts
are read as. -/
theorem readSource_sourceLines {limit : Nat} {forms : List Datum}
    (hwritten : ∀ form ∈ forms, form.IsSyntax) (hnesting : ∀ form ∈ forms, form.nesting ≤ limit) :
    readSource limit (sourceLines forms) = .ok (forms.map Datum.reprinted) := by
  have hreads : List.Forall₂ (ReadsAs limit limit) (forms.map (Datum.chars .literal))
      (forms.map Datum.reprinted) := by
    rw [List.forall₂_map_left_iff, List.forall₂_map_right_iff, List.forall₂_same]
    exact fun form hmem =>
      (readsAs_chars_of_isSyntax (hwritten form hmem) limit).mono (hnesting form hmem)
  have hall : (TokenStream.ofText (sourceLines forms)).readAll limit =
      (forms.map Datum.reprinted, none) := by
    rw [TokenStream.ofText, sourceLines, String.toList_ofList]
    exact TokenStream.readAll_joinChars hreads (Nat.le_refl limit) 0
  rw [readSource, hall]

/-- What the lines are read as has the same lines. -/
theorem sourceLines_map_reprinted {forms : List Datum} (hwritten : ∀ form ∈ forms, form.IsSyntax) :
    sourceLines (forms.map Datum.reprinted) = sourceLines forms := by
  rw [sourceLines, List.map_map]
  exact congrArg (fun texts => String.ofList (joinChars ['\n'] texts))
    (List.map_congr_left fun form hmem => Datum.chars_reprinted (hwritten form hmem))

/-- Printing is a normal form for source texts. The forms of a text can be printed, and their lines
are read without error into as many forms, which print as the same lines. When no number of the text
is infinite, these forms are one by one equal to those of the text. -/
theorem normalForm_of_readSource {limit : Nat} {text : String} {forms : List Datum}
    (hread : readSource limit text = .ok forms) :
    (∀ form ∈ forms, form.printObstacle? (limit + 1) = none) ∧
      ∃ again, readSource limit (sourceLines forms) = .ok again ∧ again.length = forms.length ∧
        sourceLines again = sourceLines forms ∧
        ((∀ form ∈ forms, ∀ number ∈ form.literals, ∀ negative, number ≠ .infinite negative) →
          List.Forall₂ (fun again form =>
            again.comparesTooDeep limit form = false ∧ again.same form = true) again forms) := by
  have hwritten := isSyntax_of_readSource hread
  have hnesting := nesting_le_of_readSource hread
  have hagain := readSource_sourceLines hwritten hnesting
  refine ⟨fun form hmem =>
      Datum.printObstacle?_of_isSyntax (hwritten form hmem) (hnesting form hmem), _, hagain,
    List.length_map _, sourceLines_map_reprinted hwritten, fun hliterals => ?_⟩
  rw [List.forall₂_map_left_iff, List.forall₂_same]
  intro form hmem
  have hmemAgain := List.mem_map_of_mem (f := Datum.reprinted) hmem
  exact ⟨Datum.comparesTooDeep_of_isSyntax (isSyntax_of_readSource hagain _ hmemAgain)
      (nesting_le_of_readSource hagain _ hmemAgain) form,
    Datum.same_reprinted (hwritten form hmem) (hliterals form hmem)⟩

/-- The shorthand of a quotation is printed in full, and the sign of a zero is dropped. -/
theorem normalForm_of_quotedZero :
    readSource 4 "'-0" = .ok [.form none [.keyword .quote, .num (.zero true)]] ∧
      sourceLines [.form none [.keyword .quote, .num (.zero true)]] = "(quote 0)" ∧
      ∃ again, readSource 4 "(quote 0)" = .ok again ∧ sourceLines again = "(quote 0)" ∧
        List.Forall₂ (fun again form => again.same form = true) again
          [.form none [.keyword .quote, .num (.zero true)]] := by
  have hquote : Scan.first "'-0".toList 0 = .token ⟨.quote, "'"⟩ "-0".toList 1 := rfl
  have hzero : Scan.first "-0".toList 1 = .token ⟨.symbol, "-0"⟩ [] 3 := rfl
  have hform : (TokenStream.ofText "'-0").readForm 4 =
      (.ok (some (.form none [.keyword .quote, .num (.zero true)])), TokenStream.ofRest [] 3) :=
    (TokenStream.readInside_ofRest hquote 4 []).trans
      (TokenStream.readInside_ofRest hzero 4 [.quote])
  have hread : readSource 4 "'-0" = .ok [.form none [.keyword .quote, .num (.zero true)]] := by
    rw [readSource, readAll_of_readForm hform, readAll_of_end (readForm_ofRest_nil 3)]
  have hlines : sourceLines [.form none [.keyword .quote, .num (.zero true)]] = "(quote 0)" := by
    decide +kernel
  obtain ⟨-, again, hagain, -, hsame, hequal⟩ := normalForm_of_readSource hread
  rw [hlines] at hagain hsame
  refine ⟨hread, hlines, again, hagain, hsame, ?_⟩
  refine (hequal fun form hmem number hnumber negative => ?_).imp fun _ _ => And.right
  cases List.mem_singleton.1 hmem
  cases List.mem_singleton.1 hnumber
  rintro ⟨⟩

end SmallScheme
