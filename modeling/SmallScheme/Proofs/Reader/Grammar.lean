import SmallScheme.Proofs.Reader.Tokens
/-!
# The grammar of forms

A form is a symbol, a string, a quote mark with a form after it, or forms between parentheses, so a
sequence of tokens is a sequence of such forms in one way at most. While it is read, the tokens up
to some place are complete forms and then the beginnings of forms that are still open, one inside
the other: reading goes through both, unless they nest deeper than the limit.
-/

namespace SmallScheme

/-- What is read is as expected, or reading was given up. -/
def EqOrTooDeep (outcome expected : List Datum × Option Interrupt) : Prop :=
  outcome = expected ∨ outcome.2 = some .tooDeep

namespace EqOrTooDeep

variable {outcome between expected : List Datum × Option Interrupt}

theorem trans (hfirst : EqOrTooDeep outcome between) (hrest : EqOrTooDeep between expected) :
    EqOrTooDeep outcome expected := by
  rcases hfirst with rfl | hdeep
  · exact hrest
  · exact .inr hdeep

theorem cons (hequal : EqOrTooDeep outcome expected) (datum : Datum) :
    EqOrTooDeep (datum :: outcome.1, outcome.2) (datum :: expected.1, expected.2) := by
  rcases hequal with rfl | hdeep
  · exact .inl rfl
  · exact .inr hdeep

theorem ite (expected : List Datum × Option Interrupt) {condition : Prop} [Decidable condition] :
    EqOrTooDeep (if condition then ([], some .tooDeep) else expected) expected := by
  split
  · exact .inr rfl
  · exact .inl rfl

end EqOrTooDeep

/-- A derivation of a form, with the texts of the tokens that it derives. -/
inductive Derivation where
  | symbol (text : String)
  | string (text : String)
  | quoted (mark : String) (form : Derivation)
  | list (opening closing : String) (forms : List Derivation)

namespace Derivation

mutual

/-- The tokens that are derived. -/
def tokens : Derivation → List Token
  | symbol text => [⟨.symbol, text⟩]
  | string text => [⟨.string, text⟩]
  | quoted mark form => ⟨.quote, mark⟩ :: form.tokens
  | list opening closing forms =>
    ⟨.openList, opening⟩ :: (tokensOfAll forms ++ [⟨.closeList, closing⟩])

def tokensOfAll : List Derivation → List Token
  | [] => []
  | form :: rest => form.tokens ++ tokensOfAll rest

end

mutual

/-- The form that is derived. -/
def datum : Derivation → Datum
  | symbol text => .ofAtom text
  | string text => .str (String.ofList (Literal.decode text.toList))
  | quoted _ form => .form none [.keyword .quote, form.datum]
  | list _ _ forms => .form none (dataOfAll forms)

def dataOfAll : List Derivation → List Datum
  | [] => []
  | form :: rest => form.datum :: dataOfAll rest

end

theorem tokensOfAll_eq_flatMap (forms : List Derivation) :
    tokensOfAll forms = forms.flatMap tokens := by
  induction forms with
  | nil => rfl
  | cons form rest ih => rw [tokensOfAll, List.flatMap_cons, ih]

theorem dataOfAll_eq_map (forms : List Derivation) : dataOfAll forms = forms.map datum := by
  induction forms with
  | nil => rfl
  | cons form rest ih => rw [dataOfAll, List.map_cons, ih]

theorem tokens_list (opening closing : String) (forms : List Derivation) :
    (list opening closing forms).tokens =
      ⟨.openList, opening⟩ :: (forms.flatMap tokens ++ [⟨.closeList, closing⟩]) := by
  rw [tokens, tokensOfAll_eq_flatMap]

theorem datum_list (opening closing : String) (forms : List Derivation) :
    (list opening closing forms).datum = .form none (forms.map datum) := by
  rw [datum, dataOfAll_eq_map]

/-! ### Derivations are read -/

section

variable {limit : Nat} {ending : Option Fault}

theorem before_enter (limit : Nat) (enclosure : Enclosure) (enclosures : List Enclosure)
    (readOn : List Enclosure → List Datum × Option Interrupt) :
    (ReadStep.enter limit enclosure enclosures).before readOn =
      if limit ≤ enclosures.length then ([], some .tooDeep)
      else readOn (enclosure :: enclosures) := by
  rw [ReadStep.enter]
  split <;> rfl

theorem readTokens_quote (mark : String) (rest : List Token) (enclosures : List Enclosure) :
    readTokens limit ending (⟨.quote, mark⟩ :: rest) enclosures =
      if limit ≤ enclosures.length then ([], some .tooDeep)
      else readTokens limit ending rest (.quote :: enclosures) :=
  before_enter ..

theorem readTokens_openList (opening : String) (rest : List Token) (enclosures : List Enclosure) :
    readTokens limit ending (⟨.openList, opening⟩ :: rest) enclosures =
      if limit ≤ enclosures.length then ([], some .tooDeep)
      else readTokens limit ending rest (.list [] :: enclosures) :=
  before_enter ..

theorem readTokens_closeList (closing : String) (rest : List Token) (reversed : List Datum)
    (outer : List Enclosure) :
    readTokens limit ending (⟨.closeList, closing⟩ :: rest) (.list reversed :: outer) =
      (ReadStep.afterDatum (.form none reversed.reverse) outer).before
        (readTokens limit ending rest) := rfl

mutual

/-- Reading goes through the tokens of a form and goes on as after that form. -/
theorem readTokens_tokens (form : Derivation) (enclosures : List Enclosure) (rest : List Token) :
    EqOrTooDeep (readTokens limit ending (form.tokens ++ rest) enclosures)
      ((ReadStep.afterDatum form.datum enclosures).before (readTokens limit ending rest)) := by
  cases form with
  | symbol text => exact .inl rfl
  | string text => exact .inl rfl
  | quoted mark form =>
    have hinside := readTokens_tokens form (.quote :: enclosures) rest
    rw [tokens, List.cons_append, readTokens_quote, datum]
    exact .trans (.ite _) hinside
  | list opening closing forms =>
    have hinside := readTokens_tokensOfAll forms [] enclosures (⟨.closeList, closing⟩ :: rest)
    rw [readTokens_closeList, List.append_nil, List.reverse_reverse] at hinside
    rw [tokens, List.cons_append, List.append_assoc, readTokens_openList, datum]
    exact .trans (.ite _) hinside

theorem readTokens_tokensOfAll (forms : List Derivation) (reversed : List Datum)
    (outer : List Enclosure) (rest : List Token) :
    EqOrTooDeep (readTokens limit ending (tokensOfAll forms ++ rest) (.list reversed :: outer))
      (readTokens limit ending rest (.list ((dataOfAll forms).reverse ++ reversed) :: outer)) := by
  cases forms with
  | nil => exact .inl rfl
  | cons form forms =>
    have hfirst := readTokens_tokens form (.list reversed :: outer) (tokensOfAll forms ++ rest)
    have hothers := readTokens_tokensOfAll forms (form.datum :: reversed) outer rest
    rw [tokensOfAll, List.append_assoc, dataOfAll, List.reverse_cons, List.append_assoc]
    exact hfirst.trans hothers

end

theorem readTokens_flatMap_tokens (forms : List Derivation) (rest : List Token) :
    EqOrTooDeep (readTokens limit ending (forms.flatMap tokens ++ rest) [])
      (forms.map datum ++ (readTokens limit ending rest []).1,
        (readTokens limit ending rest []).2) := by
  induction forms with
  | nil => exact .inl rfl
  | cons form forms ih =>
    rw [List.flatMap_cons, List.append_assoc]
    exact (readTokens_tokens form [] _).trans (ih.cons form.datum)

end

/-! ### At most one derivation -/

theorem exists_tokens_eq_cons (form : Derivation) :
    ∃ token rest, form.tokens = token :: rest ∧ token.kind ≠ .closeList := by
  cases form with
  | symbol text => exact ⟨_, [], rfl, by rintro ⟨⟩⟩
  | string text => exact ⟨_, [], rfl, by rintro ⟨⟩⟩
  | quoted mark form => exact ⟨_, form.tokens, rfl, by rintro ⟨⟩⟩
  | list opening closing forms => exact ⟨_, _, rfl, by rintro ⟨⟩⟩

/-- No form begins at the front of the tokens. -/
def EndsForms (tokens : List Token) : Prop := ∀ token ∈ tokens.head?, token.kind = .closeList

theorem not_endsForms_tokens_append (form : Derivation) (rest : List Token) :
    ¬ EndsForms (form.tokens ++ rest) := by
  obtain ⟨token, more, htokens, hkind⟩ := form.exists_tokens_eq_cons
  rw [htokens]
  exact fun hends => hkind (hends token rfl)

mutual

/-- The front of a sequence of tokens is one form at most. -/
theorem tokens_append_inj (form other : Derivation) {rest remainder : List Token}
    (htokens : form.tokens ++ rest = other.tokens ++ remainder) :
    form = other ∧ rest = remainder := by
  cases form with
  | symbol text =>
    cases other <;> cases htokens
    exact ⟨rfl, rfl⟩
  | string text =>
    cases other <;> cases htokens
    exact ⟨rfl, rfl⟩
  | quoted mark form =>
    cases other with
    | quoted mark' other =>
      injection htokens with hmark hinside
      obtain ⟨rfl, hrest⟩ := tokens_append_inj form other hinside
      cases hmark
      exact ⟨rfl, hrest⟩
    | _ => cases htokens
  | list opening closing forms =>
    cases other with
    | list opening' closing' others =>
      simp only [tokens, List.cons_append, List.append_assoc, List.cons.injEq] at htokens
      obtain ⟨hopening, hinside⟩ := htokens
      have hends : ∀ (closing : String) (rest : List Token),
          EndsForms (⟨.closeList, closing⟩ :: rest) := by
        rintro closing rest token ⟨⟩
        rfl
      obtain ⟨rfl, hclosing⟩ :=
        tokensOfAll_append_inj forms others (hends closing rest) (hends closing' remainder) hinside
      cases hopening
      cases hclosing
      exact ⟨rfl, rfl⟩
    | _ => cases htokens

theorem tokensOfAll_append_inj (forms others : List Derivation) {rest remainder : List Token}
    (hrest : EndsForms rest) (hremainder : EndsForms remainder)
    (htokens : tokensOfAll forms ++ rest = tokensOfAll others ++ remainder) :
    forms = others ∧ rest = remainder := by
  cases forms with
  | nil =>
    cases others with
    | nil => exact ⟨rfl, htokens⟩
    | cons other others =>
      rw [tokensOfAll, tokensOfAll, List.nil_append, List.append_assoc] at htokens
      exact absurd (htokens ▸ hrest) (not_endsForms_tokens_append other _)
  | cons form forms =>
    cases others with
    | nil =>
      rw [tokensOfAll, tokensOfAll, List.nil_append, List.append_assoc] at htokens
      exact absurd (htokens ▸ hremainder) (not_endsForms_tokens_append form _)
    | cons other others =>
      rw [tokensOfAll, tokensOfAll, List.append_assoc, List.append_assoc] at htokens
      obtain ⟨rfl, hothers⟩ := tokens_append_inj form other htokens
      obtain ⟨rfl, hends⟩ := tokensOfAll_append_inj forms others hrest hremainder hothers
      exact ⟨rfl, hends⟩

end

/-- A sequence of tokens has one derivation at most. -/
theorem flatMap_tokens_injective {forms others : List Derivation}
    (htokens : forms.flatMap tokens = others.flatMap tokens) : forms = others := by
  rw [← tokensOfAll_eq_flatMap, ← tokensOfAll_eq_flatMap] at htokens
  have hends : EndsForms [] := by rintro token ⟨⟩
  exact (tokensOfAll_append_inj forms others hends hends (congrArg (· ++ []) htokens)).1

end Derivation

/-! ### Forms that are open -/

/-- The beginning of a form that is still open: a quote mark, or an opening parenthesis and the
complete forms after it. -/
inductive Beginning where
  | quote (mark : String)
  | list (opening : String) (forms : List Derivation)

namespace Beginning

def tokens : Beginning → List Token
  | quote mark => [⟨.quote, mark⟩]
  | list opening forms => ⟨.openList, opening⟩ :: forms.flatMap Derivation.tokens

def enclosure : Beginning → Enclosure
  | quote _ => .quote
  | list _ forms => .list (forms.map Derivation.datum).reverse

/-- The tokens of beginnings one inside the other, the innermost one first in the list. -/
def tokensOfAll : List Beginning → List Token
  | [] => []
  | inner :: outer => tokensOfAll outer ++ inner.tokens

/-- A closing parenthesis that comes next closes no list. -/
def RefusesClose : List Beginning → Prop
  | list .. :: _ => False
  | _ => True

/-- A form that is complete completes the quotes that it is in, up to a list that is still open. -/
theorem exists_of_afterDatum (form : Derivation) (opened : List Beginning) :
    (∃ whole : Derivation,
      ReadStep.afterDatum form.datum (opened.map enclosure) = .complete whole.datum ∧
        tokensOfAll opened ++ form.tokens = whole.tokens) ∨
    ∃ still : List Beginning,
      ReadStep.afterDatum form.datum (opened.map enclosure) = .proceed (still.map enclosure) ∧
        tokensOfAll opened ++ form.tokens = tokensOfAll still := by
  induction opened generalizing form with
  | nil => exact .inl ⟨form, rfl, rfl⟩
  | cons inner outer ih =>
    cases inner with
    | quote mark =>
      have htokens : tokensOfAll (quote mark :: outer) ++ form.tokens =
          tokensOfAll outer ++ (Derivation.quoted mark form).tokens :=
        List.append_assoc ..
      rw [htokens]
      exact ih (.quoted mark form)
    | list opening forms =>
      refine .inr ⟨list opening (forms ++ [form]) :: outer, ?_, ?_⟩
      · simp only [ReadStep.afterDatum, Enclosure.place, List.map_cons, enclosure, List.map_append,
          List.map_nil, List.reverse_append, List.reverse_singleton, List.singleton_append]
      · simp only [tokensOfAll, tokens, List.flatMap_append, List.flatMap_singleton,
          List.append_assoc, List.cons_append]

variable {limit : Nat} {ending : Option Fault}

/-- Reading goes through the beginnings of forms and goes on inside them. -/
theorem readTokens_tokensOfAll (opened : List Beginning) (rest : List Token) :
    EqOrTooDeep (readTokens limit ending (tokensOfAll opened ++ rest) [])
      (readTokens limit ending rest (opened.map enclosure)) := by
  induction opened generalizing rest with
  | nil => exact .inl rfl
  | cons inner outer ih =>
    rw [tokensOfAll, List.append_assoc]
    refine (ih (inner.tokens ++ rest)).trans ?_
    cases inner with
    | quote mark =>
      rw [tokens, List.singleton_append, Derivation.readTokens_quote]
      exact .ite _
    | list opening forms =>
      rw [tokens, List.cons_append, Derivation.readTokens_openList,
        ← Derivation.tokensOfAll_eq_flatMap]
      refine .trans (.ite _) ((Derivation.readTokens_tokensOfAll forms [] _ rest).trans ?_)
      rw [Derivation.dataOfAll_eq_map, List.append_nil]
      exact .inl rfl

end Beginning

end SmallScheme
