import SmallScheme.Interpreter
import SmallScheme.Proofs.Reader.Grammar
/-!
# Which sequences of tokens are read

Reading accepts the sequences of tokens that are sequences of forms, and no other. A sequence that
is refused has a closing parenthesis that closes no list, or else it ends too early, behind a quote
mark or inside a list. And a sequence that nests too deep for the limit may be given up.
-/

namespace SmallScheme

/-! ### What reading comes to -/

/-- The tokens are complete forms, and then there is an explanation for what reading comes to: the
end of the tokens, inside forms that are open or not, a closing parenthesis that closes no list, or
the start of a list or quote that is deeper than the limit. -/
inductive Explains (limit : Nat) (tokens : List Token) : List Datum × Option Interrupt → Prop where
  | complete (forms : List Derivation) (htokens : tokens = forms.flatMap Derivation.tokens) :
    Explains limit tokens (forms.map Derivation.datum, none)
  | unfinished (forms : List Derivation) (opened : List Beginning) (fault : Fault)
    (htokens : tokens = forms.flatMap Derivation.tokens ++ Beginning.tokensOfAll opened)
    (hfault : Enclosure.faultAtEnd? (opened.map Beginning.enclosure) = some fault) :
    Explains limit tokens (forms.map Derivation.datum, some (.fault fault))
  | stray (forms : List Derivation) (opened : List Beginning) (closing : String)
    (rest : List Token)
    (htokens : tokens = forms.flatMap Derivation.tokens ++
      (Beginning.tokensOfAll opened ++ ⟨.closeList, closing⟩ :: rest))
    (hopened : Beginning.RefusesClose opened) :
    Explains limit tokens (forms.map Derivation.datum, some (.fault .unexpectedClose))
  | tooDeep (forms : List Derivation) (opened : List Beginning) (start : Token)
    (rest : List Token)
    (htokens : tokens = forms.flatMap Derivation.tokens ++
      (Beginning.tokensOfAll opened ++ start :: rest))
    (hstart : start.kind = .quote ∨ start.kind = .openList) (hdeep : limit ≤ opened.length) :
    Explains limit tokens (forms.map Derivation.datum, some .tooDeep)

section

variable {limit : Nat}

theorem Explains.cons {tokens : List Token} {outcome : List Datum × Option Interrupt}
    (hexplains : Explains limit tokens outcome) (form : Derivation) :
    Explains limit (form.tokens ++ tokens) (form.datum :: outcome.1, outcome.2) := by
  have hcons : ∀ {forms : List Derivation} {rest : List Token},
      tokens = forms.flatMap Derivation.tokens ++ rest →
        form.tokens ++ tokens = (form :: forms).flatMap Derivation.tokens ++ rest := by
    rintro forms rest rfl
    rw [List.flatMap_cons, List.append_assoc]
  cases hexplains with
  | complete forms htokens =>
    exact .complete (form :: forms) (by rw [htokens, List.flatMap_cons])
  | unfinished forms opened fault htokens hfault =>
    exact .unfinished (form :: forms) opened fault (hcons htokens) hfault
  | stray forms opened closing rest htokens hopened =>
    exact .stray (form :: forms) opened closing rest (hcons htokens) hopened
  | tooDeep forms opened start rest htokens hstart hdeep =>
    exact .tooDeep (form :: forms) opened start rest (hcons htokens) hstart hdeep

/-- After a form, reading goes on inside what is still open. -/
theorem explains_afterDatum (form : Derivation) (opened : List Beginning) {rest : List Token}
    (hrest : ∀ opened : List Beginning, Explains limit (Beginning.tokensOfAll opened ++ rest)
      (readTokens limit none rest (opened.map Beginning.enclosure))) :
    Explains limit (Beginning.tokensOfAll opened ++ (form.tokens ++ rest))
      ((ReadStep.afterDatum form.datum (opened.map Beginning.enclosure)).before
        (readTokens limit none rest)) := by
  rw [← List.append_assoc]
  rcases Beginning.exists_of_afterDatum form opened with
    ⟨whole, hcomplete, htokens⟩ | ⟨still, hproceed, htokens⟩
  · rw [hcomplete, htokens]
    exact (hrest []).cons whole
  · rw [hproceed, htokens]
    exact hrest still

/-- After a closing parenthesis, reading goes on behind the list that it closes. -/
theorem explains_closeList (closing : String) (opened : List Beginning) {rest : List Token}
    (hrest : ∀ opened : List Beginning, Explains limit (Beginning.tokensOfAll opened ++ rest)
      (readTokens limit none rest (opened.map Beginning.enclosure))) :
    Explains limit (Beginning.tokensOfAll opened ++ ⟨.closeList, closing⟩ :: rest)
      (readTokens limit none (⟨.closeList, closing⟩ :: rest)
        (opened.map Beginning.enclosure)) := by
  match opened with
  | [] => exact .stray [] [] closing rest rfl trivial
  | .quote mark :: outer => exact .stray [] (.quote mark :: outer) closing rest rfl trivial
  | .list opening forms :: outer =>
    have hlist := explains_afterDatum (.list opening closing forms) outer hrest
    simp only [Derivation.tokens_list, Derivation.datum_list, List.cons_append,
      List.append_assoc, List.nil_append] at hlist
    simp only [Beginning.tokensOfAll, Beginning.tokens, List.cons_append, List.append_assoc,
      List.map_cons, Beginning.enclosure, Derivation.readTokens_closeList, List.reverse_reverse]
    exact hlist

/-- Whatever the tokens are, what reading comes to has its explanation. -/
theorem explains_readTokens {tokens : List Token}
    (hkinds : ∀ token ∈ tokens, ∀ name, token.kind ≠ .other name) (opened : List Beginning) :
    Explains limit (Beginning.tokensOfAll opened ++ tokens)
      (readTokens limit none tokens (opened.map Beginning.enclosure)) := by
  induction tokens generalizing opened with
  | nil =>
    rw [List.append_nil]
    cases opened with
    | nil => exact .complete [] rfl
    | cons inner outer =>
      cases inner with
      | quote mark => exact .unfinished [] (.quote mark :: outer) .endAfterQuote rfl rfl
      | list opening forms =>
        exact .unfinished [] (.list opening forms :: outer) .unclosedList rfl rfl
  | cons token rest ih =>
    obtain ⟨hkind, hrest⟩ := List.forall_mem_cons.1 hkinds
    obtain ⟨kind, text⟩ := token
    cases kind with
    | symbol => exact explains_afterDatum (.symbol text) opened (ih hrest)
    | string => exact explains_afterDatum (.string text) opened (ih hrest)
    | quote =>
      rw [Derivation.readTokens_quote, List.length_map]
      split
      · next hdeep => exact .tooDeep [] opened ⟨.quote, text⟩ rest rfl (.inl rfl) hdeep
      · have hinside := ih hrest (.quote text :: opened)
        rwa [Beginning.tokensOfAll, List.append_assoc] at hinside
    | openList =>
      rw [Derivation.readTokens_openList, List.length_map]
      split
      · next hdeep => exact .tooDeep [] opened ⟨.openList, text⟩ rest rfl (.inr rfl) hdeep
      · have hinside := ih hrest (.list text [] :: opened)
        rwa [Beginning.tokensOfAll, List.append_assoc] at hinside
    | closeList => exact explains_closeList text opened (ih hrest)
    | other name => exact absurd rfl (hkind name)

/-- Unless it is given up before, reading comes to what lies behind complete forms and the
beginnings of open ones. -/
theorem readTokens_of_opened (forms : List Derivation) (opened : List Beginning)
    (rest : List Token) {ending : Option Fault} :
    EqOrTooDeep
      (readTokens limit ending
        (forms.flatMap Derivation.tokens ++ (Beginning.tokensOfAll opened ++ rest)) [])
      (forms.map Derivation.datum ++
          (readTokens limit ending rest (opened.map Beginning.enclosure)).1,
        (readTokens limit ending rest (opened.map Beginning.enclosure)).2) := by
  refine (Derivation.readTokens_flatMap_tokens forms _).trans ?_
  rcases Beginning.readTokens_tokensOfAll opened rest with hread | hdeep
  · rw [hread]
    exact .inl rfl
  · exact .inr hdeep

end

/-! ### Marks of refused sequences -/

/-- The last token is a quote mark. -/
def EndsWithQuote (tokens : List Token) : Prop :=
  ∃ front mark, tokens = front ++ [⟨.quote, mark⟩]

/-- Some closing parenthesis comes where no list is open or directly after a quote mark. -/
def HasStrayClose (tokens : List Token) : Prop :=
  ∃ front closing back, tokens = front ++ ⟨.closeList, closing⟩ :: back ∧
    ((front.map Token.kind).count .openList ≤ (front.map Token.kind).count .closeList ∨
      EndsWithQuote front)

/-- Some list or quote starts where as many as the limit are open already. -/
def NestsTooDeep (limit : Nat) (tokens : List Token) : Prop :=
  ∃ (forms : List Derivation) (opened : List Beginning) (start : Token) (rest : List Token),
    tokens = forms.flatMap Derivation.tokens ++ (Beginning.tokensOfAll opened ++ start :: rest) ∧
      (start.kind = .quote ∨ start.kind = .openList) ∧ limit ≤ opened.length

namespace Derivation

mutual

theorem count_tokens (form : Derivation) :
    (form.tokens.map Token.kind).count .openList =
      (form.tokens.map Token.kind).count .closeList := by
  cases form with
  | symbol text => rfl
  | string text => rfl
  | quoted mark form =>
    have hform := count_tokens form
    simpa [tokens] using hform
  | list opening closing forms =>
    have hforms := count_tokensOfAll forms
    simpa [tokens] using hforms

/-- Every list of a form is closed. -/
theorem count_tokensOfAll (forms : List Derivation) :
    ((tokensOfAll forms).map Token.kind).count .openList =
      ((tokensOfAll forms).map Token.kind).count .closeList := by
  cases forms with
  | nil => rfl
  | cons form rest =>
    rw [tokensOfAll, List.map_append, List.count_append, List.count_append, count_tokens form,
      count_tokensOfAll rest]

end

theorem count_flatMap_tokens (forms : List Derivation) :
    ((forms.flatMap tokens).map Token.kind).count .openList =
      ((forms.flatMap tokens).map Token.kind).count .closeList := by
  rw [← tokensOfAll_eq_flatMap]
  exact count_tokensOfAll forms

theorem exists_tokens_eq_concat (form : Derivation) :
    ∃ front last, form.tokens = front ++ [last] ∧ last.kind ≠ .quote := by
  cases form with
  | symbol text => exact ⟨[], _, rfl, by rintro ⟨⟩⟩
  | string text => exact ⟨[], _, rfl, by rintro ⟨⟩⟩
  | quoted mark form =>
    obtain ⟨front, last, htokens, hlast⟩ := exists_tokens_eq_concat form
    exact ⟨_ :: front, last, by rw [tokens, htokens, List.cons_append], hlast⟩
  | list opening closing forms => exact ⟨_ :: tokensOfAll forms, _, rfl, by rintro ⟨⟩⟩

/-- A form ends with no quote mark. -/
theorem endsWithQuote_of_append {front : List Token} {forms : List Derivation}
    (hends : EndsWithQuote (front ++ forms.flatMap tokens)) : EndsWithQuote front := by
  rcases List.eq_nil_or_concat forms with rfl | ⟨forms, form, rfl⟩
  · rwa [List.flatMap_nil, List.append_nil] at hends
  · obtain ⟨before, mark, htokens⟩ := hends
    obtain ⟨inner, last, hform, hlast⟩ := form.exists_tokens_eq_concat
    rw [List.concat_eq_append, List.flatMap_append, List.flatMap_singleton, hform,
      ← List.append_assoc, ← List.append_assoc] at htokens
    have hmark : last = ⟨.quote, mark⟩ :=
      List.singleton_inj.1 (List.append_inj_right' htokens rfl)
    exact absurd (congrArg Token.kind hmark) hlast

end Derivation

namespace Beginning

theorem count_tokens (inner : Beginning) :
    (inner.tokens.map Token.kind).count .closeList ≤
      (inner.tokens.map Token.kind).count .openList := by
  cases inner with
  | quote mark => simp [tokens]
  | list opening forms => simp [tokens, Derivation.count_flatMap_tokens]

theorem count_tokensOfAll (opened : List Beginning) :
    ((tokensOfAll opened).map Token.kind).count .closeList ≤
      ((tokensOfAll opened).map Token.kind).count .openList := by
  induction opened with
  | nil => exact Nat.le_refl _
  | cons inner outer ih =>
    rw [tokensOfAll, List.map_append, List.count_append, List.count_append]
    exact Nat.add_le_add ih inner.count_tokens

theorem length_le_length_tokensOfAll (opened : List Beginning) :
    opened.length ≤ (tokensOfAll opened).length := by
  induction opened with
  | nil => exact Nat.le_refl _
  | cons inner outer ih =>
    have hinner : 1 ≤ inner.tokens.length := by
      cases inner <;> exact Nat.le_add_left 1 _
    rw [tokensOfAll, List.length_append, List.length_cons]
    omega

theorem tokensOfAll_replicate (count : Nat) (opening : String) :
    tokensOfAll (List.replicate count (list opening [])) =
      List.replicate count ⟨.openList, opening⟩ := by
  induction count with
  | zero => rfl
  | succ count ih =>
    rw [List.replicate_succ, tokensOfAll, ih, List.replicate_succ']
    rfl

/-- The beginnings of open forms end with a quote mark only if that is the innermost one. -/
theorem exists_quote_of_endsWithQuote {forms : List Derivation} {opened : List Beginning}
    (hends : EndsWithQuote (forms.flatMap Derivation.tokens ++ tokensOfAll opened)) :
    ∃ mark outer, opened = quote mark :: outer := by
  match opened with
  | [] =>
    rw [tokensOfAll, List.append_nil, ← List.nil_append (forms.flatMap _)] at hends
    obtain ⟨front, mark, hnil⟩ := Derivation.endsWithQuote_of_append hends
    cases front <;> cases hnil
  | quote mark :: outer => exact ⟨mark, outer, rfl⟩
  | list opening inside :: outer =>
    have hsplit : forms.flatMap Derivation.tokens ++ tokensOfAll (list opening inside :: outer) =
        (forms.flatMap Derivation.tokens ++ tokensOfAll outer ++ [⟨.openList, opening⟩]) ++
          inside.flatMap Derivation.tokens := by
      simp only [tokensOfAll, tokens, List.append_assoc, List.singleton_append]
    rw [hsplit] at hends
    obtain ⟨front, mark, hopening⟩ := Derivation.endsWithQuote_of_append hends
    cases List.append_inj_right' hopening rfl

theorem endsWithQuote_tokensOfAll (front : List Token) (mark : String) (outer : List Beginning) :
    EndsWithQuote (front ++ tokensOfAll (quote mark :: outer)) :=
  ⟨front ++ tokensOfAll outer, mark, (List.append_assoc ..).symm⟩

/-- Complete forms and the beginnings of open ones refuse a closing parenthesis exactly if it would
be a stray one. -/
theorem refusesClose_iff {forms : List Derivation} {opened : List Beginning} :
    RefusesClose opened ↔
      (((forms.flatMap Derivation.tokens ++ tokensOfAll opened).map Token.kind).count .openList ≤
          ((forms.flatMap Derivation.tokens ++ tokensOfAll opened).map Token.kind).count
            .closeList ∨
        EndsWithQuote (forms.flatMap Derivation.tokens ++ tokensOfAll opened)) := by
  constructor
  · intro hopened
    cases opened with
    | nil =>
      rw [tokensOfAll, List.append_nil, Derivation.count_flatMap_tokens]
      exact .inl (Nat.le_refl _)
    | cons inner outer =>
      cases inner with
      | quote mark => exact .inr (endsWithQuote_tokensOfAll _ mark outer)
      | list opening inside => exact hopened.elim
  · intro hstray
    cases opened with
    | nil => trivial
    | cons inner outer =>
      cases inner with
      | quote mark => trivial
      | list opening inside =>
        exfalso
        rcases hstray with hcount | hends
        · have houter := count_tokensOfAll outer
          simp only [tokensOfAll, tokens, List.map_append, List.count_append, List.map_cons,
            List.count_cons_self, Derivation.count_flatMap_tokens,
            List.count_cons_of_ne (show Token.Kind.openList ≠ .closeList by rintro ⟨⟩)] at hcount
          omega
        · obtain ⟨_, _, hquote⟩ := exists_quote_of_endsWithQuote hends
          cases hquote

end Beginning

/-! ### Refusal -/

section

variable {limit : Nat} {tokens : List Token}

theorem NestsTooDeep.lt_length (hdeep : NestsTooDeep limit tokens) : limit < tokens.length := by
  obtain ⟨forms, opened, start, rest, rfl, -, hlimit⟩ := hdeep
  have hopened := Beginning.length_le_length_tokensOfAll opened
  simp only [List.length_append, List.length_cons]
  omega

theorem NestsTooDeep.mono {depth : Nat} (hdeep : NestsTooDeep limit tokens)
    (hlimit : depth ≤ limit) : NestsTooDeep depth tokens := by
  obtain ⟨forms, opened, start, rest, htokens, hstart, hopened⟩ := hdeep
  exact ⟨forms, opened, start, rest, htokens, hstart, hlimit.trans hopened⟩

theorem tooDeep_of_nestsTooDeep (hdeep : NestsTooDeep limit tokens) :
    (readTokens limit none tokens []).2 = some .tooDeep := by
  obtain ⟨forms, opened, start, rest, rfl, hstart, hlimit⟩ := hdeep
  obtain ⟨kind, text⟩ := start
  have hfull : limit ≤ (opened.map Beginning.enclosure).length := by
    rw [List.length_map]
    exact hlimit
  rcases readTokens_of_opened forms opened (⟨kind, text⟩ :: rest) with hread | hread
  · rw [hread]
    rcases hstart with rfl | rfl
    · rw [Derivation.readTokens_quote, if_pos hfull]
    · rw [Derivation.readTokens_openList, if_pos hfull]
  · exact hread

/-- A closing parenthesis that closes no list is refused, unless reading is given up before. -/
theorem readTokens_of_refusesClose (forms : List Derivation) {opened : List Beginning}
    (hopened : Beginning.RefusesClose opened) (closing : String) (rest : List Token) :
    let outcome := readTokens limit none (forms.flatMap Derivation.tokens ++
      (Beginning.tokensOfAll opened ++ ⟨.closeList, closing⟩ :: rest)) []
    outcome.2 = some (.fault .unexpectedClose) ∨ outcome.2 = some .tooDeep := by
  intro outcome
  have hclose : (readTokens limit none (⟨.closeList, closing⟩ :: rest)
      (opened.map Beginning.enclosure)).2 = some (.fault .unexpectedClose) := by
    match opened with
    | [] => rfl
    | .quote _ :: _ => rfl
    | .list .. :: _ => exact hopened.elim
  rcases readTokens_of_opened forms opened (⟨.closeList, closing⟩ :: rest) with hread | hdeep
  · exact .inl ((congrArg Prod.snd hread).trans hclose)
  · exact .inr hdeep

variable (hkinds : ∀ token ∈ tokens, ∀ name, token.kind ≠ .other name)

include hkinds

/-- A stray closing parenthesis is refused, unless reading is given up before. -/
theorem readTokens_of_hasStrayClose (limit : Nat) (hstray : HasStrayClose tokens) :
    (readTokens limit none tokens []).2 = some (.fault .unexpectedClose) ∨
      (readTokens limit none tokens []).2 = some .tooDeep := by
  obtain ⟨front, closing, back, rfl, hfront⟩ := hstray
  -- the first stray one may come earlier: then the tokens before this one explain their refusal
  have hbefore : Explains limit front (readTokens limit none front []) :=
    explains_readTokens (fun token hmem => hkinds token (List.mem_append_left _ hmem)) []
  generalize readTokens limit none front [] = outcome at hbefore
  cases hbefore with
  | complete forms htokens =>
    subst htokens
    have hnone : Beginning.RefusesClose [] := trivial
    exact readTokens_of_refusesClose forms hnone closing back
  | unfinished forms opened fault htokens hfault =>
    subst htokens
    rw [List.append_assoc]
    exact readTokens_of_refusesClose forms (Beginning.refusesClose_iff.2 hfront) closing back
  | stray forms opened earlier rest htokens hopened =>
    subst htokens
    simp only [List.append_assoc, List.cons_append]
    exact readTokens_of_refusesClose forms hopened earlier _
  | tooDeep forms opened start rest htokens hstart hdeep =>
    refine .inr (tooDeep_of_nestsTooDeep
      ⟨forms, opened, start, rest ++ ⟨.closeList, closing⟩ :: back, ?_, hstart, hdeep⟩)
    rw [htokens]
    simp only [List.append_assoc, List.cons_append]

/-- What reading comes to, by the marks of the tokens. -/
theorem readTokens_cases (limit : Nat) :
    (readTokens limit none tokens []).2 = some .tooDeep ∧ NestsTooDeep limit tokens ∨
    (∃ forms : List Derivation, tokens = forms.flatMap Derivation.tokens ∧
      readTokens limit none tokens [] = (forms.map Derivation.datum, none)) ∨
    ∃ fault, (readTokens limit none tokens []).2 = some (.fault fault) ∧
      (fault = .unexpectedClose ∧ HasStrayClose tokens ∨
        fault = .endAfterQuote ∧ EndsWithQuote tokens ∨
          fault = .unclosedList ∧ ¬ EndsWithQuote tokens) := by
  have hexplains : Explains limit tokens (readTokens limit none tokens []) :=
    explains_readTokens hkinds []
  generalize readTokens limit none tokens [] = outcome at hexplains
  cases hexplains with
  | complete forms htokens => exact .inr (.inl ⟨forms, htokens, rfl⟩)
  | unfinished forms opened fault htokens hfault =>
    refine .inr (.inr ⟨fault, rfl, .inr ?_⟩)
    match opened with
    | [] => cases hfault
    | .quote mark :: outer =>
      cases hfault
      exact .inl ⟨rfl, htokens ▸ Beginning.endsWithQuote_tokensOfAll _ mark outer⟩
    | .list opening inside :: outer =>
      cases hfault
      refine .inr ⟨rfl, fun hends => ?_⟩
      obtain ⟨_, _, hquote⟩ := Beginning.exists_quote_of_endsWithQuote (htokens ▸ hends)
      cases hquote
  | stray forms opened closing rest htokens hopened =>
    rw [← List.append_assoc] at htokens
    exact .inr (.inr ⟨_, rfl, .inl ⟨rfl, _, closing, rest, htokens,
      Beginning.refusesClose_iff.1 hopened⟩⟩)
  | tooDeep forms opened start rest htokens hstart hdeep =>
    exact .inl ⟨rfl, forms, opened, start, rest, htokens, hstart, hdeep⟩

theorem tooDeep_iff_nestsTooDeep :
    (readTokens limit none tokens []).2 = some .tooDeep ↔ NestsTooDeep limit tokens := by
  constructor
  · intro hread
    rcases readTokens_cases hkinds limit with
      ⟨-, hdeep⟩ | ⟨forms, -, hforms⟩ | ⟨fault, hfault, -⟩
    · exact hdeep
    · rw [hforms] at hread
      cases hread
    · rw [hfault] at hread
      cases hread
  · exact tooDeep_of_nestsTooDeep

theorem readTokens_of_derivation (hdeep : ¬ NestsTooDeep limit tokens) {forms : List Derivation}
    (hforms : forms.flatMap Derivation.tokens = tokens) :
    readTokens limit none tokens [] = (forms.map Derivation.datum, none) := by
  have hread : EqOrTooDeep (readTokens limit none (forms.flatMap Derivation.tokens ++ []) [])
      (forms.map Derivation.datum ++ [], none) := Derivation.readTokens_flatMap_tokens forms []
  rw [List.append_nil, List.append_nil, hforms] at hread
  rcases hread with hread | hread
  · exact hread
  · exact absurd ((tooDeep_iff_nestsTooDeep hkinds).1 hread) hdeep

theorem exists_derivation_of_readTokens (hread : (readTokens limit none tokens []).2 = none) :
    ∃ forms : List Derivation, forms.flatMap Derivation.tokens = tokens := by
  rcases readTokens_cases hkinds limit with ⟨hfailure, -⟩ | ⟨forms, htokens, -⟩ | ⟨_, hfailure, -⟩
  · rw [hread] at hfailure
    cases hfailure
  · exact ⟨forms, htokens.symm⟩
  · rw [hread] at hfailure
    cases hfailure

/-- The fault of tokens that are no forms, by their marks. -/
theorem exists_fault_of_no_derivation (hdeep : ¬ NestsTooDeep limit tokens)
    (hnone : ¬ ∃ forms : List Derivation, forms.flatMap Derivation.tokens = tokens) :
    ∃ fault, (readTokens limit none tokens []).2 = some (.fault fault) ∧
      (HasStrayClose tokens → fault = .unexpectedClose) ∧
      (¬ HasStrayClose tokens → EndsWithQuote tokens → fault = .endAfterQuote) ∧
      (¬ HasStrayClose tokens → ¬ EndsWithQuote tokens → fault = .unclosedList) := by
  rcases readTokens_cases hkinds limit with
    ⟨-, hother⟩ | ⟨forms, htokens, -⟩ | ⟨fault, hfault, hmarks⟩
  · exact absurd hother hdeep
  · exact absurd ⟨forms, htokens.symm⟩ hnone
  · refine ⟨fault, hfault, fun hstray => ?_, fun hstray hends => ?_, fun hstray hends => ?_⟩
    · rcases readTokens_of_hasStrayClose hkinds limit hstray with hread | hread
      · rw [hfault] at hread
        cases hread
        rfl
      · exact absurd ((tooDeep_iff_nestsTooDeep hkinds).1 hread) hdeep
    · rcases hmarks with ⟨-, hother⟩ | ⟨hquote, -⟩ | ⟨-, hother⟩
      · exact absurd hother hstray
      · exact hquote
      · exact absurd hends hother
    · rcases hmarks with ⟨-, hother⟩ | ⟨-, hother⟩ | ⟨hlist, -⟩
      · exact absurd hother hstray
      · exact absurd hother hends
      · exact hlist

end

/-- A sequence of tokens has one derivation at most. Unless reading is given up, the sequence is
read exactly if it has a derivation, as the forms of that one. If it has none, the fault is a
closing parenthesis that comes where no list is open or directly after a quote mark, and else the
end of the tokens, behind a quote mark or inside a list. And for every depth some number of levels
is enough that no sequence is given up that nests no deeper. -/
theorem readAll_eq_of_grammar :
    ∃ levels : Nat → Nat, ∀ tokens : List Token,
      (∀ token ∈ tokens, ∀ name, token.kind ≠ .other name) →
        (∀ forms others : List Derivation, forms.flatMap Derivation.tokens = tokens →
          others.flatMap Derivation.tokens = tokens → forms = others) ∧
        ∀ limit,
          let outcome := (TokenStream.ofTokens tokens).readAll limit
          (∀ depth, ¬ NestsTooDeep depth tokens → levels depth ≤ limit →
            outcome.2 ≠ some .tooDeep) ∧
          (outcome.2 ≠ some .tooDeep →
            (outcome.2 = none ↔
              ∃ forms : List Derivation, forms.flatMap Derivation.tokens = tokens) ∧
            (∀ forms : List Derivation, forms.flatMap Derivation.tokens = tokens →
              outcome = (forms.map Derivation.datum, none)) ∧
            ((¬ ∃ forms : List Derivation, forms.flatMap Derivation.tokens = tokens) →
              ∃ fault, outcome.2 = some (.fault fault) ∧
                (HasStrayClose tokens → fault.report = "SableSyntaxError: Unexpected ')'") ∧
                (¬ HasStrayClose tokens → EndsWithQuote tokens →
                  fault.report = "SableSyntaxError: Unexpected EOF after quote") ∧
                (¬ HasStrayClose tokens → ¬ EndsWithQuote tokens →
                  fault.report = "SableSyntaxError: Unmatched '('"))) := by
  refine ⟨id, fun tokens hkinds => ⟨fun forms others hforms hothers => ?_, fun limit => ?_⟩⟩
  · exact Derivation.flatMap_tokens_injective (hforms.trans hothers.symm)
  intro outcome
  have houtcome : outcome = readTokens limit none tokens [] := TokenStream.readAll_ofTokens tokens
  rw [houtcome, ne_eq, tooDeep_iff_nestsTooDeep hkinds]
  refine ⟨fun depth hshallow henough hdeep => hshallow (hdeep.mono henough),
    fun hdeep => ⟨⟨exists_derivation_of_readTokens hkinds, ?_⟩, ?_, fun hnone => ?_⟩⟩
  · rintro ⟨forms, hforms⟩
    rw [readTokens_of_derivation hkinds hdeep hforms]
  · intro forms hforms
    exact readTokens_of_derivation hkinds hdeep hforms
  · obtain ⟨fault, hfault, hclose, hquote, hlist⟩ :=
      exists_fault_of_no_derivation hkinds hdeep hnone
    refine ⟨fault, hfault, fun hstray => ?_, fun hstray hends => ?_, fun hstray hends => ?_⟩
    · rw [hclose hstray]
      rfl
    · rw [hquote hstray hends]
      rfl
    · rw [hlist hstray hends]
      rfl

/-- With enough levels, a list of a quoted symbol and then a string are read. Without the opening
parenthesis they are refused. -/
theorem readAll_of_quoted_symbol :
    let tokens : List Token :=
      [⟨.quote, "'"⟩, ⟨.symbol, "a"⟩, ⟨.closeList, ")"⟩, ⟨.string, "\"s\""⟩]
    (∀ token ∈ tokens, ∀ name, token.kind ≠ .other name) ∧
      ∃ enough, ∀ limit, enough ≤ limit →
        (TokenStream.ofTokens (⟨.openList, "("⟩ :: tokens)).readAll limit =
            ([.form none [.form none [.keyword .quote, .symbol "a"]], .str "s"], none) ∧
          ∃ fault, ((TokenStream.ofTokens tokens).readAll limit).2 = some (.fault fault) ∧
            fault.report = "SableSyntaxError: Unexpected ')'" := by
  intro tokens
  have hkinds : ∀ token ∈ tokens, ∀ name, token.kind ≠ .other name := by
    simp [tokens]
  have hopened : ∀ token ∈ (⟨.openList, "("⟩ : Token) :: tokens, ∀ name,
      token.kind ≠ .other name :=
    List.forall_mem_cons.2 ⟨fun _ hkind => (nomatch hkind), hkinds⟩
  have hshallow : ∀ {tokens : List Token}, tokens.length ≤ 5 → ¬ NestsTooDeep 5 tokens :=
    fun hlength hdeep => absurd hlength (Nat.not_le.2 hdeep.lt_length)
  obtain ⟨levels, hgrammar⟩ := readAll_eq_of_grammar
  refine ⟨hkinds, levels 5, fun limit henough => ⟨?_, ?_⟩⟩
  · obtain ⟨-, haccepted⟩ := hgrammar _ hopened
    obtain ⟨hroom, hread⟩ := haccepted limit
    exact (hread (hroom 5 (hshallow (Nat.le_refl 5)) henough)).2.1
      [.list "(" ")" [.quoted "'" (.symbol "a")], .string "\"s\""] rfl
  · obtain ⟨-, haccepted⟩ := hgrammar _ hkinds
    obtain ⟨hroom, hread⟩ := haccepted limit
    have hnone : ¬ ∃ forms : List Derivation, forms.flatMap Derivation.tokens = tokens := by
      rintro ⟨forms, hforms⟩
      have hcount := Derivation.count_flatMap_tokens forms
      rw [hforms] at hcount
      exact absurd hcount (by decide)
    obtain ⟨fault, hfault, hclose, -⟩ :=
      (hread (hroom 5 (hshallow (Nat.le_succ 4)) henough)).2.2 hnone
    exact ⟨fault, hfault, hclose
      ⟨[⟨.quote, "'"⟩, ⟨.symbol, "a"⟩], ")", [⟨.string, "\"s\""⟩], rfl, .inl (by decide)⟩⟩

/-- Opening parentheses alone are no sequence of forms, and no closing parenthesis or quote mark is
at fault. But if there are more than the limit, no fault is reported: reading is given up. -/
theorem readAll_of_opening_parentheses :
    let tokens : List Token := List.replicate 20000 ⟨.openList, "("⟩
    (∀ token ∈ tokens, ∀ name, token.kind ≠ .other name) ∧
      (¬ ∃ forms : List Derivation, forms.flatMap Derivation.tokens = tokens) ∧
      ¬ HasStrayClose tokens ∧ ¬ EndsWithQuote tokens ∧
      ((TokenStream.ofTokens tokens).readAll Interpreter.depthLimit).2 = some .tooDeep := by
  intro tokens
  have hopen : ∀ token ∈ tokens, token = ⟨.openList, "("⟩ :=
    fun token hmem => List.eq_of_mem_replicate hmem
  have hkinds : tokens.map Token.kind = List.replicate 20000 .openList := List.map_replicate
  refine ⟨fun token hmem name hkind => ?_, ?_, ?_, ?_, ?_⟩
  · rw [hopen token hmem] at hkind
    cases hkind
  · rintro ⟨forms, hforms⟩
    have hcount := Derivation.count_flatMap_tokens forms
    rw [hforms, hkinds, List.count_replicate_self, List.count_replicate, if_neg (by rintro ⟨⟩)]
      at hcount
    cases hcount
  · rintro ⟨front, closing, back, htokens, -⟩
    cases hopen _ (htokens ▸ List.mem_append_right front List.mem_cons_self)
  · rintro ⟨front, mark, htokens⟩
    cases hopen _ (htokens ▸ List.mem_append_right front List.mem_cons_self)
  · rw [TokenStream.readAll_ofTokens]
    refine tooDeep_of_nestsTooDeep ⟨[], List.replicate Interpreter.depthLimit (.list "(" []),
      ⟨.openList, "("⟩, List.replicate 18999 ⟨.openList, "("⟩, ?_, .inr rfl, ?_⟩
    · rw [Beginning.tokensOfAll_replicate, ← List.replicate_succ, List.replicate_append_replicate]
      rfl
    · rw [List.length_replicate]

end SmallScheme
