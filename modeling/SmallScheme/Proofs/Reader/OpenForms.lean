import SmallScheme.Proofs.Reader.Acceptance
import SmallScheme.Proofs.Reader.Nesting
/-!
# How far a form goes

The tokens that may be the beginning of a form, one at least being missing, are those of forms that
are still open. While a form is read, reading goes on as long as the tokens are such a beginning.
The tokens that it takes are therefore determined: the fewest at the front with which it cannot go
on, if there are any. They are a form then, or the last one of them can have no place there. Only
where forms are open one inside the other up to the limit, a list or quote that starts inside of
them is given up.
-/

namespace SmallScheme

/-- Some form begins with the tokens and has more. -/
def IsOpen (tokens : List Token) : Prop :=
  ∃ (form : Derivation) (more : List Token), more ≠ [] ∧ form.tokens = tokens ++ more

/-- The token is refused where no form goes on with it. -/
inductive Token.IsRefusedWith : Token → Fault → Prop where
  | close (closing : String) : IsRefusedWith ⟨.closeList, closing⟩ .unexpectedClose
  | unknown (name text : String) : IsRefusedWith ⟨.other name, text⟩ (.unknownToken name text)

namespace Derivation

mutual

theorem kind_ne_other (form : Derivation) :
    ∀ token ∈ form.tokens, ∀ name, token.kind ≠ .other name := by
  cases form with
  | symbol text => simp [tokens]
  | string text => simp [tokens]
  | quoted mark form =>
    have hform := kind_ne_other form
    simpa [tokens] using hform
  | list opening closing forms =>
    have hforms := kind_ne_other_of_all forms
    simp only [tokens, List.forall_mem_cons, List.forall_mem_append]
    exact ⟨by simp, hforms, by simp, fun _ hmem => absurd hmem List.not_mem_nil⟩

theorem kind_ne_other_of_all (forms : List Derivation) :
    ∀ token ∈ tokensOfAll forms, ∀ name, token.kind ≠ .other name := by
  cases forms with
  | nil => simp [tokensOfAll]
  | cons form rest =>
    rw [tokensOfAll, List.forall_mem_append]
    exact ⟨kind_ne_other form, kind_ne_other_of_all rest⟩

end

end Derivation

section

variable {tokens more : List Token}

theorem IsOpen.of_append (hopen : IsOpen (tokens ++ more)) : IsOpen tokens := by
  obtain ⟨form, rest, hrest, htokens⟩ := hopen
  exact ⟨form, more ++ rest, List.append_ne_nil_of_right_ne_nil more hrest,
    htokens.trans (List.append_assoc ..)⟩

theorem not_isOpen_of_tokens_append (form : Derivation) (rest : List Token) :
    ¬ IsOpen (form.tokens ++ rest) := by
  rintro ⟨other, more, hmore, htokens⟩
  rw [List.append_assoc] at htokens
  have hfirst : other.tokens ++ [] = form.tokens ++ (rest ++ more) :=
    (List.append_nil _).trans htokens
  obtain ⟨-, hnil⟩ := Derivation.tokens_append_inj other form hfirst
  exact hmore (List.append_eq_nil_iff.1 hnil.symm).2

/-! ### The tokens that settle it -/

/-- The tokens are the fewest at the front of a sequence with which reading cannot go on. -/
def Settles (tokens : List Token) : Prop :=
  ∃ front last, tokens = front ++ [last] ∧ IsOpen front ∧ ¬ IsOpen tokens

/-- What the tokens are with which reading cannot go on: a form, or a beginning of one and a token
that goes on with none. -/
inductive Verdict (tokens : List Token) : Except Interrupt Datum → Prop where
  | form (form : Derivation) (htokens : form.tokens = tokens) : Verdict tokens (.ok form.datum)
  | refused (front : List Token) (last : Token) (fault : Fault) (htokens : tokens = front ++ [last])
    (hfault : last.IsRefusedWith fault)
    (hnone : ∀ (form : Derivation) (more : List Token), form.tokens ≠ tokens ++ more) :
    Verdict tokens (.error (.fault fault))

theorem Token.IsRefusedWith.unique {token : Token} {fault other : Fault}
    (hfault : token.IsRefusedWith fault) (hother : token.IsRefusedWith other) : fault = other := by
  cases hfault <;> cases hother <;> rfl

theorem Settles.ne_nil (hsettles : Settles tokens) : tokens ≠ [] := by
  obtain ⟨front, last, rfl, -, -⟩ := hsettles
  exact List.append_ne_nil_of_right_ne_nil front (List.cons_ne_nil _ _)

theorem Derivation.settles (form : Derivation) : Settles form.tokens := by
  obtain ⟨front, last, htokens, -⟩ := form.exists_tokens_eq_concat
  have hstops : ¬ IsOpen form.tokens := by
    have hwhole := not_isOpen_of_tokens_append form []
    rwa [List.append_nil] at hwhole
  exact ⟨front, last, htokens, ⟨form, [last], List.cons_ne_nil _ _, htokens⟩, hstops⟩

/-- Reading cannot go on behind the tokens either. -/
theorem Settles.not_isOpen (hsettles : Settles tokens) (more : List Token) :
    ¬ IsOpen (tokens ++ more) := by
  obtain ⟨-, -, -, -, hstops⟩ := hsettles
  exact fun hopen => hstops hopen.of_append

theorem Settles.eq_of_append {others rest remainder : List Token} (hsettles : Settles tokens)
    (hothers : Settles others) (heq : tokens ++ rest = others ++ remainder) :
    tokens = others ∧ rest = remainder := by
  -- a shorter one of the two would be part of the front of the other
  have hshorter : ∀ {tokens others rest remainder : List Token}, Settles tokens →
      Settles others → ∀ between, others = tokens ++ between →
        rest = between ++ remainder → tokens = others ∧ rest = remainder := by
    rintro tokens others rest remainder hsettles ⟨front, last, rfl, hopen, -⟩ between hbetween rfl
    rcases List.eq_nil_or_concat between with rfl | ⟨between, final, rfl⟩
    · exact ⟨(hbetween.trans (List.append_nil _)).symm, rfl⟩
    · rw [List.concat_eq_append, ← List.append_assoc] at hbetween
      rw [List.append_inj_left' hbetween rfl] at hopen
      exact absurd hopen (hsettles.not_isOpen between)
  rcases List.append_eq_append_iff.1 heq with
    ⟨between, hothers', hrest⟩ | ⟨between, htokens, hremainder⟩
  · exact hshorter hsettles hothers between hothers' hrest
  · obtain ⟨htokens, hrest⟩ := hshorter hothers hsettles between htokens hremainder
    exact ⟨htokens.symm, hrest.symm⟩

theorem Verdict.unique {outcome other : Except Interrupt Datum}
    (hverdict : Verdict tokens outcome) (hother : Verdict tokens other) : outcome = other := by
  cases hverdict with
  | form form htokens =>
    cases hother with
    | form other hothers =>
      have heq : form.tokens ++ [] = other.tokens ++ [] := by rw [htokens, hothers]
      rw [(Derivation.tokens_append_inj form other heq).1]
    | refused front last fault _ _ hnone =>
      exact absurd (htokens.trans (List.append_nil tokens).symm) (hnone form [])
  | refused front last fault htokens hfault hnone =>
    cases hother with
    | form other hothers =>
      exact absurd (hothers.trans (List.append_nil tokens).symm) (hnone other [])
    | refused front' last' fault' htokens' hfault' =>
      cases List.singleton_inj.1 (List.append_inj_right' (htokens.symm.trans htokens') rfl)
      rw [hfault.unique hfault']

/-! ### How reading gets there -/

/-- Beginnings of forms are open: there is a form that goes on with any form inside of them. -/
theorem Beginning.exists_form (opened : List Beginning) (form : Derivation) :
    ∃ (whole : Derivation) (more : List Token),
      whole.tokens = tokensOfAll opened ++ (form.tokens ++ more) := by
  induction opened generalizing form with
  | nil => exact ⟨form, [], (List.append_nil _).symm⟩
  | cons inner outer ih =>
    cases inner with
    | quote mark =>
      obtain ⟨whole, more, htokens⟩ := ih (.quoted mark form)
      refine ⟨whole, more, htokens.trans ?_⟩
      simp only [Derivation.tokens, tokensOfAll, tokens, List.append_assoc, List.cons_append,
        List.nil_append]
    | list opening forms =>
      obtain ⟨whole, more, htokens⟩ := ih (.list opening ")" (forms ++ [form]))
      refine ⟨whole, ⟨.closeList, ")"⟩ :: more, htokens.trans ?_⟩
      simp only [Derivation.tokens_list, tokensOfAll, tokens, List.flatMap_append,
        List.flatMap_singleton, List.append_assoc, List.cons_append, List.nil_append]

theorem isOpen_tokensOfAll (opened : List Beginning) : IsOpen (Beginning.tokensOfAll opened) := by
  obtain ⟨whole, more, htokens⟩ := Beginning.exists_form opened (.symbol "x")
  exact ⟨whole, _, List.cons_ne_nil _ _, htokens⟩

/-- No form goes on with a closing parenthesis that closes no list. -/
theorem Beginning.tokens_ne_of_refusesClose (opened : List Beginning)
    (hopened : Beginning.RefusesClose opened) (closing : String) (form : Derivation)
    (more : List Token) :
    form.tokens ≠ Beginning.tokensOfAll opened ++ ⟨.closeList, closing⟩ :: more := by
  intro htokens
  -- the form is read as deep as it nests, so the parenthesis would be read as well
  have hform : readTokens form.datum.nesting none ([form].flatMap Derivation.tokens) [] =
      ([form.datum], none) :=
    Derivation.readTokens_of_nesting (List.forall_mem_singleton.2 (Nat.le_refl _))
  have hstray : (readTokens form.datum.nesting none
        (tokensOfAll opened ++ ⟨.closeList, closing⟩ :: more) []).2 =
          some (.fault .unexpectedClose) ∨
      (readTokens form.datum.nesting none
        (tokensOfAll opened ++ ⟨.closeList, closing⟩ :: more) []).2 = some .tooDeep :=
    readTokens_of_refusesClose [] hopened closing more
  rw [List.flatMap_singleton, htokens] at hform
  rw [hform] at hstray
  rcases hstray with hclose | hdeep
  · cases hclose
  · cases hdeep

theorem Beginning.not_endsWithQuote_list (opening : String) (forms : List Derivation)
    (outer : List Beginning) :
    ¬ EndsWithQuote (Beginning.tokensOfAll (.list opening forms :: outer)) := by
  intro hends
  have hopened : EndsWithQuote (([] : List Derivation).flatMap Derivation.tokens ++
      Beginning.tokensOfAll (.list opening forms :: outer)) := hends
  obtain ⟨_, _, hother⟩ := Beginning.exists_quote_of_endsWithQuote hopened
  cases hother

/-- What the next token is to the beginnings of forms that are open. -/
inductive Beginning.Meets (limit : Nat) (opened : List Beginning) (token : Token) :
    ReadStep → Prop where
  | goesOn (still : List Beginning)
    (htokens : Beginning.tokensOfAll opened ++ [token] = Beginning.tokensOfAll still) :
    Meets limit opened token (.proceed (still.map Beginning.enclosure))
  | complete (datum : Datum) (hsettles : Settles (tokensOfAll opened ++ [token]))
    (hverdict : Verdict (tokensOfAll opened ++ [token]) (.ok datum)) :
    Meets limit opened token (.complete datum)
  | refused (fault : Fault) (hsettles : Settles (tokensOfAll opened ++ [token]))
    (hverdict : Verdict (tokensOfAll opened ++ [token]) (.error (.fault fault))) :
    Meets limit opened token (.failed (.fault fault))
  | tooDeep (hstart : token.kind = .quote ∨ token.kind = .openList)
    (hdeep : limit ≤ opened.length) : Meets limit opened token (.failed .tooDeep)

namespace Beginning

variable {limit : Nat} {opened : List Beginning} {token : Token}

/-- A token behind which a form is complete inside of the beginnings. -/
theorem meets_afterDatum (form : Derivation) (outer : List Beginning)
    (htokens : tokensOfAll opened ++ [token] = tokensOfAll outer ++ form.tokens) :
    Meets limit opened token (ReadStep.afterDatum form.datum (outer.map enclosure)) := by
  rcases exists_of_afterDatum form outer with
    ⟨whole, hcomplete, hwhole⟩ | ⟨still, hproceed, hstill⟩
  · rw [hcomplete]
    exact .complete whole.datum (htokens.trans hwhole ▸ whole.settles)
      (.form whole (htokens.trans hwhole).symm)
  · rw [hproceed]
    exact .goesOn still (htokens.trans hstill)

theorem meets_refuse {fault : Fault} (hfault : token.IsRefusedWith fault)
    (hnone : ∀ (form : Derivation) (more : List Token),
      form.tokens ≠ (tokensOfAll opened ++ [token]) ++ more) :
    Meets limit opened token (.failed (.fault fault)) := by
  have hstops : ¬ IsOpen (tokensOfAll opened ++ [token]) :=
    fun ⟨form, more, _, htokens⟩ => hnone form more htokens
  exact .refused fault ⟨_, token, rfl, isOpen_tokensOfAll opened, hstops⟩
    (.refused _ token fault rfl hfault hnone)

/-- A list or a quote starts inside of the beginnings. -/
theorem meets_enter (inner : Beginning) (htokens : inner.tokens = [token])
    (hstart : token.kind = .quote ∨ token.kind = .openList) :
    Meets limit opened token
      (ReadStep.enter limit inner.enclosure (opened.map enclosure)) := by
  rw [ReadStep.enter, List.length_map]
  split
  · next hfull => exact .tooDeep hstart hfull
  · refine .goesOn (inner :: opened) ?_
    rw [tokensOfAll, htokens]

/-- A token that comes next completes a form, is one token more of its beginning, or settles that
there is none, unless it is given up. -/
theorem meets (limit : Nat) (opened : List Beginning) (token : Token) :
    Meets limit opened token (ReadStep.ofToken limit (opened.map enclosure) token) := by
  obtain ⟨kind, text⟩ := token
  cases kind with
  | symbol => exact meets_afterDatum (.symbol text) opened rfl
  | string => exact meets_afterDatum (.string text) opened rfl
  | quote => exact meets_enter (.quote text) rfl (.inl rfl)
  | openList => exact meets_enter (.list text []) rfl (.inr rfl)
  | closeList =>
    match opened with
    | [] =>
      refine meets_refuse (.close text) fun form more => ?_
      exact tokens_ne_of_refusesClose [] trivial text form more
    | .quote mark :: outer =>
      refine meets_refuse (.close text) fun form more => ?_
      rw [List.append_assoc]
      exact tokens_ne_of_refusesClose (.quote mark :: outer) trivial text form more
    | .list opening forms :: outer =>
      have hlist : ReadStep.ofToken limit ((list opening forms :: outer).map enclosure)
          ⟨.closeList, text⟩ =
          ReadStep.afterDatum (Derivation.list opening text forms).datum (outer.map enclosure) := by
        simp only [ReadStep.ofToken, List.map_cons, enclosure, List.reverse_reverse,
          Derivation.datum_list]
      rw [hlist]
      refine meets_afterDatum (.list opening text forms) outer ?_
      simp only [tokensOfAll, tokens, Derivation.tokens_list, List.append_assoc, List.cons_append]
  | other name =>
    refine meets_refuse (.unknown name text) fun form more htokens => ?_
    have hmem : ⟨.other name, text⟩ ∈ form.tokens := by
      rw [htokens, List.append_assoc]
      exact List.mem_append_right _ List.mem_cons_self
    exact form.kind_ne_other _ hmem name rfl

end Beginning

end

end SmallScheme
