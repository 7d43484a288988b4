import SmallScheme.Proofs.Reader.Nesting
import SmallScheme.Proofs.Reader.Pieces
/-!
# Texts that spell forms

A text spells forms if its tokens are theirs wherever it stands. Such texts may be put together,
with a blank between them or a list around them, and the whole spells what its parts do; so a text
that is printed part by part is lexically clean and balanced. A source that spells forms is read as
them.
-/

namespace SmallScheme

/-- Wherever the text stands, as long as no symbol goes on behind it, it falls into the tokens of
the forms, which nest by `depth` levels at most. -/
structure Spells (depth : Nat) (text : List Char) (forms : List Derivation) : Prop where
  nesting : ∀ form ∈ forms, form.datum.nesting ≤ depth
  pieces : ∃ pieces : List Piece, pieces.flatMap Piece.chars = text ∧
    pieces.filterMap Piece.token? = forms.flatMap Derivation.tokens ∧
    ∀ rest, Delimited rest → Piece.AllFit rest pieces

namespace Spells

variable {depth : Nat} {text next : List Char} {forms others : List Derivation}

theorem mono {deeper : Nat} (hspells : Spells depth text forms) (hle : depth ≤ deeper) :
    Spells deeper text forms :=
  ⟨fun form hmem => (hspells.nesting form hmem).trans hle, hspells.pieces⟩

theorem nil : Spells depth [] [] :=
  ⟨fun _ hmem => absurd hmem List.not_mem_nil, [], rfl, rfl, fun _ _ => trivial⟩

/-- A single token that is a form. -/
theorem of_token (token : Token) {form : Derivation} (hform : form.tokens = [token])
    (hnesting : form.datum.nesting = 0)
    (hfits : ∀ rest, Delimited rest → token.Fits rest) :
    Spells depth token.text.toList [form] := by
  refine ⟨List.forall_mem_singleton.2 (hnesting ▸ Nat.zero_le depth), [.token token], ?_, ?_, ?_⟩
  · exact List.flatMap_singleton ..
  · rw [List.flatMap_singleton, hform]
    rfl
  · exact fun rest hrest => ⟨hfits rest hrest, trivial⟩

theorem symbol {name : List Char} (hne : name ≠ [])
    (hname : ∀ char ∈ name, Scan.isSymbolChar char) :
    Spells depth name [.symbol (String.ofList name)] := by
  have hspells : Spells depth (String.ofList name).toList [.symbol (String.ofList name)] := by
    refine of_token ⟨.symbol, String.ofList name⟩ rfl (Datum.nesting_ofAtom _) ?_
    intro rest hrest
    rw [Token.Fits, String.toList_ofList]
    exact ⟨hne, hname, hrest⟩
  rwa [String.toList_ofList] at hspells

theorem string (content : List Char) :
    Spells depth (Literal.encode content) [.string (String.ofList (Literal.encode content))] := by
  have hspells : Spells depth (String.ofList (Literal.encode content)).toList
      [.string (String.ofList (Literal.encode content))] := by
    refine of_token ⟨.string, String.ofList (Literal.encode content)⟩ rfl rfl ?_
    intro rest _
    have hscan := Scan.first_string content rest 0
    rw [Literal.encode, List.cons_append, Scan.first_of_solid (by decide) (by decide)] at hscan
    exact (Scan.fits_of_tokenAt (by decide) (by decide) hscan).2
  rwa [String.toList_ofList] at hspells

/-- Two texts with a blank between them. -/
theorem blank (hspells : Spells depth text forms) (hnext : Spells depth next others) :
    Spells depth (text ++ ' ' :: next) (forms ++ others) := by
  obtain ⟨hforms, pieces, rfl, htokens, hfits⟩ := hspells
  obtain ⟨hothers, more, rfl, hmoreTokens, hmoreFits⟩ := hnext
  refine ⟨List.forall_mem_append.2 ⟨hforms, hothers⟩, pieces ++ .blank ' ' :: more, ?_, ?_, ?_⟩
  · rw [List.flatMap_append, List.flatMap_cons]
    rfl
  · rw [List.filterMap_append, List.flatMap_append, htokens, ← hmoreTokens]
    rfl
  · intro rest hrest
    refine Piece.allFit_append.2 ⟨hfits _ ?_, (by decide : isBlank ' '), hmoreFits rest hrest⟩
    exact delimited_cons (by decide) _

/-- A text in parentheses, with another one directly behind it. -/
theorem list (hspells : Spells depth text forms) (hnext : Spells (depth + 1) next others) :
    Spells (depth + 1) ('(' :: (text ++ ')' :: next)) (.list "(" ")" forms :: others) := by
  obtain ⟨hforms, pieces, rfl, htokens, hfits⟩ := hspells
  obtain ⟨hothers, more, rfl, hmoreTokens, hmoreFits⟩ := hnext
  refine ⟨List.forall_mem_cons.2 ⟨?_, hothers⟩,
    .token ⟨.openList, "("⟩ :: (pieces ++ .token ⟨.closeList, ")"⟩ :: more), ?_, ?_, ?_⟩
  · rw [Derivation.datum_list, Datum.nesting]
    refine Nat.succ_le_succ (Datum.nestingOfAll_le_iff.2 fun datum hmem => ?_)
    obtain ⟨form, hform, rfl⟩ := List.mem_map.1 hmem
    exact hforms form hform
  · rw [List.flatMap_cons, List.flatMap_append, List.flatMap_cons]
    rfl
  · have hall : (Piece.token ⟨.openList, "("⟩ ::
        (pieces ++ .token ⟨.closeList, ")"⟩ :: more)).filterMap Piece.token? =
        ⟨.openList, "("⟩ :: (pieces.filterMap Piece.token? ++
          ⟨.closeList, ")"⟩ :: more.filterMap Piece.token?) :=
      congrArg _ List.filterMap_append
    rw [hall, htokens, hmoreTokens, List.flatMap_cons, Derivation.tokens_list, List.cons_append,
      List.append_assoc, List.singleton_append]
  · intro rest hrest
    refine ⟨rfl, Piece.allFit_append.2 ⟨hfits _ ?_, rfl, hmoreFits rest hrest⟩⟩
    exact delimited_cons (by decide) _

/-- A text in parentheses. -/
theorem parenthesized (hspells : Spells depth text forms) :
    Spells (depth + 1) ('(' :: (text ++ [')'])) [.list "(" ")" forms] :=
  hspells.list nil

/-! ### Reading what is spelled -/

theorem tokenize_eq (hspells : Spells depth text forms) :
    tokenize text 0 = (forms.flatMap Derivation.tokens, none) := by
  obtain ⟨-, pieces, htext, htokens, hfits⟩ := hspells
  have hpartition : Partition text pieces [] :=
    ⟨(List.append_nil _).trans htext, hfits [] delimited_nil, .inl rfl⟩
  rw [tokenize_of_partition hpartition, htokens]
  rfl

variable {limit : Nat}

theorem readAll_eq (hspells : Spells depth text forms) :
    (TokenStream.ofText (String.ofList text)).readAll limit =
      readTokens limit none (forms.flatMap Derivation.tokens) [] := by
  rw [TokenStream.readAll_ofText, String.toList_ofList, hspells.tokenize_eq]
  rfl

/-- A source that spells forms is read as them, within a limit that they nest in. -/
theorem readSource_eq (hspells : Spells depth text forms) (hdepth : depth ≤ limit) :
    readSource limit (String.ofList text) = .ok (forms.map Derivation.datum) := by
  have hnesting : ∀ form ∈ forms, form.datum.nesting ≤ limit :=
    fun form hmem => (hspells.nesting form hmem).trans hdepth
  rw [readSource, hspells.readAll_eq, Derivation.readTokens_of_nesting hnesting]

/-- Whatever the limit, nothing else is wrong with a source that spells forms. -/
theorem readSource_eq_or_tooDeep (hspells : Spells depth text forms) (limit : Nat) :
    readSource limit (String.ofList text) = .ok (forms.map Derivation.datum) ∨
      readSource limit (String.ofList text) = .error .tooDeep := by
  have hread : EqOrTooDeep (readTokens limit none (forms.flatMap Derivation.tokens ++ []) [])
      (forms.map Derivation.datum ++ [], none) := Derivation.readTokens_flatMap_tokens forms []
  rw [List.append_nil, List.append_nil] at hread
  rw [readSource, hspells.readAll_eq]
  rcases hread with hread | hdeep
  · rw [hread]
    exact .inl rfl
  · refine .inr ?_
    split
    · next hnone =>
      rw [hnone] at hdeep
      cases hdeep
    · next hsome =>
      rw [hsome] at hdeep
      cases hdeep
      rfl

end Spells

end SmallScheme
