import Mathlib.Data.List.Chain
import SmallScheme.Proofs.Reader.Pieces
/-!
# Tokens written apart

The tokens of a text are scanned again from any text in which they stand in the same order with
blanks and comments around them. Every token but a symbol says itself where it ends, and so only two
symbols need anything between them.
-/

namespace SmallScheme

/-- Blanks and comments, each comment with the end of its line. -/
inductive IsSeparator : List Char → Prop
  | nil : IsSeparator []
  | blank {char : Char} {rest : List Char} (hblank : isBlank char) (hrest : IsSeparator rest) :
      IsSeparator (char :: rest)
  | comment {body rest : List Char} (hbody : '\n' ∉ body) (hrest : IsSeparator rest) :
      IsSeparator (';' :: (body ++ '\n' :: rest))

/-- A token with what stands between it and the token before it. -/
structure SpacedToken where
  gap : List Char
  token : Token

def SpacedToken.chars (part : SpacedToken) : List Char := part.gap ++ part.token.text.toList

/-- Something stands between the tokens if both are symbols. -/
def SpacedToken.Apart (left right : SpacedToken) : Prop :=
  left.token.kind = .symbol → right.token.kind = .symbol → right.gap ≠ []

/-! ### What may follow a token -/

section

variable {token : Token} {gap following other : List Char}

theorem Token.Fits.delimited_append (hfits : token.Fits other) (hkind : token.kind ≠ .symbol)
    (following : List Char) : Delimited (token.text.toList ++ following) := by
  obtain ⟨kind, text⟩ := token
  cases kind with
  | symbol => exact absurd rfl hkind
  | string =>
    obtain ⟨body, htext, -⟩ := hfits
    rw [htext]
    exact delimited_cons rfl _
  | quote | openList | closeList =>
    obtain rfl : text = _ := hfits
    exact delimited_cons rfl _
  | other name => exact hfits.elim

theorem IsSeparator.delimited_append (hgap : IsSeparator gap)
    (hfollowing : gap = [] → Delimited following) : Delimited (gap ++ following) := by
  cases hgap with
  | nil => exact hfollowing rfl
  | blank hblank => exact delimited_cons (by simp [Scan.isSymbolChar, hblank]) _
  | comment => exact delimited_cons rfl _

/-- A separator has no token, and falls into the same pieces before any text. -/
theorem IsSeparator.exists_pieces (hgap : IsSeparator gap) :
    ∃ pieces, pieces.flatMap Piece.chars = gap ∧ pieces.filterMap Piece.token? = [] ∧
      ∀ rest, Piece.AllFit rest pieces := by
  induction hgap with
  | nil => exact ⟨[], rfl, rfl, fun _ => trivial⟩
  | @blank char rest hblank _ ih =>
    obtain ⟨pieces, rfl, hnone, hfits⟩ := ih
    exact ⟨.blank char :: pieces, rfl, hnone, fun rest => ⟨hblank, hfits rest⟩⟩
  | @comment body rest hbody _ ih =>
    obtain ⟨pieces, rfl, hnone, hfits⟩ := ih
    refine ⟨.comment body :: .blank '\n' :: pieces, ?_, hnone, fun rest =>
      ⟨⟨hbody, ?_⟩, rfl, hfits rest⟩⟩
    · simp [Piece.chars]
    · rintro char ⟨⟩
      rfl

end

/-! ### Writing the tokens -/

section

variable {parts : List SpacedToken} {ending : List Char}

/-- A symbol does not go on behind its end if it stands apart from the next token. -/
theorem delimited_flatMap {part : SpacedToken}
    (hfits : ∀ part ∈ parts, ∃ following, part.token.Fits following)
    (hgaps : ∀ part ∈ parts, IsSeparator part.gap) (hending : IsSeparator ending)
    (hapart : (part :: parts).IsChain SpacedToken.Apart) (hkind : part.token.kind = .symbol) :
    Delimited (parts.flatMap SpacedToken.chars ++ ending) := by
  cases parts with
  | nil =>
    rw [List.flatMap_nil, List.nil_append, ← List.append_nil ending]
    exact hending.delimited_append fun _ => delimited_nil
  | cons next parts =>
    rw [List.forall_mem_cons] at hfits hgaps
    obtain ⟨following, hnext⟩ := hfits.1
    rw [List.flatMap_cons, SpacedToken.chars, List.append_assoc, List.append_assoc]
    refine hgaps.1.delimited_append fun hgap => hnext.delimited_append (fun hsymbol => ?_) _
    exact (List.isChain_cons_cons.1 hapart).1 hkind hsymbol hgap

theorem exists_partition_of_spaced
    (hfits : ∀ part ∈ parts, ∃ following, part.token.Fits following)
    (hgaps : ∀ part ∈ parts, IsSeparator part.gap) (hending : IsSeparator ending)
    (hapart : parts.IsChain SpacedToken.Apart) :
    ∃ pieces, Partition (parts.flatMap SpacedToken.chars ++ ending) pieces [] ∧
      pieces.filterMap Piece.token? = parts.map SpacedToken.token := by
  induction parts with
  | nil =>
    obtain ⟨pieces, rfl, hnone, hpieces⟩ := hending.exists_pieces
    exact ⟨pieces, ⟨List.append_nil _, hpieces [], .inl rfl⟩, hnone⟩
  | cons part parts ih =>
    -- a token fits before the text of the later parts, of which the pieces are known
    have hdelimited := fun hkind => delimited_flatMap (List.forall_mem_cons.1 hfits).2
      (List.forall_mem_cons.1 hgaps).2 hending hapart hkind
    rw [List.forall_mem_cons] at hfits hgaps
    obtain ⟨pieces, ⟨happend, hpieces, hstops⟩, htokens⟩ := ih hfits.2 hgaps.2 hapart.tail
    obtain ⟨gap, hgap, hnone, hgapFits⟩ := hgaps.1.exists_pieces
    obtain ⟨following, htoken⟩ := hfits.1
    refine ⟨gap ++ .token part.token :: pieces, ⟨?_, ?_, hstops⟩, ?_⟩
    · rw [List.flatMap_append, List.flatMap_cons, List.append_assoc, List.append_assoc, happend,
        hgap, List.flatMap_cons, SpacedToken.chars, List.append_assoc, List.append_assoc]
      rfl
    · rw [Piece.allFit_append]
      refine ⟨hgapFits _, ?_, hpieces⟩
      rw [happend]
      exact htoken.before hdelimited
    · rw [List.filterMap_append, hnone, List.nil_append, List.filterMap_cons, htokens]
      rfl

/-- The tokens of a text, written in their order with any blanks and comments around them, are
scanned as just these tokens, if only something stands between any two symbols that come one after
the other. -/
theorem tokenize_of_spaced {text : List Char} {position : Nat}
    (htokens : parts.map SpacedToken.token = (tokenize text position).1)
    (hgaps : ∀ part ∈ parts, IsSeparator part.gap) (hending : IsSeparator ending)
    (hapart : parts.IsChain SpacedToken.Apart) (place : Nat) :
    tokenize (parts.flatMap SpacedToken.chars ++ ending) place =
      ((tokenize text position).1, none) := by
  have hfits : ∀ part ∈ parts, ∃ following, part.token.Fits following := fun part hmem =>
    exists_fits_of_mem_tokenize (htokens ▸ List.mem_map_of_mem hmem)
  obtain ⟨pieces, hpartition, hpieces⟩ := exists_partition_of_spaced hfits hgaps hending hapart
  rw [tokenize_of_partition hpartition, hpieces, htokens]
  rfl

end

/-- A comment keeps two symbols apart, and a string with what looks like a comment needs nothing
around it. -/
theorem tokenize_of_spaced_symbols :
    let tokens : List Token := [⟨.symbol, "a"⟩, ⟨.symbol, "b"⟩, ⟨.string, "\"(;\n\""⟩]
    tokenize "a b \"(;\n\"".toList 0 = (tokens, none) ∧
      tokenize "a;(\nb\"(;\n\" ".toList 0 = (tokens, none) := by
  intro tokens
  have htokens : tokenize "a b \"(;\n\"".toList 0 = (tokens, none) := by
    have hfirst : Scan.first "a b \"(;\n\"".toList 0 =
        .token ⟨.symbol, "a"⟩ " b \"(;\n\"".toList 1 := rfl
    have hsecond : Scan.first " b \"(;\n\"".toList 1 =
        .token ⟨.symbol, "b"⟩ " \"(;\n\"".toList 3 := rfl
    have hthird : Scan.first " \"(;\n\"".toList 3 = .token ⟨.string, "\"(;\n\""⟩ [] 9 := rfl
    rw [tokenize_of_first hfirst, tokenize_of_first hsecond, tokenize_of_first hthird,
      tokenize_nil]
  have hcomment : IsSeparator [';', '(', '\n'] := .comment (show '\n' ∉ ['('] by decide) .nil
  have hending : IsSeparator [' '] := .blank rfl .nil
  let parts : List SpacedToken := [⟨[], ⟨.symbol, "a"⟩⟩, ⟨[';', '(', '\n'], ⟨.symbol, "b"⟩⟩,
    ⟨[], ⟨.string, "\"(;\n\""⟩⟩]
  have hparts : parts.map SpacedToken.token = (tokenize "a b \"(;\n\"".toList 0).1 := by
    rw [htokens]
    rfl
  have hgaps : ∀ part ∈ parts, IsSeparator part.gap := by simp [parts, hcomment, IsSeparator.nil]
  have hapart : parts.IsChain SpacedToken.Apart := by simp [parts, SpacedToken.Apart]
  have hspaced := tokenize_of_spaced hparts hgaps hending hapart 0
  rw [htokens] at hspaced
  exact ⟨htokens, hspaced⟩

end SmallScheme
