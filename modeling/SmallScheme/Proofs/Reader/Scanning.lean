import Mathlib.Data.List.TakeWhile
import SmallScheme.Reader.Token
import SmallScheme.Text.Literal
/-!
# Scanning a written token

A run of symbol characters, a string literal or a parenthesis at the front of a text is scanned as
one token, whatever follows, as long as a symbol is not continued. Conversely a symbol token is such
a run.
-/

namespace SmallScheme

/-- The text is one symbol token, from its first character to its last. -/
def IsSymbolToken (name : String) : Prop :=
  tokenize name.toList 0 = ([⟨.symbol, name⟩], none)

/-- No symbol goes on at the front of the text. -/
def Delimited (text : List Char) : Prop := ∀ char ∈ text.head?, Scan.isSymbolChar char = false

theorem delimited_nil : Delimited [] := by
  rintro char ⟨⟩

theorem delimited_cons {char : Char} (hchar : Scan.isSymbolChar char = false) (rest : List Char) :
    Delimited (char :: rest) := by
  rintro other ⟨⟩
  exact hchar

namespace Scan

theorem isSymbolChar_iff {char : Char} :
    isSymbolChar char ↔ isBlank char = false ∧ char ≠ '(' ∧ char ≠ ')' ∧ char ≠ '\'' ∧
      char ≠ '"' ∧ char ≠ ';' := by
  simp [isSymbolChar, and_assoc]

theorem first_blank {char : Char} (hblank : isBlank char) (rest : List Char) (position : Nat) :
    first (char :: rest) position = first rest (position + 1) := by
  simp only [first, skipGap, hblank, Bool.false_eq_true, ↓reduceIte]

theorem first_of_solid {char : Char} (hblank : isBlank char = false) (hcomment : char ≠ ';')
    (rest : List Char) (position : Nat) :
    first (char :: rest) position = tokenAt char rest position := by
  simp only [first, skipGap, hblank, hcomment, Bool.false_eq_true, ↓reduceIte]

theorem first_openList (rest : List Char) (position : Nat) :
    first ('(' :: rest) position = .token ⟨.openList, "("⟩ rest (position + 1) := rfl

theorem first_closeList (rest : List Char) (position : Nat) :
    first (')' :: rest) position = .token ⟨.closeList, ")"⟩ rest (position + 1) := rfl

theorem takeWhile_isSymbolChar_append {name rest : List Char}
    (hname : ∀ char ∈ name, isSymbolChar char) (hrest : Delimited rest) :
    (name ++ rest).takeWhile isSymbolChar = name := by
  rw [List.takeWhile_append_of_pos hname]
  cases rest with
  | nil => simp
  | cons char rest => simp [hrest char rfl]

theorem dropWhile_isSymbolChar_append {name rest : List Char}
    (hname : ∀ char ∈ name, isSymbolChar char) (hrest : Delimited rest) :
    (name ++ rest).dropWhile isSymbolChar = rest := by
  rw [List.dropWhile_append_of_pos hname]
  cases rest with
  | nil => simp
  | cons char rest => simp [hrest char rfl]

/-- A run of symbol characters is one symbol token. -/
theorem first_symbol {name rest : List Char} (hne : name ≠ [])
    (hname : ∀ char ∈ name, isSymbolChar char) (hrest : Delimited rest) (position : Nat) :
    first (name ++ rest) position =
      .token ⟨.symbol, String.ofList name⟩ rest (position + name.length) := by
  obtain ⟨char, name, rfl⟩ := List.exists_cons_of_ne_nil hne
  rw [List.forall_mem_cons] at hname
  obtain ⟨hblank, hopen, hclose, hquote, hstring, hcomment⟩ := isSymbolChar_iff.1 hname.1
  rw [List.cons_append, first_of_solid hblank hcomment]
  simp only [tokenAt, hopen, hclose, hquote, hstring, ↓reduceIte,
    takeWhile_isSymbolChar_append hname.2 hrest, dropWhile_isSymbolChar_append hname.2 hrest,
    List.length_cons]
  congr 1
  omega

/-- The inside of a string literal is split off at its closing quote. -/
theorem splitString?_flatMap_encodeChar (text rest : List Char) :
    splitString? (text.flatMap Literal.encodeChar ++ '"' :: rest) =
      some (text.flatMap Literal.encodeChar ++ ['"'], rest) := by
  induction text with
  | nil => simp [splitString?]
  | cons char text ih =>
    rw [List.flatMap_cons, List.append_assoc, List.append_assoc, Literal.encodeChar]
    split
    · simp [splitString?, ih]
    · next hplain =>
      obtain ⟨hquote, hescape⟩ := not_or.1 hplain
      split
      · simp [splitString?, ih]
      · split
        · simp [splitString?, ih]
        · split
          · simp [splitString?, ih]
          · rw [List.singleton_append, List.singleton_append,
              splitString?.eq_4 _ _ hquote (fun _ _ h => absurd h hescape), ih]
            rfl

/-- The literal of a text is one string token. -/
theorem first_string (text rest : List Char) (position : Nat) :
    first (Literal.encode text ++ rest) position =
      .token ⟨.string, String.ofList (Literal.encode text)⟩ rest
        (position + (Literal.encode text).length) := by
  have hsplit := splitString?_flatMap_encodeChar text rest
  rw [Literal.encode, List.cons_append, List.append_assoc, List.singleton_append,
    first_of_solid (by decide) (by decide)]
  simp only [tokenAt, hsplit, List.length_cons, Char.reduceEq, ↓reduceIte]
  congr 1
  omega

/-- What the gap before a token ends with is neither blank nor the start of a comment. -/
theorem skipGap_eq_cons {inComment : Bool} {text rest : List Char} {char : Char}
    {position start : Nat} (hskip : skipGap inComment text position = (char :: rest, start)) :
    isBlank char = false ∧ char ≠ ';' := by
  induction text generalizing inComment position with
  | nil => simp [skipGap] at hskip
  | cons head tail ih =>
    rw [skipGap] at hskip
    split at hskip
    · exact ih hskip
    · split at hskip
      · exact ih hskip
      · split at hskip
        · exact ih hskip
        · next hblank hcomment =>
          cases hskip
          exact ⟨Bool.not_eq_true _ ▸ hblank, hcomment⟩

/-- A symbol token is a run of symbol characters. -/
theorem isSymbolChar_of_first {text rest : List Char} {position next : Nat} {name : String}
    (hfirst : first text position = .token ⟨.symbol, name⟩ rest next) :
    name.toList ≠ [] ∧ ∀ char ∈ name.toList, isSymbolChar char := by
  rw [first] at hfirst
  split at hfirst
  · cases hfirst
  · next char tail start hskip =>
    obtain ⟨hblank, hcomment⟩ := skipGap_eq_cons hskip
    rw [tokenAt] at hfirst
    split at hfirst
    · cases hfirst
    · split at hfirst
      · cases hfirst
      · split at hfirst
        · cases hfirst
        · split at hfirst
          · split at hfirst <;> cases hfirst
          · next hquote hopen hclose hstring =>
            cases hfirst
            have hchar := isSymbolChar_iff.2 ⟨hblank, hopen, hclose, hquote, hstring, hcomment⟩
            rw [String.toList_ofList]
            refine ⟨List.cons_ne_nil _ _, List.forall_mem_cons.2 ⟨hchar, ?_⟩⟩
            exact fun other hmem => List.mem_takeWhile_imp hmem

end Scan

theorem tokenize_nil (position : Nat) : tokenize [] position = ([], none) := by
  rw [tokenize]
  split <;> simp_all [Scan.first, Scan.skipGap]

theorem tokenize_of_first {text rest : List Char} {position next : Nat} {token : Token}
    (hfirst : Scan.first text position = .token token rest next) :
    tokenize text position = (token :: (tokenize rest next).1, (tokenize rest next).2) := by
  rw [tokenize]
  split
  · next hother => cases hother.symm.trans hfirst
  · next hother => cases hother.symm.trans hfirst
  · next hother =>
    cases hother.symm.trans hfirst
    rfl

theorem isSymbolToken_iff {name : String} :
    IsSymbolToken name ↔ name.toList ≠ [] ∧ ∀ char ∈ name.toList, Scan.isSymbolChar char := by
  constructor
  · intro htokens
    rw [IsSymbolToken, tokenize] at htokens
    split at htokens
    · cases htokens
    · cases htokens
    · next token rest next hfirst =>
      simp only [Prod.mk.injEq, List.cons.injEq] at htokens
      rw [htokens.1.1] at hfirst
      exact Scan.isSymbolChar_of_first hfirst
  · rintro ⟨hne, hname⟩
    have hfirst := Scan.first_symbol hne hname delimited_nil 0
    rw [List.append_nil, String.ofList_toList] at hfirst
    rw [IsSymbolToken, tokenize_of_first hfirst, tokenize_nil]

end SmallScheme
