import SmallScheme.Proofs.Reader.Scanning
import SmallScheme.Proofs.Reader.StringLiteral
import SmallScheme.Proofs.Reader.Tokens
/-!
# The pieces of a text

A text falls into blanks, comments and tokens, one after the other, in one way only. Where a token
ends is a property of the characters themselves: a string literal ends at the first double quote
behind an even number of backslashes, and a symbol where its characters do. Scanning gives just
these tokens, and it is stuck nowhere but at a double quote without such a partner.
-/

namespace SmallScheme

/-! ### Pieces -/

/-- A part of a text that is not divided further. -/
inductive Piece where
  | blank (char : Char)
  | comment (body : List Char)
  | token (token : Token)

/-- The token is written as its kind requires, and ends before the text that follows it. -/
def Token.Fits (token : Token) (following : List Char) : Prop :=
  match token.kind with
  | .symbol => token.text.toList ≠ [] ∧
      (∀ char ∈ token.text.toList, Scan.isSymbolChar char) ∧ Delimited following
  | .string => ∃ body, token.text.toList = '"' :: (body ++ ['"']) ∧ Unclosed body ∧
      ClosesBehind body
  | .quote => token.text = "'"
  | .openList => token.text = "("
  | .closeList => token.text = ")"
  | .other _ => False

namespace Token.Fits

variable {token : Token} {following other : List Char}

/-- Where a token ends does not depend on what follows it, as long as a symbol does not go on. -/
theorem before (hfits : token.Fits other)
    (hfollowing : token.kind = .symbol → Delimited following) : token.Fits following := by
  obtain ⟨kind, text⟩ := token
  cases kind with
  | symbol =>
    obtain ⟨hne, hname, -⟩ := hfits
    exact ⟨hne, hname, hfollowing rfl⟩
  | _ => exact hfits

theorem delimited (hfits : token.Fits following) (hkind : token.kind = .symbol) :
    Delimited following := by
  obtain ⟨kind, text⟩ := token
  cases hkind
  exact hfits.2.2

end Token.Fits

namespace Piece

def chars : Piece → List Char
  | blank char => [char]
  | comment body => ';' :: body
  | token lexeme => lexeme.text.toList

def token? : Piece → Option Token
  | token lexeme => some lexeme
  | _ => none

/-- The piece is written as its kind requires, and ends before the text that follows it. -/
def Fits (following : List Char) : Piece → Prop
  | blank char => isBlank char
  | comment body => '\n' ∉ body ∧ ∀ char ∈ following.head?, char = '\n'
  | token lexeme => lexeme.Fits following

/-- Every one of the pieces fits before the next ones and the rest of the text. -/
def AllFit (rest : List Char) : List Piece → Prop
  | [] => True
  | piece :: pieces => piece.Fits (pieces.flatMap chars ++ rest) ∧ AllFit rest pieces

/-- The piece at the front of a text, and what follows it. -/
def next? : List Char → Option (Piece × List Char)
  | [] => none
  | char :: rest =>
    if isBlank char then some (blank char, rest)
    else if char = ';' then
      some (comment (rest.takeWhile (· ≠ '\n')), rest.dropWhile (· ≠ '\n'))
    else match Scan.tokenAt char rest 0 with
      | .token lexeme after _ => some (token lexeme, after)
      | _ => none

end Piece

namespace Scan

variable {char : Char} {rest after : List Char} {token : Token} {position next : Nat}

/-- A token that fits is scanned from its first character on. -/
theorem exists_tokenAt_of_fits (hfits : token.Fits after) :
    ∃ char more, token.text.toList = char :: more ∧ isBlank char = false ∧ char ≠ ';' ∧
      ∀ position, tokenAt char (more ++ after) position =
        .token token after (position + token.text.toList.length) := by
  obtain ⟨kind, text⟩ := token
  have htext : text = String.ofList text.toList := String.ofList_toList.symm
  cases kind with
  | symbol =>
    obtain ⟨hne, hname, hdelimited⟩ := hfits
    obtain ⟨char, name, hsplit⟩ := List.exists_cons_of_ne_nil hne
    simp only [hsplit, List.forall_mem_cons] at hname htext ⊢
    obtain ⟨hblank, hopen, hclose, hquote, hstring, hcomment⟩ := isSymbolChar_iff.1 hname.1
    refine ⟨char, name, rfl, hblank, hcomment, fun position => ?_⟩
    rw [htext, ← first_of_solid hblank hcomment, ← List.cons_append]
    exact first_symbol (List.cons_ne_nil _ _) (List.forall_mem_cons.2 hname) hdelimited position
  | string =>
    obtain ⟨body, hsplit, hunclosed, hcloses⟩ := hfits
    simp only [hsplit] at htext ⊢
    refine ⟨'"', body ++ ['"'], rfl, by decide, by decide, fun position => ?_⟩
    rw [List.append_assoc, List.singleton_append]
    simp only [tokenAt, splitString?_of_closes hunclosed hcloses, Char.reduceEq, ↓reduceIte,
      htext, List.length_cons]
    congr 1
    omega
  | quote =>
    obtain rfl : text = _ := hfits
    exact ⟨'\'', [], rfl, by decide, by decide, fun position => rfl⟩
  | openList =>
    obtain rfl : text = _ := hfits
    exact ⟨'(', [], rfl, by decide, by decide, fun position => rfl⟩
  | closeList =>
    obtain rfl : text = _ := hfits
    exact ⟨')', [], rfl, by decide, by decide, fun position => rfl⟩
  | other name => exact hfits.elim

theorem fits_string {inside : List Char} (hsplit : splitString? rest = some (inside, after)) :
    '"' :: rest = '"' :: inside ++ after ∧
      Token.Fits ⟨.string, String.ofList ('"' :: inside)⟩ after := by
  have hspec := splitString?_spec rest
  rw [hsplit] at hspec
  obtain ⟨body, rfl, rfl, hbody⟩ := hspec
  refine ⟨?_, body, String.toList_ofList, hbody⟩
  rw [List.cons_append, List.append_assoc, List.singleton_append]

theorem fits_symbol (hchar : isSymbolChar char) (rest : List Char) :
    char :: rest = char :: rest.takeWhile isSymbolChar ++ rest.dropWhile isSymbolChar ∧
      Token.Fits ⟨.symbol, String.ofList (char :: rest.takeWhile isSymbolChar)⟩
        (rest.dropWhile isSymbolChar) := by
  refine ⟨?_, ?_, ?_, fun other hhead => ?_⟩
  · rw [List.cons_append, List.takeWhile_append_dropWhile]
  · rw [String.toList_ofList]
    exact List.cons_ne_nil _ _
  · rw [String.toList_ofList]
    exact List.forall_mem_cons.2 ⟨hchar, fun other hmem => List.mem_takeWhile_imp hmem⟩
  · have hnot := List.head?_dropWhile_not isSymbolChar rest
    rw [Option.mem_def.1 hhead] at hnot
    exact hnot

/-- A token that is scanned fits. -/
theorem fits_of_tokenAt (hblank : isBlank char = false) (hcomment : char ≠ ';')
    (hscan : tokenAt char rest position = .token token after next) :
    char :: rest = token.text.toList ++ after ∧ token.Fits after := by
  rw [tokenAt] at hscan
  split at hscan
  · next hquote =>
    cases hscan
    exact ⟨by rw [hquote]; rfl, rfl⟩
  · next hquote =>
    split at hscan
    · next hopen =>
      cases hscan
      exact ⟨by rw [hopen]; rfl, rfl⟩
    · next hopen =>
      split at hscan
      · next hclose =>
        cases hscan
        exact ⟨by rw [hclose]; rfl, rfl⟩
      · next hclose =>
        split at hscan
        · next hstring =>
          split at hscan
          · next hsplit =>
            cases hscan
            rw [hstring, String.toList_ofList]
            exact fits_string hsplit
          · cases hscan
        · next hstring =>
          cases hscan
          rw [String.toList_ofList]
          exact fits_symbol
            (isSymbolChar_iff.2 ⟨hblank, hopen, hclose, hquote, hstring, hcomment⟩) rest

/-- Nothing but a string literal that is not closed is no token. -/
theorem unclosed_of_tokenAt (hscan : ∀ token after next,
    tokenAt char rest position ≠ .token token after next) :
    char = '"' ∧ Unclosed rest := by
  simp only [tokenAt] at hscan
  split at hscan
  · exact absurd rfl (hscan _ _ _)
  · split at hscan
    · exact absurd rfl (hscan _ _ _)
    · split at hscan
      · exact absurd rfl (hscan _ _ _)
      · split at hscan
        · next hstring =>
          refine ⟨hstring, ?_⟩
          have hspec := splitString?_spec rest
          cases hsplit : splitString? rest with
          | none =>
            rw [hsplit] at hspec
            exact hspec
          | some parts =>
            rw [hsplit] at hscan
            exact absurd rfl (hscan _ _ _)
        · exact absurd rfl (hscan _ _ _)

end Scan

namespace Piece

variable {piece : Piece} {text rest : List Char}

theorem next?_of_fits (hfits : piece.Fits rest) :
    next? (piece.chars ++ rest) = some (piece, rest) := by
  cases piece with
  | blank char => exact if_pos hfits
  | comment body =>
    obtain ⟨hbody, hrest⟩ := hfits
    have hline : ∀ char ∈ body, decide (char ≠ '\n') := by
      intro char hmem
      exact decide_eq_true fun hchar => hbody (hchar ▸ hmem)
    have hend : rest.takeWhile (· ≠ '\n') = [] ∧ rest.dropWhile (· ≠ '\n') = rest := by
      cases rest with
      | nil => exact ⟨rfl, rfl⟩
      | cons char rest => simp [hrest char rfl]
    rw [chars, List.cons_append, next?, if_neg (by decide), if_pos rfl,
      List.takeWhile_append_of_pos hline, List.dropWhile_append_of_pos hline, hend.1, hend.2,
      List.append_nil]
  | token lexeme =>
    obtain ⟨char, more, htext, hblank, hcomment, hscan⟩ := Scan.exists_tokenAt_of_fits hfits
    rw [chars, htext, List.cons_append, next?, if_neg (by rw [hblank]; exact Bool.false_ne_true),
      if_neg hcomment, hscan]

theorem fits_of_next? (hnext : next? text = some (piece, rest)) :
    text = piece.chars ++ rest ∧ piece.Fits rest := by
  cases text with
  | nil => cases hnext
  | cons char text =>
    rw [next?] at hnext
    split at hnext
    · next hblank =>
      cases hnext
      exact ⟨rfl, hblank⟩
    · next hblank =>
      split at hnext
      · next hcomment =>
        cases hnext
        refine ⟨?_, fun hmem => by simpa using List.mem_takeWhile_imp hmem, fun other hhead => ?_⟩
        · rw [chars, List.cons_append, List.takeWhile_append_dropWhile, hcomment]
        · have hnot := List.head?_dropWhile_not (fun char => decide (char ≠ '\n')) text
          rw [Option.mem_def.1 hhead] at hnot
          simpa using hnot
      · next hcomment =>
        split at hnext
        · next hscan =>
          cases hnext
          exact Scan.fits_of_tokenAt (Bool.not_eq_true _ ▸ hblank) hcomment hscan
        · cases hnext

/-- A text without a piece at its front is empty or begins with a string literal that is not
closed. -/
theorem stops_of_next? (hnext : next? text = none) :
    text = [] ∨ ∃ inside, text = '"' :: inside ∧ Unclosed inside := by
  cases text with
  | nil => exact .inl rfl
  | cons char text =>
    rw [next?] at hnext
    split at hnext
    · cases hnext
    · split at hnext
      · cases hnext
      · split at hnext
        · cases hnext
        · next hscan =>
          obtain ⟨rfl, hunclosed⟩ := Scan.unclosed_of_tokenAt hscan
          exact .inr ⟨text, rfl, hunclosed⟩

theorem next?_of_unclosed {inside : List Char} (hunclosed : Unclosed inside) :
    next? ('"' :: inside) = none := by
  have hscan : Scan.tokenAt '"' inside 0 = .stuck 0 '"' := by
    simp only [Scan.tokenAt, Scan.splitString?_of_unclosed hunclosed, Char.reduceEq, ↓reduceIte]
  rw [next?, if_neg (by decide), if_neg (by decide), hscan]

theorem chars_ne_nil (hfits : piece.Fits rest) : piece.chars ≠ [] := by
  cases piece with
  | blank char => exact List.cons_ne_nil _ _
  | comment body => exact List.cons_ne_nil _ _
  | token lexeme =>
    obtain ⟨char, more, htext, -⟩ := Scan.exists_tokenAt_of_fits hfits
    rw [chars, htext]
    exact List.cons_ne_nil _ _

theorem allFit_append {pieces others : List Piece} :
    AllFit rest (pieces ++ others) ↔
      AllFit (others.flatMap chars ++ rest) pieces ∧ AllFit rest others := by
  induction pieces with
  | nil => simp [AllFit]
  | cons piece pieces ih =>
    rw [List.cons_append, AllFit, AllFit, ih, List.flatMap_append, List.append_assoc, and_assoc]

theorem AllFit.exists_fits {pieces : List Piece} (hfits : AllFit rest pieces)
    (hmem : piece ∈ pieces) : ∃ following, piece.Fits following := by
  obtain ⟨front, back, rfl⟩ := List.append_of_mem hmem
  exact ⟨_, (allFit_append.1 hfits).2.1⟩

theorem Fits.append_newline {following : List Char} (hfits : piece.Fits following)
    (other : List Char) : piece.Fits (following ++ '\n' :: other) := by
  have hhead : ∀ char ∈ (following ++ '\n' :: other).head?,
      char ∈ following.head? ∨ char = '\n' := by
    cases following with
    | nil =>
      rintro char ⟨⟩
      exact .inr rfl
    | cons first following =>
      rintro char ⟨⟩
      exact .inl rfl
  cases piece with
  | blank char => exact hfits
  | comment body => exact ⟨hfits.1, fun char hmem => (hhead char hmem).elim (hfits.2 char) id⟩
  | token lexeme =>
    refine Token.Fits.before hfits fun hkind char hmem => ?_
    rcases hhead char hmem with hmem | rfl
    · exact Token.Fits.delimited hfits hkind char hmem
    · decide

theorem AllFit.append_newline {pieces : List Piece} (hfits : AllFit [] pieces)
    (other : List Char) : AllFit ('\n' :: other) pieces := by
  induction pieces with
  | nil => trivial
  | cons piece pieces ih =>
    obtain ⟨hpiece, hrest⟩ := hfits
    rw [List.append_nil] at hpiece
    exact ⟨hpiece.append_newline other, ih hrest⟩

/-- A piece before which a symbol cannot begin ends with no symbol character. -/
theorem not_isSymbolChar_of_fits {char : Char} {more : List Char}
    (hfits : piece.Fits (char :: more)) (hchar : Scan.isSymbolChar char) :
    ∀ last ∈ piece.chars.getLast?, Scan.isSymbolChar last = false := by
  cases piece with
  | blank char =>
    rintro last ⟨⟩
    simp [Scan.isSymbolChar, show isBlank char from hfits]
  | comment body =>
    obtain rfl := hfits.2 char rfl
    exact absurd hchar (by decide)
  | token lexeme =>
    obtain ⟨kind, text⟩ := lexeme
    intro last hlast
    cases kind with
    | symbol =>
      rw [hfits.2.2 char rfl] at hchar
      cases hchar
    | string =>
      obtain ⟨body, htext, -⟩ := hfits
      rw [chars, htext, ← List.cons_append, List.getLast?_concat] at hlast
      cases hlast
      rfl
    | quote =>
      obtain rfl : text = _ := hfits
      cases hlast
      rfl
    | openList =>
      obtain rfl : text = _ := hfits
      cases hlast
      rfl
    | closeList =>
      obtain rfl : text = _ := hfits
      cases hlast
      rfl
    | other name => exact hfits.elim

end Piece

/-! ### Partitions -/

/-- The pieces are those of the text, up to its end or else up to the double quote of a string
literal that is not closed. -/
structure Partition (text : List Char) (pieces : List Piece) (rest : List Char) : Prop where
  append_eq : pieces.flatMap Piece.chars ++ rest = text
  fits : Piece.AllFit rest pieces
  stops : rest = [] ∨ ∃ inside, rest = '"' :: inside ∧ Unclosed inside

namespace Partition

variable {text rest : List Char} {piece : Piece} {pieces : List Piece}

theorem cons_iff : Partition text (piece :: pieces) rest ↔
    ∃ following, text = piece.chars ++ following ∧ piece.Fits following ∧
      Partition following pieces rest := by
  constructor
  · rintro ⟨happend, ⟨hfits, hrest⟩, hstops⟩
    rw [List.flatMap_cons, List.append_assoc] at happend
    exact ⟨_, happend.symm, hfits, rfl, hrest, hstops⟩
  · rintro ⟨following, rfl, hfits, rfl, hrest, hstops⟩
    exact ⟨by rw [List.flatMap_cons, List.append_assoc], ⟨hfits, hrest⟩, hstops⟩

theorem exists_of_text (text : List Char) : ∃ pieces rest, Partition text pieces rest := by
  cases hnext : Piece.next? text with
  | none => exact ⟨[], text, rfl, trivial, Piece.stops_of_next? hnext⟩
  | some front =>
    obtain ⟨piece, following⟩ := front
    obtain ⟨happend, hfits⟩ := Piece.fits_of_next? hnext
    have hshorter : following.length < text.length := by
      have hpiece := List.length_pos_iff.2 (Piece.chars_ne_nil hfits)
      rw [happend, List.length_append]
      omega
    obtain ⟨pieces, rest, hpartition⟩ := exists_of_text following
    exact ⟨piece :: pieces, rest, cons_iff.2 ⟨following, happend, hfits, hpartition⟩⟩
termination_by text.length

theorem next?_of_nil (hpartition : Partition text [] rest) :
    text = rest ∧ Piece.next? text = none := by
  obtain ⟨rfl, -, rfl | ⟨inside, rfl, hunclosed⟩⟩ := hpartition
  · exact ⟨rfl, rfl⟩
  · exact ⟨rfl, Piece.next?_of_unclosed hunclosed⟩

/-- A text has one partition only. -/
theorem unique {others : List Piece} {remainder : List Char}
    (hpartition : Partition text pieces rest) (hother : Partition text others remainder) :
    others = pieces ∧ remainder = rest := by
  induction pieces generalizing text others with
  | nil =>
    obtain ⟨rfl, hnext⟩ := next?_of_nil hpartition
    cases others with
    | nil => exact ⟨rfl, (next?_of_nil hother).1.symm⟩
    | cons other others =>
      obtain ⟨following, rfl, hfits, -⟩ := cons_iff.1 hother
      rw [Piece.next?_of_fits hfits] at hnext
      cases hnext
  | cons piece pieces ih =>
    obtain ⟨following, rfl, hfits, hfollowing⟩ := cons_iff.1 hpartition
    have hnext := Piece.next?_of_fits hfits
    cases others with
    | nil =>
      rw [(next?_of_nil hother).2] at hnext
      cases hnext
    | cons other others =>
      obtain ⟨tail, happend, hotherFits, htail⟩ := cons_iff.1 hother
      rw [happend, Piece.next?_of_fits hotherFits] at hnext
      cases hnext
      obtain ⟨rfl, rfl⟩ := ih hfollowing htail
      exact ⟨rfl, rfl⟩

/-- The text behind a whole one, on the next line, has the pieces that it has alone. -/
theorem append_newline {other : List Char} {others : List Piece}
    (hpartition : Partition text pieces []) (hother : Partition other others rest) :
    Partition (text ++ '\n' :: other) (pieces ++ .blank '\n' :: others) rest := by
  obtain ⟨happend, hfits, -⟩ := hpartition
  obtain ⟨hotherAppend, hotherFits, hstops⟩ := hother
  rw [List.append_nil] at happend
  refine ⟨?_, Piece.allFit_append.2 ⟨hfits.append_newline _, rfl, hotherFits⟩, hstops⟩
  rw [List.flatMap_append, List.flatMap_cons, List.append_assoc, List.append_assoc,
    hotherAppend, happend]
  rfl

/-- What stands before a symbol is no part of it. -/
theorem not_isSymbolChar_of_mem_getLast? {front back : List Piece} {name : String}
    (hpartition : Partition text (front ++ .token ⟨.symbol, name⟩ :: back) rest) :
    ∀ char ∈ (front.flatMap Piece.chars).getLast?, Scan.isSymbolChar char = false := by
  rcases List.eq_nil_or_concat front with rfl | ⟨front, piece, rfl⟩
  · rintro char ⟨⟩
  · rw [List.concat_eq_append, List.append_assoc, List.singleton_append] at hpartition
    obtain ⟨hpiece, ⟨hne, hname, -⟩, -⟩ := (Piece.allFit_append.1 hpartition.fits).2
    obtain ⟨first, more, hsplit⟩ := List.exists_cons_of_ne_nil hne
    rw [List.flatMap_cons, Piece.chars] at hpiece
    simp only [hsplit, List.cons_append] at hpiece hname
    rw [List.concat_eq_append, List.flatMap_append, List.flatMap_singleton,
      List.getLast?_append_of_ne_nil _ (Piece.chars_ne_nil hpiece)]
    exact Piece.not_isSymbolChar_of_fits hpiece (hname first List.mem_cons_self)

end Partition

namespace Scan

/-- A comment is left out to its end, where the next line begins. -/
theorem skipGap_comment {body following : List Char} (hbody : '\n' ∉ body)
    (hfollowing : ∀ char ∈ following.head?, char = '\n') (position : Nat) :
    skipGap true (body ++ following) position =
      skipGap false following (position + body.length) := by
  induction body generalizing position with
  | nil =>
    cases following with
    | nil => rfl
    | cons char following =>
      obtain rfl := hfollowing char rfl
      rfl
  | cons char body ih =>
    rw [List.mem_cons, not_or] at hbody
    rw [List.cons_append, skipGap, if_pos rfl, decide_eq_true (Ne.symm hbody.1), ih hbody.2,
      List.length_cons]
    congr 1
    omega

theorem first_comment {body following : List Char} (hbody : '\n' ∉ body)
    (hfollowing : ∀ char ∈ following.head?, char = '\n') (position : Nat) :
    first (';' :: (body ++ following)) position =
      first following (position + (';' :: body).length) := by
  have hskip : skipGap false (';' :: (body ++ following)) position =
      skipGap true (body ++ following) (position + 1) := rfl
  rw [first, first, hskip, skipGap_comment hbody hfollowing, List.length_cons, Nat.add_assoc,
    Nat.add_comm 1]

theorem first_of_unclosed {inside : List Char} (hunclosed : Unclosed inside) (position : Nat) :
    first ('"' :: inside) position = .stuck position '"' := by
  rw [first_of_solid (by decide) (by decide)]
  simp only [tokenAt, splitString?_of_unclosed hunclosed, Char.reduceEq, ↓reduceIte]

end Scan

theorem tokenize_eq (text : List Char) (position : Nat) :
    tokenize text position =
      match Scan.first text position with
      | .finished => ([], none)
      | .stuck place char => ([], some (place, char))
      | .token token rest next =>
        (token :: (tokenize rest next).1, (tokenize rest next).2) := by
  rw [tokenize]
  split <;> next hfirst => rw [hfirst]

theorem tokenize_congr {text other : List Char} {position place : Nat}
    (hfirst : Scan.first text position = Scan.first other place) :
    tokenize text position = tokenize other place := by
  rw [tokenize_eq, hfirst, ← tokenize_eq]

/-- The tokens among the pieces are those that are scanned, and only at what the pieces leave over
is scanning stuck. -/
theorem tokenize_of_partition {text rest : List Char} {pieces : List Piece}
    (hpartition : Partition text pieces rest) (position : Nat) :
    tokenize text position = (pieces.filterMap Piece.token?,
      rest.head?.map fun char => (position + (pieces.flatMap Piece.chars).length, char)) := by
  induction pieces generalizing text position with
  | nil =>
    obtain ⟨rfl, -, rfl | ⟨inside, rfl, hunclosed⟩⟩ := hpartition
    · exact tokenize_nil position
    · exact (tokenize_eq _ _).trans (by rw [List.flatMap_nil, List.nil_append,
        Scan.first_of_unclosed hunclosed]; rfl)
  | cons piece pieces ih =>
    obtain ⟨following, rfl, hfits, hfollowing⟩ := Partition.cons_iff.1 hpartition
    rw [List.flatMap_cons, List.length_append, ← Nat.add_assoc]
    cases piece with
    | blank char =>
      have hfirst := Scan.first_blank hfits following position
      exact (tokenize_congr hfirst).trans (ih hfollowing _)
    | comment body =>
      have hfirst := Scan.first_comment hfits.1 hfits.2 position
      exact (tokenize_congr hfirst).trans (ih hfollowing _)
    | token lexeme =>
      obtain ⟨char, more, htext, hblank, hcomment, hscan⟩ := Scan.exists_tokenAt_of_fits hfits
      have hfirst := hscan position
      rw [← Scan.first_of_solid hblank hcomment, ← List.cons_append, ← htext] at hfirst
      rw [Piece.chars, tokenize_of_first hfirst, ih hfollowing]
      rfl

/-- A token that is scanned is written as its kind requires. -/
theorem exists_fits_of_mem_tokenize {text : List Char} {position : Nat} {token : Token}
    (hmem : token ∈ (tokenize text position).1) : ∃ following, token.Fits following := by
  obtain ⟨pieces, rest, hpartition⟩ := Partition.exists_of_text text
  rw [tokenize_of_partition hpartition, List.mem_filterMap] at hmem
  obtain ⟨piece, hpiece, htoken⟩ := hmem
  cases piece with
  | token lexeme =>
    cases htoken
    exact hpartition.fits.exists_fits hpiece
  | _ => cases htoken

theorem Fault.report_unexpectedChar_quote (position : Nat) :
    (unexpectedChar position '"').report =
      "SableSyntaxError: Unexpected char at " ++ toString position ++ ": '\"'" := by
  have hreport : (unexpectedChar position '"').report =
      "SableSyntaxError" ++ ": " ++ ("Unexpected char at " ++ toString position ++ ": " ++
        quotedText (String.singleton '"')) := rfl
  have hquoted : quotedText (String.singleton '"') = "'\"'" := by decide
  have hfront : "SableSyntaxError" ++ ": " ++ "Unexpected char at " =
      "SableSyntaxError: Unexpected char at " := by decide
  have hback : ": " ++ "'\"'" = ": '\"'" := by decide
  rw [hreport, hquoted, ← hfront, ← hback]
  simp only [String.append_assoc]

/-- Every text falls into blanks, comments and tokens in exactly one way, up to its end or else up
to the first double quote in front of all this that opens a string literal and has no closing
partner. The tokens are scanned in order, and then there is a fault only in the second case, which
names the position of that double quote. -/
theorem exists_partition_of_text (text : String) :
    ∃ pieces rest, Partition text.toList pieces rest ∧
      (∀ others remainder, Partition text.toList others remainder →
        others = pieces ∧ remainder = rest) ∧
      (∀ front name back, pieces = front ++ .token ⟨.symbol, name⟩ :: back →
        ∀ char ∈ (front.flatMap Piece.chars).getLast?, Scan.isSymbolChar char = false) ∧
      ∃ ending, (TokenStream.ofText text).feed.Gives (pieces.filterMap Piece.token?) ending ∧
        (rest = [] → ending = none) ∧
        (rest ≠ [] → ∃ fault, ending = some fault ∧
          fault.report = "SableSyntaxError: Unexpected char at " ++
            toString (pieces.flatMap Piece.chars).length ++ ": '\"'") := by
  obtain ⟨pieces, rest, hpartition⟩ := Partition.exists_of_text text.toList
  have hgives := Feed.gives_source text.toList 0
  rw [tokenize_of_partition hpartition] at hgives
  refine ⟨pieces, rest, hpartition, fun _ _ => hpartition.unique, ?_, _, hgives, ?_, ?_⟩
  · rintro front name back rfl
    exact hpartition.not_isSymbolChar_of_mem_getLast?
  · rintro rfl
    rfl
  · intro hrest
    obtain hnil | ⟨inside, rfl, -⟩ := hpartition.stops
    · exact absurd hnil hrest
    · refine ⟨_, rfl, ?_⟩
      rw [Fault.report_unexpectedChar_quote, Nat.zero_add]

end SmallScheme
