import SmallScheme.Proofs.Reader.Pieces
/-!
# String literals in a text

The literal written for a text is scanned as one token, whatever stands behind it, and is read as
that text. In a string token an escape begins at every backslash with an even number of backslashes
before it. There is always a character behind it that it escapes, and that is never the double
quote at the end, so the token can be written anew from the text that it stands for.
-/

namespace SmallScheme

/-! ### Escapes -/

section

variable {char : Char} {front rest : List Char}

/-- A backslash that escapes nothing is not where a literal could end. -/
theorem ClosesBehind.ne_backslash (hcloses : ClosesBehind (char :: rest))
    (hescape : ∀ next more, char = '\\' → rest = next :: more → False) : char ≠ '\\' := by
  rintro rfl
  cases rest with
  | nil => exact not_closesBehind_backslash hcloses
  | cons next more => exact hescape next more rfl rfl

/-- Escapes are counted anew behind each place where the literal could end. -/
theorem closesBehind_append (hfront : ClosesBehind front) (back : List Char) :
    ClosesBehind (front ++ back) ↔ ClosesBehind back := by
  -- reading the front goes over its escapes one by one
  fun_induction Literal.decodeBody front with
  | case1 char rest ih => exact closesBehind_escape.trans (ih (closesBehind_escape.1 hfront))
  | case2 char rest hescape ih =>
    have hchar := hfront.ne_backslash hescape
    exact (closesBehind_cons hchar).trans (ih ((closesBehind_cons hchar).1 hfront))
  | case3 => rfl

theorem Literal.decodeBody_append (hfront : ClosesBehind front) (back : List Char) :
    decodeBody (front ++ back) = decodeBody front ++ decodeBody back := by
  fun_induction decodeBody front with
  | case1 char rest ih =>
    rw [List.cons_append, List.cons_append, decodeBody, ih (closesBehind_escape.1 hfront),
      List.cons_append]
  | case2 char rest hescape ih =>
    have hchar := hfront.ne_backslash hescape
    rw [List.cons_append, decodeBody.eq_2 _ _ fun _ _ h => absurd h hchar,
      ih ((closesBehind_cons hchar).1 hfront), List.cons_append]
  | case3 => rfl

/-- What begins an escape in a string literal is not its last character. -/
theorem exists_escaped {back : List Char} (hcloses : ClosesBehind (front ++ '\\' :: back))
    (hfront : ClosesBehind front) :
    ∃ char after, back = char :: after ∧ Literal.decodeBody (front ++ '\\' :: back) =
      Literal.decodeBody front ++ Literal.unescape char :: Literal.decodeBody after := by
  cases back with
  | nil => exact absurd ((closesBehind_append hfront _).1 hcloses) not_closesBehind_backslash
  | cons char after => exact ⟨char, after, rfl, Literal.decodeBody_append hfront _⟩

end

/-! ### Tokens -/

/-- What is written for a text is one token in front of the tokens of what follows. -/
theorem tokenize_encode_append (text rest : List Char) (position : Nat) :
    tokenize (Literal.encode text ++ rest) position =
      (⟨.string, String.ofList (Literal.encode text)⟩ ::
          (tokenize rest (position + (Literal.encode text).length)).1,
        (tokenize rest (position + (Literal.encode text).length)).2) :=
  tokenize_of_first (Scan.first_string text rest position)

theorem tokenize_encode (text : List Char) (position : Nat) :
    tokenize (Literal.encode text) position =
      ([⟨.string, String.ofList (Literal.encode text)⟩], none) := by
  have htokens := tokenize_encode_append text [] position
  rw [List.append_nil, tokenize_nil] at htokens
  exact htokens

/-- The literal of a text is one string token whatever follows it, and stands for the text. In every
string token of any source each backslash that begins an escape has a character behind it inside of
the double quotes, the one that it escapes. Written anew from the text it stands for, the token is
one string token again and stands for the same. -/
theorem string_tokens_of_tokenize :
    (∀ (text rest : List Char) (position : Nat),
      tokenize (Literal.encode text ++ rest) position =
          (⟨.string, String.ofList (Literal.encode text)⟩ ::
              (tokenize rest (position + (Literal.encode text).length)).1,
            (tokenize rest (position + (Literal.encode text).length)).2) ∧
        Literal.decode (Literal.encode text) = text) ∧
      ∀ (source : List Char) (position : Nat), ∀ token ∈ (tokenize source position).1,
        token.kind = .string →
          (∃ body, token.text.toList = '"' :: (body ++ ['"']) ∧
            ∀ front back, body = front ++ '\\' :: back → ClosesBehind front →
              ∃ char after, back = char :: after ∧ Literal.decode token.text.toList =
                Literal.decodeBody front ++ Literal.unescape char :: Literal.decodeBody after) ∧
          (∀ place, tokenize (Literal.encode (Literal.decode token.text.toList)) place =
            ([⟨.string, String.ofList (Literal.encode (Literal.decode token.text.toList))⟩],
              none)) ∧
          Literal.decode (Literal.encode (Literal.decode token.text.toList)) =
            Literal.decode token.text.toList := by
  refine ⟨fun text rest position => ⟨tokenize_encode_append text rest position,
    Literal.decode_encode text⟩, ?_⟩
  rintro source position ⟨kind, text⟩ hmem rfl
  obtain ⟨following, body, htext, -, hcloses⟩ := exists_fits_of_mem_tokenize hmem
  have hdecode : Literal.decode text.toList = Literal.decodeBody body := by
    rw [htext, Literal.decode, List.tail_cons, List.dropLast_concat]
  refine ⟨⟨body, htext, ?_⟩, tokenize_encode _, Literal.decode_encode _⟩
  rintro front back rfl hfront
  rw [hdecode]
  exact exists_escaped hcloses hfront

/-- Of three backslashes the first escapes the second and the third escapes the double quote behind
it, and so the literal goes on to the next double quote. -/
theorem string_tokens_of_backslashes :
    let source := ['"', '\\', '\\', '\\', '"', ';', '"', ')']
    let token : Token := ⟨.string, "\"\\\\\\\";\""⟩
    tokenize source 0 = ([token, ⟨.closeList, ")"⟩], none) ∧
      Literal.decode token.text.toList = ['\\', '"', ';'] ∧
      (∃ char after, ['"', ';'] = char :: after ∧ Literal.decode token.text.toList =
        Literal.decodeBody ['\\', '\\'] ++ Literal.unescape char :: Literal.decodeBody after) ∧
      tokenize (Literal.encode ['\\', '"', ';']) 0 = ([token], none) := by
  intro source token
  have htokens : tokenize source 0 = ([token, ⟨.closeList, ")"⟩], none) := by
    have hliteral : Scan.first source 0 = .token token [')'] 7 := rfl
    rw [tokenize_of_first hliteral, tokenize_of_first (Scan.first_closeList [] 7), tokenize_nil]
  have hdecode : Literal.decode token.text.toList = ['\\', '"', ';'] := by decide
  obtain ⟨⟨body, htext, hescapes⟩, hagain, -⟩ :=
    string_tokens_of_tokenize.2 source 0 token (by rw [htokens]; exact List.mem_cons_self) rfl
  have hbody : body = ['\\', '\\'] ++ '\\' :: ['"', ';'] := by
    have hsource : token.text.toList = '"' :: (['\\', '\\'] ++ '\\' :: ['"', ';'] ++ ['"']) := by
      decide
    rw [hsource] at htext
    exact List.append_cancel_right (List.cons.inj htext).2.symm
  rw [hdecode] at hagain
  refine ⟨htokens, hdecode, hescapes _ _ hbody ?_, hagain 0⟩
  rw [closesBehind_escape]
  exact closesBehind_nil

end SmallScheme
