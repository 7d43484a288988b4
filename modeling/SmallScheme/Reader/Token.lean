import SmallScheme.Text.Blank
/-!
# Tokens

Source text is a sequence of tokens with gaps of blanks and comments between them. A token is a
quote mark, a parenthesis, a string literal, or a run of other characters. Only a string literal
that is never closed has no token, so scanning fails nowhere else.
-/

namespace SmallScheme

inductive Token.Kind where
  | symbol | string | quote | openList | closeList
  | other (name : String)
  deriving DecidableEq, Repr

def Token.Kind.name : Token.Kind → String
  | symbol => "symbol"
  | string => "string"
  | quote => "quote"
  | openList => "lparen"
  | closeList => "rparen"
  | other name => name

def Token.Kind.ofName (name : String) : Token.Kind :=
  ([.symbol, .string, .quote, .openList, .closeList].find? fun (kind : Token.Kind) =>
    kind.name == name).getD (.other name)

structure Token where
  kind : Token.Kind
  text : String
  deriving DecidableEq, Repr

inductive Scan where
  | finished
  | token (token : Token) (rest : List Char) (position : Nat)
  | stuck (position : Nat) (char : Char)

namespace Scan

/-- What is left of a text after the gap at its front, and the position where that starts. A comment
runs from a semicolon to the end of its line. -/
def skipGap (inComment : Bool) : List Char → Nat → List Char × Nat
  | [], position => ([], position)
  | char :: rest, position =>
    if inComment then skipGap (char ≠ '\n') rest (position + 1)
    else if isBlank char then skipGap false rest (position + 1)
    else if char = ';' then skipGap true rest (position + 1)
    else (char :: rest, position)

def isSymbolChar (char : Char) : Bool :=
  !(isBlank char || char == '(' || char == ')' || char == '\'' || char == '"' || char == ';')

/-- A string literal's inside and closing quote, and what follows, given the text after its opening
quote. A backslash takes the next character with it. -/
def splitString? : List Char → Option (List Char × List Char)
  | [] => none
  | '"' :: rest => some (['"'], rest)
  | '\\' :: char :: rest =>
    (splitString? rest).map fun (inside, after) => ('\\' :: char :: inside, after)
  | char :: rest => (splitString? rest).map fun (inside, after) => (char :: inside, after)

/-- The token that begins with the given character, which is neither blank nor a semicolon. -/
def tokenAt (char : Char) (rest : List Char) (position : Nat) : Scan :=
  if char = '\'' then .token ⟨.quote, "'"⟩ rest (position + 1)
  else if char = '(' then .token ⟨.openList, "("⟩ rest (position + 1)
  else if char = ')' then .token ⟨.closeList, ")"⟩ rest (position + 1)
  else if char = '"' then
    match splitString? rest with
    | some (inside, after) =>
      .token ⟨.string, String.ofList ('"' :: inside)⟩ after (position + 1 + inside.length)
    | none => .stuck position char
  else
    let more := rest.takeWhile isSymbolChar
    .token ⟨.symbol, String.ofList (char :: more)⟩ (rest.dropWhile isSymbolChar)
      (position + 1 + more.length)

def first (text : List Char) (position : Nat) : Scan :=
  match skipGap false text position with
  | ([], _) => .finished
  | (char :: rest, start) => tokenAt char rest start

theorem length_skipGap_le (inComment : Bool) (text : List Char) (position : Nat) :
    (skipGap inComment text position).1.length ≤ text.length := by
  induction text generalizing inComment position with
  | nil => simp [skipGap]
  | cons char rest hypothesis =>
    have shorter := fun flag => hypothesis flag (position + 1)
    simp only [skipGap, List.length_cons]
    split
    · exact Nat.le_succ_of_le (shorter _)
    · split
      · exact Nat.le_succ_of_le (shorter _)
      · split
        · exact Nat.le_succ_of_le (shorter _)
        · simp

/-- A literal is split, not changed. -/
theorem append_of_splitString? {text inside after : List Char}
    (split : splitString? text = some (inside, after)) : text = inside ++ after := by
  fun_induction splitString? text generalizing inside after with
  | case1 => simp at split
  | case2 rest => simp at split; simp [← split.1, ← split.2]
  | case3 char rest hypothesis =>
    obtain ⟨⟨tail, remainder⟩, found, equal⟩ := Option.map_eq_some_iff.1 split
    simp only [Prod.mk.injEq] at equal
    simp [← equal.1, ← equal.2, hypothesis found]
  | case4 char rest _ _ hypothesis =>
    obtain ⟨⟨tail, remainder⟩, found, equal⟩ := Option.map_eq_some_iff.1 split
    simp only [Prod.mk.injEq] at equal
    simp [← equal.1, ← equal.2, hypothesis found]

theorem length_dropWhile_le (keep : Char → Bool) (text : List Char) :
    (text.dropWhile keep).length ≤ text.length :=
  (List.dropWhile_sublist keep).length_le

theorem length_le_of_tokenAt {char : Char} {text rest : List Char} {position next : Nat}
    {token : Token} (scanned : tokenAt char text position = .token token rest next) :
    rest.length ≤ text.length := by
  unfold tokenAt at scanned
  split at scanned
  · cases scanned; exact Nat.le_refl _
  · split at scanned
    · cases scanned; exact Nat.le_refl _
    · split at scanned
      · cases scanned; exact Nat.le_refl _
      · split at scanned
        · split at scanned
          · next inside after found =>
            cases scanned
            rw [append_of_splitString? found, List.length_append]
            omega
          · cases scanned
        · cases scanned; exact length_dropWhile_le _ _

/-- What follows a token is shorter than the text it was scanned from. -/
theorem length_lt_of_first {text rest : List Char} {position next : Nat} {token : Token}
    (scanned : first text position = .token token rest next) : rest.length < text.length := by
  unfold first at scanned
  have shorter := length_skipGap_le false text position
  split at scanned
  · cases scanned
  · next char tail start skipped =>
    rw [skipped, List.length_cons] at shorter
    have := length_le_of_tokenAt scanned
    omega

end Scan

/-- All tokens of a text from a position on, and the failure that ends them early, if any, as the
position and the character at which it occurs. -/
def tokenize (text : List Char) (position : Nat) : List Token × Option (Nat × Char) :=
  match _ : Scan.first text position with
  | .finished => ([], none)
  | .stuck failure char => ([], some (failure, char))
  | .token token rest next =>
    let (tokens, failure) := tokenize rest next
    (token :: tokens, failure)
termination_by text.length
decreasing_by exact Scan.length_lt_of_first ‹_›

end SmallScheme
