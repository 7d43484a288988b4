/-!
# String literals

A string in source text stands between double quotes. A backslash and the character after it stand
for one character: a line feed, a tab or a carriage return for `n`, `t` and `r`, and otherwise the
character itself. `encode` writes such a literal and `decode` reads one.
-/

namespace SmallScheme

namespace Literal

def unescape (char : Char) : Char :=
  if char = 'n' then '\n' else if char = 't' then '\t' else if char = 'r' then '\r' else char

def encodeChar (char : Char) : List Char :=
  if char = '"' ∨ char = '\\' then ['\\', char]
  else if char = '\n' then ['\\', 'n']
  else if char = '\t' then ['\\', 't']
  else if char = '\r' then ['\\', 'r']
  else [char]

def encode (text : List Char) : List Char := '"' :: (text.flatMap encodeChar ++ ['"'])

/-- The text of a literal's inside; a backslash at the very end stands for itself. -/
def decodeBody : List Char → List Char
  | '\\' :: char :: rest => unescape char :: decodeBody rest
  | char :: rest => char :: decodeBody rest
  | [] => []

def decode (literal : List Char) : List Char := decodeBody literal.tail.dropLast

theorem decodeBody_encodeChar_append (char : Char) (rest : List Char) :
    decodeBody (encodeChar char ++ rest) = char :: decodeBody rest := by
  unfold encodeChar
  split
  · next special => rcases special with rfl | rfl <;> simp [decodeBody, unescape]
  · next plain =>
    split
    · next line => subst line; simp [decodeBody, unescape]
    · split
      · next tab => subst tab; simp [decodeBody, unescape]
      · split
        · next carriage => subst carriage; simp [decodeBody, unescape]
        · rw [List.singleton_append, decodeBody]
          rintro other tail rfl
          exact absurd (Or.inr rfl) plain

theorem decodeBody_flatMap_encodeChar (text : List Char) :
    decodeBody (text.flatMap encodeChar) = text := by
  induction text with
  | nil => rfl
  | cons char rest hypothesis =>
    rw [List.flatMap_cons, decodeBody_encodeChar_append, hypothesis]

/-- Every text is read back from its literal. -/
theorem decode_encode (text : List Char) : decode (encode text) = text := by
  simp [decode, encode, decodeBody_flatMap_encodeChar]

end Literal

end SmallScheme
