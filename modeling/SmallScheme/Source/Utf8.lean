/-!
# Decoding text

Files hold text in the encoding of one to four bytes per character. Decoding is strict: the shortest
form is required, surrogates are refused, and the first defect ends it.
-/

namespace SmallScheme

namespace Utf8

inductive Defect where
  | startByte
  | continuationByte
  | endOfData
  deriving DecidableEq, Repr

def Defect.message : Defect → String
  | startByte => "invalid start byte"
  | continuationByte => "invalid continuation byte"
  | endOfData => "unexpected end of data"

/-- How a character goes on after its first byte: how many bytes follow, what the first byte gives
to the code, and the range of the second byte. -/
structure Lead where
  following : Nat
  value : Nat
  least : Nat
  greatest : Nat

/-- What a first byte announces, if it can begin a character. The range of the second byte keeps out
long forms, surrogates and codes beyond the last character. -/
def lead? (byte : Nat) : Option Lead :=
  if byte < 0x80 then some ⟨0, byte, 0x80, 0xbf⟩
  else if byte < 0xc2 then none
  else if byte < 0xe0 then some ⟨1, byte - 0xc0, 0x80, 0xbf⟩
  else if byte < 0xf0 then
    some ⟨2, byte - 0xe0, if byte = 0xe0 then 0xa0 else 0x80, if byte = 0xed then 0x9f else 0xbf⟩
  else if byte < 0xf5 then
    some ⟨3, byte - 0xf0, if byte = 0xf0 then 0x90 else 0x80, if byte = 0xf4 then 0x8f else 0xbf⟩
  else none

/-- Decode bytes, given the lead of the character they continue, if they continue one. -/
def decodeFrom : Option Lead → List Nat → Except Defect (List Char)
  | none, [] => .ok []
  | some _, [] => .error .endOfData
  | none, byte :: rest =>
    match lead? byte with
    | none => .error .startByte
    | some ⟨0, value, _, _⟩ => (decodeFrom none rest).map (Char.ofNat value :: ·)
    | some lead => decodeFrom (some lead) rest
  | some lead, byte :: rest =>
    if byte < lead.least || lead.greatest < byte then .error .continuationByte
    else
      let value := lead.value * 64 + (byte - 0x80)
      if lead.following ≤ 1 then (decodeFrom none rest).map (Char.ofNat value :: ·)
      else decodeFrom (some ⟨lead.following - 1, value, 0x80, 0xbf⟩) rest

def decode (bytes : List UInt8) : Except Defect (List Char) :=
  decodeFrom none (bytes.map UInt8.toNat)

end Utf8

/-- Every line ending as a single line feed. -/
def unifyLineEnds : List Char → List Char
  | '\r' :: '\n' :: rest => '\n' :: unifyLineEnds rest
  | '\r' :: rest => '\n' :: unifyLineEnds rest
  | char :: rest => char :: unifyLineEnds rest
  | [] => []

end SmallScheme
