import SmallScheme.Text.Printable
/-!
# Quoted text in diagnostics

Diagnostics show a text between quotation marks, single ones unless only double ones avoid an
escape, with every character that is not printable written by its code.
-/

namespace SmallScheme

/-- The quotation mark for a text: a double one if the text has single ones and no double one. -/
def quotationMark (text : List Char) : Char :=
  if text.contains '\'' && !text.contains '"' then '"' else '\''

def hexDigit (digit : Nat) : Char :=
  if digit < 10 then Char.ofNat (0x30 + digit) else Char.ofNat (0x61 + (digit - 10))

def hexDigits : Nat → Nat → List Char
  | 0, _ => []
  | width + 1, code => hexDigits width (code / 16) ++ [hexDigit (code % 16)]

def quotedChar (mark char : Char) : List Char :=
  if char = mark ∨ char = '\\' then ['\\', char]
  else if char = '\n' then ['\\', 'n']
  else if char = '\r' then ['\\', 'r']
  else if char = '\t' then ['\\', 't']
  else if isPrintable char then [char]
  else if char.toNat < 0x100 then '\\' :: 'x' :: hexDigits 2 char.toNat
  else if char.toNat < 0x10000 then '\\' :: 'u' :: hexDigits 4 char.toNat
  else '\\' :: 'U' :: hexDigits 8 char.toNat

def quotedChars (text : List Char) : List Char :=
  let mark := quotationMark text
  mark :: (text.flatMap (quotedChar mark) ++ [mark])

def quotedText (text : String) : String := String.ofList (quotedChars text.toList)

end SmallScheme
