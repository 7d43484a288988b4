/-!
# Blank characters

The characters that separate tokens: the controls from tab to carriage return and from the file
separator to the unit separator, and every space and line or paragraph separator of the character
standard.
-/

namespace SmallScheme

/-- The character stands between tokens and belongs to none. -/
def isBlank (char : Char) : Bool :=
  let code := char.toNat
  (0x09 ≤ code && code ≤ 0x0d) || (0x1c ≤ code && code ≤ 0x20) || code == 0x85 || code == 0xa0
    || code == 0x1680 || (0x2000 ≤ code && code ≤ 0x200a) || code == 0x2028 || code == 0x2029
    || code == 0x202f || code == 0x205f || code == 0x3000

def trimBlank (text : List Char) : List Char :=
  ((text.dropWhile isBlank).reverse.dropWhile isBlank).reverse

end SmallScheme
