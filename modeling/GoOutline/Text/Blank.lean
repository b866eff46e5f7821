/-!
# White space

The characters that count as white space in text that is not source code.

* `isWhite`: the white space of Unicode.
* `trim`: a text without white space at either end.
-/

namespace GoOutline.Text

/-- White space: the characters with the property `White_Space`. -/
def isWhite (c : Char) : Bool :=
  ('\t' ≤ c && c ≤ '\r') || c == ' ' || c == '\u0085' || c == '\u00a0' || c == '\u1680'
    || ('\u2000' ≤ c && c ≤ '\u200a') || c == '\u2028' || c == '\u2029' || c == '\u202f'
    || c == '\u205f' || c == '\u3000'

/-- A text without white space at its end. -/
def trimEnd (cs : List Char) : List Char := (cs.reverse.dropWhile isWhite).reverse

/-- A text without white space at either end. -/
def trim (cs : List Char) : List Char := trimEnd (cs.dropWhile isWhite)

end GoOutline.Text
