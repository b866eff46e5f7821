import GoOutline.Grammar.Symbol
import GoOutline.Token.Pattern

/-!
# The lexicon of Go

How each token is spelled, and which of two tokens is meant when both fit.

* `Terminal.pattern`: the spelling of a token.
* `Terminal.isImmediate`: tokens that follow the one before without white space.
* `Terminal.weight`, `Terminal.isPreferredTo`: the order among tokens that fit the same text.
-/

namespace GoOutline.Grammar

open GoOutline.Token Pattern

/-! ### Digits and numbers -/

/-- Digits with single underscores between them. -/
def digitRun (digit : Pattern) : Pattern := seq digit (many (seq (opt (lit "_")) digit))

/-- A decimal digit. -/
def decimalDigit : Pattern := between '0' '9'

/-- An octal digit. -/
def octalDigit : Pattern := between '0' '7'

/-- A hexadecimal digit. -/
def hexDigit : Pattern := choice [between '0' '9', between 'a' 'f', between 'A' 'F']

/-- Decimal digits. -/
def decimalDigits : Pattern := digitRun decimalDigit

/-- Hexadecimal digits. -/
def hexDigits : Pattern := digitRun hexDigit

/-- An integer in any base. -/
def integer : Pattern := choice [
  chain [lit "0", oneOf "bB", opt (lit "_"), digitRun (oneOf "01")],
  lit "0",
  chain [between '1' '9', opt (seq (opt (lit "_")) decimalDigits)],
  chain [lit "0", opt (oneOf "oO"), opt (lit "_"), digitRun octalDigit],
  chain [lit "0", oneOf "xX", opt (lit "_"), hexDigits]]

/-- The exponent after one of the two letters. -/
def exponent (letters : String) : Pattern :=
  chain [oneOf letters, opt (oneOf "+-"), decimalDigits]

/-- A floating-point number. -/
def floatingPoint : Pattern := choice [
  chain [decimalDigits, lit ".", opt decimalDigits, opt (exponent "eE")],
  chain [decimalDigits, exponent "eE"],
  chain [lit ".", decimalDigits, opt (exponent "eE")],
  chain [lit "0", oneOf "xX",
    choice [
      chain [opt (lit "_"), hexDigits, lit ".", opt hexDigits],
      chain [opt (lit "_"), hexDigits],
      chain [lit ".", hexDigits]],
    exponent "pP"]]

/-! ### Characters and strings -/

/-- The escapes of a character literal, after the backslash. -/
def runeEscape : Pattern := choice [
  chain [lit "x", times 2 hexDigit],
  times 3 octalDigit,
  chain [lit "u", times 4 hexDigit],
  chain [lit "U", times 8 hexDigit],
  oneOf "abfnrtv\\'\""]

/-- The escapes of a string, after the backslash. -/
def stringEscape : Pattern := choice [
  noneOf "xuU",
  chain [decimalDigit, decimalDigit, opt decimalDigit],
  chain [lit "x", hexDigit, hexDigit, many hexDigit],
  chain [lit "u", times 4 hexDigit],
  chain [lit "U", times 8 hexDigit]]

/-- A comment to the end of the line, or one that is closed. -/
def commentText : Pattern := choice [
  seq (lit "//") (many (noneOf "\n")),
  chain [lit "/*", many (noneOf "*"), many1 (lit "*"),
    many (chain [noneOf "/*", many (noneOf "*"), many1 (lit "*")]), lit "/"]]

/-! ### The tokens -/

/-- The spelling of a token; the end of the input has none. -/
def Terminal.pattern (t : Terminal) : Pattern :=
  match t.spelling? with
  | some s => lit s
  | none =>
    match t with
    | .lineBreak => lit "\n"
    | .identifier => seq (char .identifierStart) (many (char .identifierPart))
    | .rawText => many (noneOf "`")
    | .quotedText => many1 (noneOf "\"\n\\")
    | .escape => seq (lit "\\") stringEscape
    | .intLiteral => integer
    | .floatLiteral => floatingPoint
    | .imaginaryLiteral => seq (choice [decimalDigits, integer, floatingPoint]) (lit "i")
    | .runeLiteral => chain [lit "'", choice [noneOf "'\\", seq (lit "\\") runeEscape], lit "'"]
    | .comment => commentText
    | _ => .nothing

/-- White space between tokens. -/
def isBlank (c : Char) : Bool := ('\t' ≤ c && c ≤ '\r') || c == ' '

/-- A token of this kind follows the one before it without white space. -/
def Terminal.isImmediate : Terminal → Bool
  | .quotedText | .escape | .closingQuote => true
  | _ => false

/-- The text inside a string outweighs everything else that could be read there. -/
def Terminal.weight : Terminal → Nat
  | .rawText | .quotedText => 1
  | _ => 0

/-- A token that is spelled out is more specific than one with a pattern, and an immediate one more
than one that is not. -/
def Terminal.specificity (t : Terminal) : Nat :=
  (if t.spelling?.isSome then 2 else 0) + (if t.isImmediate then 1 else 0)

/-- Whether the first of two tokens that fit the same text is meant: the heavier, then the more
specific, then the one that the grammar mentions first. -/
def Terminal.isPreferredTo (t u : Terminal) : Bool :=
  if t.weight != u.weight then u.weight < t.weight
  else if t.specificity != u.specificity then u.specificity < t.specificity
  else t.ctorIdx < u.ctorIdx

/-- The pattern of each token, by its number. -/
def patterns : Array Pattern := (Terminal.all.map Terminal.pattern).toArray

end GoOutline.Grammar
