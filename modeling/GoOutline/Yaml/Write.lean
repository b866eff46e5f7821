import GoOutline.Yaml.Cursor
import GoOutline.Yaml.Lookalike

/-!
# Writing YAML

* `isPrintable`: the characters that need not be escaped.
* `allowsPlain`, `allowsSingle`, `allowsLiteral`: the styles in which a text can be written.
* `styleOf`: the style in which a text is written.
* `writeField`: a mapping with one field.
-/

namespace GoOutline.Yaml

/-! ### What there is in a text -/

/-- Characters that need not be escaped. -/
def isPrintable (c : Char) : Bool :=
  c == '\n' || (' ' ≤ c && c ≤ '~')
    || ('\u00a0' ≤ c && c != byteOrderMark && c != '\ufffe' && c != '\uffff')

/-- The characters that a plain scalar in a block cannot begin with. -/
def openingIndicators : List Char :=
  ['#', ',', '[', ']', '\x7b', '\x7d', '&', '*', '!', '|', '>', '\'', '"', '%', '@', '\x60']

/-- Whether there is something inside a text that would end a plain scalar: a colon at the end of a
word, or a number sign at the start of one. -/
def hasIndicator : (isWordStart : Bool) → List Char → Bool
  | _, [] => false
  | isWordStart, c :: rest =>
    (c == ':' && endsWord rest) || (c == '#' && isWordStart) || hasIndicator (isGap c) rest

/-- Whether a plain scalar cannot begin with a text. -/
def opensBadly : List Char → Bool
  | [] => false
  | c :: rest =>
    openingIndicators.contains c || ((c == '?' || c == '-') && endsWord rest)
      || ['-', '-', '-'].isPrefixOf (c :: rest) || ['.', '.', '.'].isPrefixOf (c :: rest)

/-- Whether two characters of the given classes stand side by side. -/
def hasPair (isFirst isSecond : Char → Bool) : List Char → Bool
  | a :: b :: rest => (isFirst a && isSecond b) || hasPair isFirst isSecond (b :: rest)
  | _ => false

/-- Whether there is a space before a line break. -/
def hasSpaceBreak : List Char → Bool := hasPair (· == ' ') isBreak

/-- Whether there is a space after a line break. -/
def hasBreakSpace : List Char → Bool := hasPair isBreak (· == ' ')

/-! ### Styles -/

/-- The ways in which a text is written. -/
inductive Style where
  | plain | single | double | literal
deriving DecidableEq

/-- Whether a text can be written without quotes. -/
def allowsPlain (text : List Char) : Bool :=
  text.all isPrintable && !text.any isBreak && text.head? != some ' ' && text.getLast? != some ' '
    && !opensBadly text && !hasIndicator true text

/-- Whether a text can be written in single quotes. -/
def allowsSingle (text : List Char) : Bool :=
  text.all isPrintable && !hasSpaceBreak text && !hasBreakSpace text

/-- Whether a text can be written on lines of its own. -/
def allowsLiteral (text : List Char) : Bool :=
  text.all isPrintable && !hasSpaceBreak text && text.getLast? != some ' '

/-- The style in which a text is written. -/
def styleOf (text : List Char) : Style :=
  if text.contains '\n' then if allowsLiteral text then .literal else .double
  else if allowsPlain text && !isLookalike text then .plain
  else if allowsSingle text then .single
  else .double

/-! ### Texts in a style -/

/-- The spaces at the start of a line. -/
def lineIndent : List Char := [' ', ' ']

/-- The text between single quotes. -/
def singleChars : (isLineStart : Bool) → List Char → List Char
  | isLineStart, [] => if isLineStart then lineIndent else []
  | isLineStart, c :: rest =>
    if isBreak c then c :: singleChars true rest
    else
      (if isLineStart then lineIndent else []) ++ (if c == '\'' then ['\'', '\''] else [c])
        ++ singleChars false rest

/-- The lines of a text. -/
def literalChars : (isLineStart : Bool) → List Char → List Char
  | _, [] => []
  | isLineStart, c :: rest =>
    if isBreak c then c :: literalChars true rest
    else (if isLineStart then lineIndent else []) ++ c :: literalChars false rest

/-- The signs before the lines of a text: how far they are indented, where the text itself begins with
a space, and how many line breaks at the end count. -/
def literalHints (text : List Char) : List Char :=
  let indentHint := if text.head?.any fun c => c == ' ' || isBreak c then ['2'] else []
  let chompHint := match text.reverse with
    | [] => ['-']
    | [c] => if isBreak c then ['+'] else ['-']
    | c :: d :: _ => if !isBreak c then ['-'] else if isBreak d then ['+'] else []
  indentHint ++ chompHint

/-- A hexadecimal digit, in upper case. -/
def upperHexDigit (n : Nat) : Char := if n < 10 then Char.ofNat (48 + n) else Char.ofNat (55 + n)

/-- A number with the given count of hexadecimal digits. -/
def upperHex : (count : Nat) → Nat → List Char
  | 0, _ => []
  | count + 1, n => upperHex count (n / 16) ++ [upperHexDigit (n % 16)]

/-- A character between double quotes. -/
def doubleChars (c : Char) : List Char :=
  if c == '"' then ['\\', '"']
  else if c == '\\' then ['\\', '\\']
  else if isPrintable c && !isBreak c then [c]
  else if c == '\x00' then ['\\', '0']
  else if c == '\x07' then ['\\', 'a']
  else if c == '\x08' then ['\\', 'b']
  else if c == '\t' then ['\\', 't']
  else if c == '\n' then ['\\', 'n']
  else if c == '\x0b' then ['\\', 'v']
  else if c == '\x0c' then ['\\', 'f']
  else if c == '\r' then ['\\', 'r']
  else if c == '\x1b' then ['\\', 'e']
  else if c == '\u0085' then ['\\', 'N']
  else if c == '\u2028' then ['\\', 'L']
  else if c == '\u2029' then ['\\', 'P']
  else if c.toNat ≤ 0xff then '\\' :: 'x' :: upperHex 2 c.toNat
  else if c.toNat ≤ 0xffff then '\\' :: 'u' :: upperHex 4 c.toNat
  else '\\' :: 'U' :: upperHex 8 c.toNat

/-- A text in its style, up to the end of the last line. -/
def scalarChars (text : List Char) : List Char :=
  match styleOf text with
  | .plain => text ++ ['\n']
  | .single => '\'' :: singleChars false text ++ ['\'', '\n']
  | .double => '"' :: text.flatMap doubleChars ++ ['"', '\n']
  | .literal =>
    '|' :: literalHints text ++ ['\n'] ++ literalChars true text
      ++ (if text.getLast?.any isBreak then [] else ['\n'])

/-- A mapping with one field. The name of the field is a plain word. -/
def writeField (name text : List Char) : List Char := name ++ [':', ' '] ++ scalarChars text

end GoOutline.Yaml
