/-!
# Places in a YAML text

* `isBreak`, `isBlank`, `isWordChar`, `isAllowed`: classes of characters.
* `Cursor`: the rest of a text, with its place.
* `Cursor.skip`, `Cursor.skipBreak`: the place after some characters, and after a line break.
* `Cursor.isAtMark`: whether a line begins with `---` or `...`.
-/

namespace GoOutline.Yaml

/-! ### Characters -/

/-- Characters that end a line. -/
def isBreak (c : Char) : Bool :=
  c == '\n' || c == '\r' || c == '\u0085' || c == '\u2028' || c == '\u2029'

/-- Characters that separate words in a line. -/
def isBlank (c : Char) : Bool := c == ' ' || c == '\t'

/-- Characters that separate words. -/
def isGap (c : Char) : Bool := isBlank c || isBreak c

/-- Characters of names. -/
def isWordChar (c : Char) : Bool := c.isAlphanum || c == '_' || c == '-'

/-- Characters that may stand in a text. -/
def isAllowed (c : Char) : Bool :=
  c == '\t' || c == '\n' || c == '\r' || (' ' ≤ c && c ≤ '~') || c == '\u0085'
    || ('\u00a0' ≤ c && c != '\ufffe' && c != '\uffff')

/-- The mark that may stand at the start of a text. -/
def byteOrderMark : Char := '\ufeff'

/-- Whether a word has ended: what follows is a blank, a line break or nothing. -/
def endsWord : List Char → Bool
  | [] => true
  | c :: _ => isGap c

/-- What a line break stands for. The line breaks of plain text are the same one. -/
def breakText : List Char → List Char
  | [] => []
  | c :: _ =>
    if c == '\u2028' || c == '\u2029' then [c] else if isBreak c then ['\n'] else []

/-! ### Places -/

/-- The rest of a text and its place in it. All counts are from zero. -/
structure Cursor where
  rest : List Char
  index : Nat := 0
  line : Nat := 0
  column : Nat := 0
deriving DecidableEq

namespace Cursor

/-- The place after some characters in the same line. -/
def skip (c : Cursor) (count : Nat) : Cursor :=
  { c with rest := c.rest.drop count, index := c.index + count, column := c.column + count }

/-- The place after the characters of a class. -/
def skipWhile (c : Cursor) (isIn : Char → Bool) : Cursor := c.skip (c.rest.takeWhile isIn).length

/-- The place after a line break. -/
def skipBreak (c : Cursor) : Cursor :=
  match c.rest with
  | '\r' :: '\n' :: rest => { rest, index := c.index + 2, line := c.line + 1, column := 0 }
  | _ :: rest => { rest, index := c.index + 1, line := c.line + 1, column := 0 }
  | [] => c

/-- Whether the next character is the given one. -/
def isAt (c : Cursor) (ch : Char) : Bool := c.rest.head? == some ch

/-- Whether the next character is one of the given ones. -/
def isAtOneOf (c : Cursor) (chars : List Char) : Bool := c.rest.head?.any chars.contains

/-- Whether a line begins here with three times the given character and nothing after it. -/
def isAtMark (c : Cursor) (ch : Char) : Bool :=
  c.column == 0 &&
    match c.rest with
    | a :: b :: d :: rest => a == ch && b == ch && d == ch && endsWord rest
    | _ => false

/-- Whether a line begins here that separates documents. -/
def isAtDocumentMark (c : Cursor) : Bool := c.isAtMark '-' || c.isAtMark '.'

end Cursor

end GoOutline.Yaml
