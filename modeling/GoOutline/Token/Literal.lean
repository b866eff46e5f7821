import GoOutline.Token.Comment
import GoOutline.Token.Word

/-!
# String literals

A string literal is read as a whole: inside it other tokens are looked for than outside.

* `codeSet`: a set of tokens without those that come only in strings.
* `quotedToken?`: the next token of a string.
* `quotedTokens`, `rawTokens`: the tokens of a string after its first quote, and the text after it.
-/

namespace GoOutline.Token

open GoOutline.Grammar

/-- The tokens that come only in strings. -/
def stringOnlySet : Nat :=
  Terminal.rawText.bit ||| Terminal.quotedText.bit ||| Terminal.closingQuote.bit
    ||| Terminal.escape.bit

/-- A set of tokens without those that come only in strings. -/
def codeSet (set : Nat) : Nat := (set ||| stringOnlySet) ^^^ stringOnlySet

/-- The longest beginning of a text that a pattern matches. -/
def Pattern.longest? (p : Pattern) : List Char → Option (List Char)
  | [] => if p.isDone then some [] else none
  | c :: cs =>
    if p.isNothing then none
    else
      match (p.after c).longest? cs with
      | some w => some (c :: w)
      | none => if p.isDone then some [] else none

/-- Whether a character stands for itself in a string. -/
def isQuotedText (c : Char) : Bool := c != '"' && c != '\n' && c != '\\'

/-- The next token of a string, after its first quote. A string may be broken off at the end of a
line if a comment comes next. -/
def quotedToken? : List Char → Option Scanned
  | [] => none
  | c :: text =>
    if c = '"' then some ⟨.closingQuote, [], [c]⟩
    else if c = '\\' then
      (Terminal.escape.pattern.longest? (c :: text)).map (⟨.escape, [], ·⟩)
    else if c = '\n' then
      (comment? (text.dropWhile isBlank)).map fun s =>
        ⟨.comment, c :: text.takeWhile isBlank, s.part⟩
    else some ⟨.quotedText, [], (c :: text).takeWhile isQuotedText⟩

/-- The tokens of a string after its first quote up to the last one, and the text after it. -/
def quotedTokens : (fuel : Nat) → List Char → Option (List Scanned × List Char)
  | 0, _ => none
  | fuel + 1, text => do
    let s ← quotedToken? text
    let rest := text.drop (s.space.length + s.text.length)
    if s.token = .closingQuote then return ([s], rest)
    else
      let (more, rest) ← quotedTokens fuel rest
      return (s :: more, rest)

/-- The tokens of a raw string after its first quote, and the text after it. -/
def rawTokens (text : List Char) : Option (List Scanned × List Char) :=
  match text.dropWhile (· ≠ '`') with
  | [] => none
  | c :: rest =>
    some ([⟨.rawText, [], text.takeWhile (· ≠ '`')⟩, ⟨.backquote, [], [c]⟩], rest)

end GoOutline.Token
