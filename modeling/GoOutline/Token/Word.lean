import GoOutline.Token.Scan

/-!
# Words

A word of the grammar is first read as an identifier and then recognised by its spelling.

* `word?`: the word with a given spelling.
* `Lookahead`: the next token as a state of the parser sees it.
* `lookahead`: the next token of a text, when the tokens of `expected` are possible.
-/

namespace GoOutline.Token

open GoOutline.Grammar

/-- The words with their spelling. -/
def words : List (List Char × Terminal) :=
  Terminal.all.filterMap fun t =>
    if t.isWord then t.spelling?.map fun s => (s.toList, t) else none

/-- The word with the given spelling. -/
def word? (text : List Char) : Option Terminal := words.lookup text

/-- The set of all words. -/
def wordSet : Nat := words.foldl (fun set (_, t) => set ||| t.bit) 0

/-- The tokens to scan for when those of `expected` are possible: the identifier stands for every
word. -/
def scanSet (expected : Nat) : Nat :=
  if (expected &&& wordSet) != 0 then
    (expected ||| wordSet ||| Terminal.identifier.bit) ^^^ wordSet
  else expected

/-- The next token as a state of the parser sees it. -/
structure Lookahead where
  token : Terminal
  /-- The token is spelled like a word, whether or not it is taken for one. -/
  isWord : Bool
  space : List Char
  text : List Char
deriving DecidableEq

/-- Whether a word is kept apart from identifiers where the tokens of `expected` are possible. -/
def isKept (expected : Nat) (t : Terminal) : Bool :=
  t.isReserved && Terminal.identifier.isIn expected

/-- Takes a scanned identifier for the word with its spelling, where the word is expected or
reserved. -/
def classify (expected : Nat) (s : Scanned) : Lookahead :=
  if s.token = .identifier then
    match word? s.text with
    | some w =>
      ⟨if w.isIn expected || isKept expected w then w else .identifier, true, s.space, s.text⟩
    | none => ⟨.identifier, false, s.space, s.text⟩
  else ⟨s.token, false, s.space, s.text⟩

/-- The next token of a text when the tokens of `expected` are possible. -/
def lookahead (expected : Nat) (text : List Char) : Option Lookahead :=
  (scan (scanSet expected) text).found.map (classify expected)

end GoOutline.Token
