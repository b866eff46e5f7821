import GoOutline.Text.Identifier

/-!
# Patterns of tokens

Regular expressions over characters, read one character at a time.

* `CharClass`: a set of characters.
* `Pattern`: a regular expression; `Pattern.after` is what remains of it after a character, and
  `Pattern.isDone` says whether it may end here.
* `Pattern.accepts`: whether a pattern matches a whole text.
-/

namespace GoOutline.Token

/-- A set of characters. -/
inductive CharClass where
  | among (cs : List Char)
  | except (cs : List Char)
  | range (lo hi : Char)
  | identifierStart
  | identifierPart
deriving DecidableEq

/-- Whether a character belongs to the set. -/
def CharClass.has (c : Char) : CharClass → Bool
  | .among cs => cs.contains c
  | .except cs => !cs.contains c
  | .range lo hi => lo ≤ c && c ≤ hi
  | .identifierStart => Text.isIdentifierStart c
  | .identifierPart => Text.isIdentifierPart c

/-- A regular expression. -/
inductive Pattern where
  /-- Matches no text. -/
  | nothing
  /-- Matches exactly the given text. -/
  | text (cs : List Char)
  | char (s : CharClass)
  | seq (p q : Pattern)
  | alt (p q : Pattern)
  /-- Any number of times. -/
  | many (p : Pattern)
deriving DecidableEq

namespace Pattern

/-- Whether the pattern matches the empty text. -/
def isDone : Pattern → Bool
  | nothing => false
  | text cs => cs.isEmpty
  | char _ => false
  | seq p q => p.isDone && q.isDone
  | alt p q => p.isDone || q.isDone
  | many _ => true

/-- Whether the pattern is the one that matches no text. -/
def isNothing : Pattern → Bool
  | nothing => true
  | _ => false

/-- The pattern of the empty text. -/
def done : Pattern := text []

/-- One after the other, without idle parts. -/
def andThen (p q : Pattern) : Pattern :=
  match p, q with
  | nothing, _ => nothing
  | _, nothing => nothing
  | text [], q => q
  | p, text [] => p
  | p, q => seq p q

/-- Either of the two, without idle or repeated parts. -/
def orElse (p q : Pattern) : Pattern :=
  match p, q with
  | nothing, q => q
  | p, nothing => p
  | p, q => if p = q then p else alt p q

/-- What remains to be matched after the character. -/
def after (c : Char) : Pattern → Pattern
  | nothing => nothing
  | text [] => nothing
  | text (d :: ds) => if c = d then text ds else nothing
  | char s => if s.has c then done else nothing
  | seq p q =>
    let left := (p.after c).andThen q
    if p.isDone then left.orElse (q.after c) else left
  | alt p q => (p.after c).orElse (q.after c)
  | many p => (p.after c).andThen (many p)

/-- Whether the pattern matches the whole text. -/
def accepts (p : Pattern) (text : List Char) : Bool :=
  (text.foldl (fun p c => p.after c) p).isDone

/-! ### Building blocks -/

/-- The text, literally. -/
def lit (s : String) : Pattern := text s.toList

/-- One of the characters. -/
def oneOf (s : String) : Pattern := char (.among s.toList)

/-- A character other than these. -/
def noneOf (s : String) : Pattern := char (.except s.toList)

/-- A character between the two. -/
def between (lo hi : Char) : Pattern := char (.range lo hi)

/-- All of the patterns, one after the other. -/
def chain : List Pattern → Pattern
  | [] => done
  | [p] => p
  | p :: ps => seq p (chain ps)

/-- One of the patterns. -/
def choice : List Pattern → Pattern
  | [] => nothing
  | [p] => p
  | p :: ps => alt p (choice ps)

/-- The pattern or nothing at all. -/
def opt (p : Pattern) : Pattern := alt p done

/-- One or more times. -/
def many1 (p : Pattern) : Pattern := seq p (many p)

/-- Exactly `n` times. -/
def times (n : Nat) (p : Pattern) : Pattern := chain (List.replicate n p)

end Pattern

end GoOutline.Token
