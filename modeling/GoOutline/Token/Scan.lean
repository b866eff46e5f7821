import GoOutline.Grammar.TokenSet
import GoOutline.Token.Lexicon

/-!
# Scanning

Reading the next token of a text when only some tokens are wanted.

* `Candidate`: a token that may still turn out to be the next one.
* `step`: all candidates read one more character, or none does.
* `scan`: the next token of a text, with the white space before it.

White space before a token is skipped, unless the character can also begin a wanted token: a line
break is a token where one is wanted and white space elsewhere.
-/

namespace GoOutline.Token

open GoOutline.Grammar

/-- A mark at the start of a text that only says how it is encoded. -/
def byteOrderMark : Char := '\ufeff'

/-- A token that may still turn out to be the next one. -/
structure Candidate where
  token : Terminal
  /-- What remains to be read of it. -/
  pattern : Pattern
  /-- Nothing of it need have been read: white space may still be skipped. -/
  isLeading : Bool
deriving DecidableEq

/-- The candidate at the place where scanning begins. -/
def Candidate.start (t : Terminal) : Candidate :=
  ⟨t, patterns.getD t.ctorIdx .nothing, !t.isImmediate⟩

/-- The candidates for a set of tokens. -/
def candidates (wanted : Nat) : List Candidate :=
  (tokensOf wanted).filterMap fun t =>
    if t = .endOfInput then none else some (.start t)

/-- A candidate after one more character: what reads the character, and whether the character may
also be skipped before it. -/
def Candidate.after (k : Candidate) (c : Char) : Pattern × Bool :=
  (k.pattern.after c, k.isLeading && isBlank c)

/-- The candidate that goes on as said. -/
def Candidate.goOn (k : Candidate) (next : Pattern × Bool) : Option Candidate :=
  if next.2 then some ⟨k.token, next.1.orElse (patterns.getD k.token.ctorIdx .nothing), true⟩
  else if next.1.isNothing then none
  else some ⟨k.token, next.1, false⟩

/-- The preferred one of a token, if there is one, and another. -/
def prefer (best : Option Terminal) (t : Terminal) : Option Terminal :=
  match best with
  | none => some t
  | some u => if u.isPreferredTo t then best else some t

/-- The token that is complete, if any: of several, the preferred one. -/
def completed (ks : List Candidate) : Option Terminal :=
  ks.foldl (fun best k => if k.pattern.isDone then prefer best k.token else best) none

/-- The outcome of one more character: the candidates that are left, and whether the character was
only skipped. -/
structure Progress where
  candidates : List Candidate
  isSkipped : Bool

/-- Reads one more character, if reading on is better than stopping: a complete token is not given
up for white space, for something lighter, or, where white space might follow, for another
token. -/
def step (ks : List Candidate) (c : Char) : Option Progress :=
  let nexts := ks.map fun k => (k, k.after c)
  let left := nexts.filterMap fun n => n.1.goOn n.2
  let isSkipped := nexts.all (·.2.1.isNothing)
  let weight := nexts.foldl (fun w n => if n.2.1.isNothing then w else max w n.1.token.weight) 0
  let stops (t : Terminal) : Bool :=
    weight < t.weight
      || (weight == t.weight && (isSkipped || (ks.any (·.isLeading) && left.all (·.token != t))))
  if left.isEmpty || (completed ks).any stops then none else some ⟨left, isSkipped⟩

/-- A token as found in a text: the white space before it and its own characters. -/
structure Scanned where
  token : Terminal
  space : List Char
  text : List Char
deriving DecidableEq

/-- Where scanning stands: what was skipped and what was read since, both last first. -/
structure Cursor where
  space : List Char := []
  text : List Char := []

/-- The cursor after one more character. -/
def Cursor.push (u : Cursor) (c : Char) (isSkipped : Bool) : Cursor :=
  if isSkipped then ⟨c :: (u.text ++ u.space), []⟩ else ⟨u.space, c :: u.text⟩

/-- A complete token at the cursor. -/
def Cursor.found (u : Cursor) (t : Terminal) : Scanned := ⟨t, u.space.reverse, u.text.reverse⟩

/-- What a scan comes to: the longest token found, and how far it looked. -/
structure Outcome where
  found : Option Scanned
  reached : Cursor

/-- Scans on: `best` is the longest token so far, and `atEnd` the token to report when the text
ends before anything but white space was read. -/
def scanFrom (atEnd : Option Terminal) :
    List Char → List Candidate → Cursor → Option Scanned → Outcome
  | text, ks, u, best =>
    let best := ((completed ks).map u.found).or best
    match text with
    | [] => ⟨if u.text.isEmpty then (atEnd.map u.found).or best else best, u⟩
    | c :: text =>
      match step ks c with
      | none => ⟨best, u⟩
      | some progress =>
        scanFrom atEnd text progress.candidates (u.push c progress.isSkipped) best

/-- The token that stands where a text ends. Where no end is wanted, a terminator of no characters
may stand there. -/
def endToken (wanted : Nat) : Option Terminal :=
  if Terminal.endOfInput.isIn wanted then some .endOfInput
  else if Terminal.nul.isIn wanted then some .nul
  else none

/-- Scans a text for one of the wanted tokens. -/
def scan (wanted : Nat) (text : List Char) : Outcome :=
  scanFrom (endToken wanted) text (candidates wanted) {} none

end GoOutline.Token
