import GoOutline.Yaml.Token

/-!
# Scanning YAML

A YAML text is cut into tokens. Where a mapping or a sequence begins and ends follows from the
columns in which things stand, and whether something is a key is only known once a colon follows it.

* `Scanner`: the tokens so far, and what has to be remembered about columns and keys.
* `Scanner.fetch`: the next token.
* `scan`: all tokens of a text. There are none if the text is not YAML.
-/

namespace GoOutline.Yaml

/-- Something that becomes a key if a colon follows it. -/
structure Candidate where
  /-- Whether it can be nothing else. -/
  isRequired : Bool
  /-- How many tokens stand before it. -/
  number : Nat
  cursor : Cursor

/-- A text that is being cut into tokens. -/
structure Scanner where
  cursor : Cursor
  tokens : List Token := []
  /-- The columns of the blocks that are open, innermost first. -/
  indents : List Int := []
  /-- The latest candidate for a key. -/
  candidate : Option Candidate := none
  /-- The candidates outside each flow collection that is open, innermost first. -/
  outer : List (Option Candidate) := []
  /-- Whether a key may begin here. -/
  allowsKey : Bool := true

namespace Scanner

/-- Whether a flow collection is open. -/
def inFlow (s : Scanner) : Bool := !s.outer.isEmpty

/-- The column of the innermost block. -/
def indent (s : Scanner) : Int := s.indents.headD (-1)

/-- One more token. -/
def push (s : Scanner) (t : Token) : Scanner := { s with tokens := s.tokens ++ [t] }

/-- One more token in front of which `number` others stand. -/
def insert (s : Scanner) (number : Nat) (t : Token) : Scanner :=
  { s with tokens := s.tokens.take number ++ t :: s.tokens.drop number }

/-! ### Blocks -/

/-- Begins a block if the column is farther right than that of the innermost one. -/
def openBlock (s : Scanner) (column number : Nat) (t : Token) : Scanner :=
  if !s.inFlow && s.indent < (column : Int) then
    { s.insert number t with indents := (column : Int) :: s.indents }
  else s

/-- Ends the blocks that are farther right than the column. -/
def closeBlocks (s : Scanner) (column : Int) : Scanner :=
  if s.inFlow then s
  else
    let closed := s.indents.takeWhile (column < ·)
    { s with
      tokens := s.tokens ++ closed.map fun _ => .blockEnd
      indents := s.indents.drop closed.length }

/-! ### Keys -/

/-- Gives up the latest candidate for a key. -/
def dropKey (s : Scanner) : Option Scanner :=
  if s.candidate.any (·.isRequired) then none else some { s with candidate := none }

/-- Remembers a candidate for a key, if one may begin here. -/
def saveKey (s : Scanner) : Option Scanner :=
  if s.allowsKey then do
    let isRequired := !s.inFlow && s.indent == (s.cursor.column : Int)
    let s ← s.dropKey
    some { s with candidate := some ⟨isRequired, s.tokens.length, s.cursor⟩ }
  else some s

/-- Whether it is too late for a candidate: a key is in one line and not too long. -/
def isStale (c : Cursor) (k : Candidate) : Bool :=
  k.cursor.line < c.line || k.cursor.index + 1024 < c.index

/-- A candidate, unless it is too late for it. -/
def refreshed (c : Cursor) : Option Candidate → Option (Option Candidate)
  | none => some none
  | some k => if isStale c k then if k.isRequired then none else some none else some (some k)

/-- Gives up the candidates for which it is too late. -/
def dropStale (s : Scanner) : Option Scanner := do
  let candidate ← refreshed s.cursor s.candidate
  let outer ← s.outer.mapM (refreshed s.cursor)
  some { s with candidate := candidate, outer := outer }

/-! ### Between tokens -/

/-- Passes over blanks, comments and line breaks. No tab may stand where a key may begin. -/
def toNextToken : (fuel : Nat) → Scanner → Scanner
  | 0, s => s
  | fuel + 1, s =>
    let c := s.cursor
    let c := if c.index == 0 && c.isAt byteOrderMark then c.skip 1 else c
    let c := c.skipWhile fun ch => ch == ' ' || (ch == '\t' && (s.inFlow || !s.allowsKey))
    let c := if c.isAt '#' then c.skipWhile (!isBreak ·) else c
    if c.rest.head?.any isBreak then
      toNextToken fuel { s with cursor := c.skipBreak, allowsKey := s.allowsKey || !s.inFlow }
    else { s with cursor := c }

/-! ### Tokens -/

/-- The scanner after the next characters. -/
def skip (s : Scanner) (count : Nat) : Scanner := { s with cursor := s.cursor.skip count }

/-- A directive. -/
def fetchDirective (s : Scanner) : Option Scanner := do
  let s ← (s.closeBlocks (-1)).dropKey
  let (token, c) ← readDirective s.cursor
  some { s.push token with allowsKey := false, cursor := c }

/-- A line that separates documents. -/
def fetchMark (s : Scanner) (t : Token) : Option Scanner := do
  let s ← (s.closeBlocks (-1)).dropKey
  some ({ s.push t with allowsKey := false }.skip 3)

/-- The start of a flow collection. -/
def fetchFlowStart (s : Scanner) (t : Token) : Option Scanner := do
  let s ← s.saveKey
  let s := { s with candidate := none, outer := s.candidate :: s.outer }
  some ({ s.push t with allowsKey := true }.skip 1)

/-- The end of a flow collection. -/
def fetchFlowEnd (s : Scanner) (t : Token) : Option Scanner := do
  let s ← s.dropKey
  let s := match s.outer with
    | [] => s
    | k :: outer => { s with candidate := k, outer := outer }
  some ({ s.push t with allowsKey := false }.skip 1)

/-- A comma between items of a flow collection. -/
def fetchFlowItem (s : Scanner) : Option Scanner := do
  let s ← s.dropKey
  some ({ s.push .flowItem with allowsKey := true }.skip 1)

/-- A dash before an item of a block. -/
def fetchBlockItem (s : Scanner) : Option Scanner :=
  if !s.inFlow && !s.allowsKey then none
  else do
    let s ← (s.openBlock s.cursor.column s.tokens.length .sequenceStart).dropKey
    some ({ s.push .blockItem with allowsKey := true }.skip 1)

/-- A question mark before a key. -/
def fetchKey (s : Scanner) : Option Scanner :=
  if !s.inFlow && !s.allowsKey then none
  else do
    let s ← (s.openBlock s.cursor.column s.tokens.length .mappingStart).dropKey
    some ({ s.push .key with allowsKey := !s.inFlow }.skip 1)

/-- A colon before a value. If there is a candidate, it is the key. -/
def fetchValue (s : Scanner) : Option Scanner :=
  match s.candidate with
  | some k =>
    let s := (s.insert k.number .key).openBlock k.cursor.column k.number .mappingStart
    some ({ s.push .value with candidate := none, allowsKey := false }.skip 1)
  | none =>
    if !s.inFlow && !s.allowsKey then none
    else
      let s := s.openBlock s.cursor.column s.tokens.length .mappingStart
      some ({ s.push .value with allowsKey := !s.inFlow }.skip 1)

/-- A token that may be, or begin, a key. -/
def fetchPart (s : Scanner) (read : Cursor → Option (Token × Cursor)) : Option Scanner := do
  let s ← s.saveKey
  let (token, c) ← read s.cursor
  some { s.push token with allowsKey := false, cursor := c }

/-- A scalar on lines of its own. -/
def fetchBlockScalar (s : Scanner) (isFolded : Bool) : Option Scanner := do
  let s ← s.dropKey
  let (text, c) ← readBlock isFolded s.indent s.cursor
  some { s.push (.scalar text) with allowsKey := true, cursor := c }

/-- A scalar without quotes. -/
def fetchPlain (s : Scanner) : Option Scanner := do
  let s ← s.saveKey
  let plain ← readPlain s.inFlow (s.indent + 1).toNat s.cursor
  some { s.push (.scalar plain.text) with allowsKey := plain.isBroken, cursor := plain.cursor }

/-- The characters that a plain scalar cannot begin with, or only if no word ends after them. -/
def indicators : List Char :=
  ['-', '?', ':', ',', '[', ']', '\x7b', '\x7d', '#', '&', '*', '!', '|', '>', '\'', '"', '%', '@',
    '\x60']

/-- Whether a plain scalar begins here. -/
def startsPlain (inFlow : Bool) : List Char → Bool
  | [] => false
  | c :: rest =>
    (!isGap c && !indicators.contains c) || (c == '-' && !rest.head?.any isBlank)
      || (!inFlow && (c == '?' || c == ':') && !endsWord rest)

/-- The next token, which begins here. -/
def fetch (s : Scanner) : Option Scanner :=
  let c := s.cursor
  let endsNext := endsWord (c.rest.drop 1)
  if c.column == 0 && c.isAt '%' then s.fetchDirective
  else if c.isAtMark '-' then s.fetchMark .documentStart
  else if c.isAtMark '.' then s.fetchMark .documentEnd
  else if c.isAt '[' then s.fetchFlowStart .flowSequenceStart
  else if c.isAt '\x7b' then s.fetchFlowStart .flowMappingStart
  else if c.isAt ']' then s.fetchFlowEnd .flowSequenceEnd
  else if c.isAt '\x7d' then s.fetchFlowEnd .flowMappingEnd
  else if c.isAt ',' then s.fetchFlowItem
  else if c.isAt '-' && endsNext then s.fetchBlockItem
  else if c.isAt '?' && (s.inFlow || endsNext) then s.fetchKey
  else if c.isAt ':' && (s.inFlow || endsNext) then s.fetchValue
  else if c.isAt '*' then s.fetchPart fun c => (readName c).map fun (n, c) => (.alias n, c)
  else if c.isAt '&' then s.fetchPart fun c => (readName c).map fun (n, c) => (.anchor n, c)
  else if c.isAt '!' then
    s.fetchPart fun c => (readTag s.inFlow c).map fun (h, c) => (.tag h, c)
  else if c.isAt '|' && !s.inFlow then s.fetchBlockScalar false
  else if c.isAt '>' && !s.inFlow then s.fetchBlockScalar true
  else if c.isAt '\'' then s.fetchPart fun c => (readSingle c).map fun (t, c) => (.scalar t, c)
  else if c.isAt '"' then s.fetchPart fun c => (readDouble c).map fun (t, c) => (.scalar t, c)
  else if startsPlain s.inFlow c.rest then s.fetchPlain
  else none

/-- The tokens at the end of the text: the blocks that are still open end. -/
def finish (s : Scanner) : Option (List Token) :=
  ((s.closeBlocks (-1)).dropKey).map (·.tokens)

/-- Cuts the rest of the text into tokens. -/
def run : (fuel : Nat) → Scanner → Option (List Token)
  | 0, _ => none
  | fuel + 1, s => do
    let s ← (s.toNextToken (s.cursor.rest.length + 1)).dropStale
    let s := s.closeBlocks s.cursor.column
    if s.cursor.rest.isEmpty then s.finish else (← s.fetch).run fuel

end Scanner

/-- The tokens of a text. -/
def scan (text : List Char) : Option (List Token) :=
  if text.all isAllowed then Scanner.run (text.length + 1) { cursor := { rest := text } } else none

end GoOutline.Yaml
