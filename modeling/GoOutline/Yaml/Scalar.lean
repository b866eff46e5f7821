import GoOutline.Text.Hex
import GoOutline.Yaml.Cursor

/-!
# Scalars in a YAML text

A scalar can be written in several styles. In most of them the line breaks between words are folded.

* `Gap`, `readGap`: blanks and line breaks between words, and what they stand for.
* `readPlain`: a scalar without quotes.
* `readSingle`, `readDouble`: scalars in quotes.
* `readBlock`: a scalar on lines of its own.
-/

namespace GoOutline.Yaml

export GoOutline.Text (hexValue? hexNumber?)

/-! ### Between words -/

/-- Blanks and line breaks between two words. -/
inductive Gap where
  | blanks (text : List Char)
  /-- What the first line break stands for, and what the others do. -/
  | broken (first more : List Char)
deriving DecidableEq

namespace Gap

/-- Whether there is a line break. -/
def isBroken : Gap → Bool
  | blanks _ => false
  | broken .. => true

/-- What a gap stands for: a single line break is a space, and of several ones the first does not
count. -/
def text : Gap → List Char
  | blanks text => text
  | broken first more =>
    if first = ['\n'] then if more.isEmpty then [' '] else more else first ++ more

/-- A gap with one more blank; those after a line break do not count. -/
def addBlank (c : Char) : Gap → Gap
  | blanks text => blanks (text ++ [c])
  | broken first more => broken first more

/-- A gap with one more line break. -/
def addBreak (text : List Char) : Gap → Gap
  | blanks _ => broken text []
  | broken first more => broken first (more ++ text)

end Gap

/-- Reads blanks and line breaks. After a line break no tab may stand before the column `limit`. -/
def readGap (limit : Nat) : (fuel : Nat) → Gap → Cursor → Option (Gap × Cursor)
  | 0, gap, c => some (gap, c)
  | fuel + 1, gap, c =>
    match c.rest with
    | [] => some (gap, c)
    | ch :: _ =>
      if isBlank ch then
        if gap.isBroken && c.column < limit && ch == '\t' then none
        else readGap limit fuel (gap.addBlank ch) (c.skip 1)
      else if isBreak ch then readGap limit fuel (gap.addBreak (breakText c.rest)) c.skipBreak
      else some (gap, c)

/-! ### Plain scalars -/

/-- The characters that end a word in a flow collection. -/
def flowIndicators : List Char := [',', '[', ']', '\x7b', '\x7d']

/-- The next word of a plain scalar. A colon at the end of a word is not part of it. -/
def plainWord (inFlow : Bool) : List Char → Option (List Char)
  | [] => some []
  | c :: rest =>
    if isGap c then some []
    else if inFlow && c == ':' && rest.head?.any ('?' :: flowIndicators).contains then none
    else if (c == ':' && endsWord rest) || (inFlow && flowIndicators.contains c) then some []
    else (plainWord inFlow rest).map (c :: ·)

/-- A plain scalar that has been read. -/
structure Plain where
  text : List Char
  /-- Whether a line break follows. -/
  isBroken : Bool
  cursor : Cursor
deriving DecidableEq

/-- Reads on in a plain scalar. Its further lines begin at the column `limit` or after it. -/
def plainFrom (inFlow : Bool) (limit : Nat) :
    (fuel : Nat) → List Char → Gap → Cursor → Option Plain
  | 0, _, _, _ => none
  | fuel + 1, text, gap, c =>
    if c.isAtDocumentMark || c.isAt '#' then some ⟨text, gap.isBroken, c⟩
    else do
      let word ← plainWord inFlow c.rest
      let c := c.skip word.length
      let (text, gap) := if word.isEmpty then (text, gap) else (text ++ gap.text ++ word, .blanks [])
      if c.rest.head?.any isGap then
        let (gap, c) ← readGap limit c.rest.length gap c
        if !inFlow && c.column < limit then some ⟨text, gap.isBroken, c⟩
        else plainFrom inFlow limit fuel text gap c
      else some ⟨text, gap.isBroken, c⟩

/-- Reads a plain scalar. -/
def readPlain (inFlow : Bool) (limit : Nat) (c : Cursor) : Option Plain :=
  plainFrom inFlow limit (c.rest.length + 1) [] (.blanks []) c

/-! ### Scalars in single quotes -/

/-- The next word in single quotes, and how long it is. A quote is written twice. -/
def singleWord : List Char → List Char × Nat
  | '\'' :: '\'' :: rest =>
    let (word, count) := singleWord rest
    ('\'' :: word, count + 2)
  | c :: rest =>
    if c == '\'' || isGap c then ([], 0)
    else
      let (word, count) := singleWord rest
      (c :: word, count + 1)
  | [] => ([], 0)

/-- Reads on in single quotes. -/
def singleFrom : (fuel : Nat) → List Char → Cursor → Option (List Char × Cursor)
  | 0, _, _ => none
  | fuel + 1, text, c =>
    if c.isAtDocumentMark then none
    else
      let (word, count) := singleWord c.rest
      let c := c.skip count
      if c.isAt '\'' then some (text ++ word, c.skip 1)
      else if c.rest.isEmpty then none
      else do
        let (gap, c) ← readGap 0 c.rest.length (.blanks []) c
        singleFrom fuel (text ++ word ++ gap.text) c

/-- Reads a scalar in single quotes; the first quote comes next. -/
def readSingle (c : Cursor) : Option (List Char × Cursor) :=
  singleFrom (c.rest.length + 1) [] (c.skip 1)

/-! ### Scalars in double quotes -/

/-- The character with the given number of digits. -/
def numbered? (digits : Nat) (text : List Char) : Option (Char × Nat) :=
  if text.length < digits then none
  else do
    let n ← hexNumber? (text.take digits)
    if n.isValidChar then some (Char.ofNat n, digits + 1) else none

/-- What stands after a backslash: the character it means, and how long it is. -/
def escape? : List Char → Option (Char × Nat)
  | '0' :: _ => some ('\x00', 1)
  | 'a' :: _ => some ('\x07', 1)
  | 'b' :: _ => some ('\x08', 1)
  | 't' :: _ => some ('\t', 1)
  | '\t' :: _ => some ('\t', 1)
  | 'n' :: _ => some ('\n', 1)
  | 'v' :: _ => some ('\x0b', 1)
  | 'f' :: _ => some ('\x0c', 1)
  | 'r' :: _ => some ('\r', 1)
  | 'e' :: _ => some ('\x1b', 1)
  | ' ' :: _ => some (' ', 1)
  | '"' :: _ => some ('"', 1)
  | '/' :: _ => some ('/', 1)
  | '\\' :: _ => some ('\\', 1)
  | 'N' :: _ => some ('\u0085', 1)
  | '_' :: _ => some ('\u00a0', 1)
  | 'L' :: _ => some ('\u2028', 1)
  | 'P' :: _ => some ('\u2029', 1)
  | 'x' :: rest => numbered? 2 rest
  | 'u' :: rest => numbered? 4 rest
  | 'U' :: rest => numbered? 8 rest
  | _ => none

/-- The next word in double quotes, how long it is, and whether a backslash at the end of the line
follows it. -/
def doubleWord : (fuel : Nat) → List Char → Option (List Char × Nat × Bool)
  | 0, _ => some ([], 0, false)
  | _, [] => some ([], 0, false)
  | fuel + 1, c :: rest =>
    if c == '"' || isGap c then some ([], 0, false)
    else if c == '\\' then
      if rest.head?.any isBreak then some ([], 0, true)
      else do
        let (ch, count) ← escape? rest
        let (word, length, isCut) ← doubleWord fuel (rest.drop count)
        some (ch :: word, length + count + 1, isCut)
    else do
      let (word, length, isCut) ← doubleWord fuel rest
      some (c :: word, length + 1, isCut)

/-- Reads on in double quotes. -/
def doubleFrom : (fuel : Nat) → List Char → Cursor → Option (List Char × Cursor)
  | 0, _, _ => none
  | fuel + 1, text, c =>
    if c.isAtDocumentMark then none
    else do
      let (word, count, isCut) ← doubleWord c.rest.length c.rest
      let c := c.skip count
      let (gap, c) := if isCut then (Gap.broken [] [], (c.skip 1).skipBreak) else (Gap.blanks [], c)
      if c.isAt '"' then some (text ++ word, c.skip 1)
      else if c.rest.isEmpty then none
      else
        let (gap, c) ← readGap 0 c.rest.length gap c
        doubleFrom fuel (text ++ word ++ gap.text) c

/-- Reads a scalar in double quotes; the first quote comes next. -/
def readDouble (c : Cursor) : Option (List Char × Cursor) :=
  doubleFrom (c.rest.length + 1) [] (c.skip 1)

/-! ### Scalars on lines of their own -/

/-- What becomes of the line breaks at the end. -/
inductive Chomping where
  | strip | clip | keep
deriving DecidableEq

/-- The sign of a way to treat the line breaks at the end. -/
def chomping? (c : Cursor) : Option Chomping :=
  match c.rest with
  | '+' :: _ => some .keep
  | '-' :: _ => some .strip
  | _ => none

/-- A digit that says how far the lines are indented; it is not zero. -/
def indentDigit? (c : Cursor) : Option (Option Nat) :=
  match c.rest with
  | ch :: _ =>
    if ch == '0' then none
    else if '1' ≤ ch && ch ≤ '9' then some (some (ch.toNat - 48))
    else some none
  | [] => some none

/-- The signs after the indicator of the style: how the end is treated and how far the lines are
indented, in any order. -/
def blockHeader (c : Cursor) : Option (Chomping × Option Nat × Cursor) :=
  match chomping? c with
  | some chomping => do
    let c := c.skip 1
    match ← indentDigit? c with
    | some n => some (chomping, some n, c.skip 1)
    | none => some (chomping, none, c)
  | none => do
    match ← indentDigit? c with
    | some n =>
      let c := c.skip 1
      match chomping? c with
      | some chomping => some (chomping, some n, c.skip 1)
      | none => some (.clip, some n, c)
    | none => some (.clip, none, c)

/-- The end of a line on which only a comment may still stand. -/
def restOfLine (c : Cursor) : Option Cursor :=
  let c := c.skipWhile isBlank
  let c := if c.isAt '#' then c.skipWhile (!isBreak ·) else c
  match c.rest with
  | [] => some c
  | ch :: _ => if isBreak ch then some c.skipBreak else none

/-- Reads empty lines and the indent of the next line. The indent is `indent` if that is known; then no
more than that is read. The deepest column that has been reached is handed on. -/
def blockBreaks (indent : Option Nat) :
    (fuel : Nat) → Nat → List Char → Cursor → Option (Nat × List Char × Cursor)
  | 0, deepest, breaks, c => some (deepest, breaks, c)
  | fuel + 1, deepest, breaks, c =>
    let spaces := (c.rest.takeWhile (· == ' ')).length
    let c := c.skip (match indent with | some n => min spaces (n - c.column) | none => spaces)
    let deepest := max deepest c.column
    if c.isAt '\t' && indent.all (c.column < ·) then none
    else if c.rest.head?.any isBreak then
      blockBreaks indent fuel deepest (breaks ++ breakText c.rest) c.skipBreak
    else some (deepest, breaks, c)

/-- What the line breaks between two lines stand for. In a folded scalar a single one is a space,
unless one of the lines begins with a blank. -/
def blockJoin (isFolded wasBlank isBlank : Bool) (first more : List Char) : List Char :=
  if isFolded && first == ['\n'] && !wasBlank && !isBlank then
    if more.isEmpty then [' '] else more
  else first ++ more

/-- Reads on in a scalar on lines of its own: the text so far, whether its last line begins with a
blank, and the line breaks after it. -/
def blockFrom (isFolded : Bool) (indent : Nat) :
    (fuel : Nat) → List Char → Bool → List Char → List Char → Cursor →
      Option (List Char × List Char × List Char × Cursor)
  | 0, _, _, _, _, _ => none
  | fuel + 1, text, wasBlank, first, more, c =>
    if c.column == indent && !c.rest.isEmpty then do
      let startsBlank := c.rest.head?.any isBlank
      let line := c.rest.takeWhile (!isBreak ·)
      let text := text ++ blockJoin isFolded wasBlank startsBlank first more ++ line
      let c := c.skip line.length
      let first := breakText c.rest
      let c := c.skipBreak
      let (_, more, c) ← blockBreaks (some indent) (c.rest.length + 1) 0 [] c
      blockFrom isFolded indent fuel text startsBlank first more c
    else some (text, first, more, c)

/-- Reads a scalar on lines of its own, inside a block whose indent is `outer`; the indicator of the
style comes next. -/
def readBlock (isFolded : Bool) (outer : Int) (c : Cursor) : Option (List Char × Cursor) := do
  let (chomping, digit, c) ← blockHeader (c.skip 1)
  let c ← restOfLine c
  let given := digit.map fun n => (max outer 0).toNat + n
  let (deepest, breaks, c) ← blockBreaks given (c.rest.length + 1) 0 [] c
  let indent := given.getD (max (max deepest (outer + 1).toNat) 1)
  let (text, first, more, c) ← blockFrom isFolded indent (c.rest.length + 1) [] false [] breaks c
  match chomping with
  | .strip => some (text, c)
  | .clip => some (text ++ first, c)
  | .keep => some (text ++ first ++ more, c)

end GoOutline.Yaml
