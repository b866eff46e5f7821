import GoOutline.Yaml.Cursor
import GoOutline.Yaml.Scalar

/-!
# Tokens of YAML

* `Token`: the parts of a YAML text.
* `readName`: the name of an anchor.
* `readTag`: a tag, that is a handle and what follows it.
* `readDirective`: a line that begins with a percent sign.
-/

namespace GoOutline.Yaml

/-- A part of a YAML text. -/
inductive Token where
  | version (major minor : Nat)
  | tagHandle (handle : List Char)
  | documentStart
  | documentEnd
  | sequenceStart
  | mappingStart
  | blockEnd
  | flowSequenceStart
  | flowSequenceEnd
  | flowMappingStart
  | flowMappingEnd
  /-- The dash before an item of a block. -/
  | blockItem
  /-- The comma after an item of a flow collection. -/
  | flowItem
  | key
  | value
  | alias (name : List Char)
  | anchor (name : List Char)
  | tag (handle : List Char)
  | scalar (text : List Char)
deriving DecidableEq

/-! ### Anchors -/

/-- Reads the name of an anchor or of an alias; its sign comes next. -/
def readName (c : Cursor) : Option (List Char × Cursor) :=
  let c := c.skip 1
  let name := c.rest.takeWhile isWordChar
  let c := c.skip name.length
  let isEnded := endsWord c.rest || c.isAtOneOf ['?', ':', ',', ']', '\x7d', '%', '@', '\x60']
  if name.isEmpty || !isEnded then none else some (name, c)

/-! ### Tags -/

/-- The number of bytes that a character takes, by the first of them. -/
def bytesOf (first : Nat) : Nat :=
  if first < 0x80 then 1
  else if 0xc0 ≤ first && first < 0xe0 then 2
  else if 0xe0 ≤ first && first < 0xf0 then 3
  else if 0xf0 ≤ first && first < 0xf8 then 4
  else 0

/-- The byte that is written here as a percent sign and two digits. -/
def escapedByte? : List Char → Option Nat
  | '%' :: a :: b :: _ => hexNumber? [a, b]
  | _ => none

/-- Passes over further bytes of a character. -/
def skipBytes : (count : Nat) → Cursor → Option Cursor
  | 0, c => some c
  | count + 1, c => do
    let byte ← escapedByte? c.rest
    if 0x80 ≤ byte && byte < 0xc0 then skipBytes count (c.skip 3) else none

/-- Passes over a character that is written as bytes. -/
def skipEscaped (c : Cursor) : Option Cursor := do
  let byte ← escapedByte? c.rest
  if bytesOf byte = 0 then none else skipBytes (bytesOf byte - 1) (c.skip 3)

/-- Characters of an address. -/
def isAddressChar (isFull : Bool) (c : Char) : Bool :=
  isWordChar c || [';', '/', '?', ':', '@', '&', '=', '+', '$', '.', '!', '~', '*', '\'', '(',
    ')'].contains c || (isFull && [',', '[', ']'].contains c)

/-- Passes over an address; how many characters it has is handed on. -/
def skipAddress (isFull : Bool) : (fuel : Nat) → Nat → Cursor → Option (Nat × Cursor)
  | 0, count, c => some (count, c)
  | fuel + 1, count, c =>
    if c.isAt '%' then do
      let c ← skipEscaped c
      skipAddress isFull fuel (count + 1) c
    else if c.rest.head?.any (isAddressChar isFull) then
      skipAddress isFull fuel (count + 1) (c.skip 1)
    else some (count, c)

/-- Passes over an address that is not empty, or that follows some characters already read. -/
def readAddress (isFull : Bool) (before : Nat) (c : Cursor) : Option Cursor := do
  let (count, c) ← skipAddress isFull c.rest.length before c
  if count = 0 then none else some c

/-- Reads the handle of a tag: an exclamation mark, or a word between two of them. -/
def readHandle (c : Cursor) : Option (List Char × Cursor) :=
  if c.isAt '!' then
    let name := (c.rest.drop 1).takeWhile isWordChar
    let c := c.skip (name.length + 1)
    if c.isAt '!' then some ('!' :: name ++ ['!'], c.skip 1) else some ('!' :: name, c)
  else none

/-- Whether a handle has an exclamation mark at both ends. -/
def isHandle (handle : List Char) : Bool := 1 < handle.length && handle.getLast? == some '!'

/-- Reads a tag. A full address stands in angle brackets and has no handle. -/
def readTag (inFlow : Bool) (c : Cursor) : Option (List Char × Cursor) := do
  let (handle, c) ←
    if (c.skip 1).isAt '<' then do
      let c ← readAddress true 0 (c.skip 2)
      if c.isAt '>' then some ([], c.skip 1) else none
    else do
      let (handle, c) ← readHandle c
      if isHandle handle then
        let c ← readAddress false 0 c
        some (handle, c)
      else
        let c' ← readAddress false handle.length c
        some (if handle.length = 1 && c'.index = c.index then [] else ['!'], c')
  if endsWord c.rest || (inFlow && c.isAt ',') then some (handle, c) else none

/-! ### Directives -/

/-- Reads a part of a version number. -/
def readNumber (c : Cursor) : Option (Nat × Cursor) :=
  let digits := c.rest.takeWhile Char.isDigit
  if digits.isEmpty || 9 < digits.length then none
  else some (digits.foldl (fun n d => 10 * n + (d.toNat - 48)) 0, c.skip digits.length)

/-- Reads the version of a version directive. -/
def readVersion (c : Cursor) : Option (Token × Cursor) := do
  let (major, c) ← readNumber (c.skipWhile isBlank)
  if c.isAt '.' then
    let (minor, c) ← readNumber (c.skip 1)
    some (.version major minor, c)
  else none

/-- Reads the handle and the address of a tag directive. -/
def readTagHandle (c : Cursor) : Option (Token × Cursor) := do
  let (handle, c) ← readHandle (c.skipWhile isBlank)
  if handle = ['!'] || isHandle handle then
    if c.rest.head?.any isBlank then
      let c ← readAddress true 0 (c.skipWhile isBlank)
      if endsWord c.rest then some (.tagHandle handle, c) else none
    else none
  else none

/-- Reads a directive; the percent sign comes next. -/
def readDirective (c : Cursor) : Option (Token × Cursor) := do
  let c := c.skip 1
  let name := c.rest.takeWhile isWordChar
  let c := c.skip name.length
  if name.isEmpty || !endsWord c.rest then none
  else
    let (token, c) ←
      if name = "YAML".toList then readVersion c
      else if name = "TAG".toList then readTagHandle c
      else none
    let c ← restOfLine c
    some (token, c)

end GoOutline.Yaml
