import GoOutline.Json.Value
import GoOutline.Text.Hex

/-!
# Reading JSON

A reader for all JSON texts, with every blank, escape and form of number that the format has.

* `Datum`: what a JSON text stands for.
* `readChars`: the rest of a string. A character beyond the first plane may be written as two units.
* `readNumber`: a number, with the digits that it is written in.
* `readValue`, `read?`: a value, and a text that is one value.
-/

namespace GoOutline.Json

open GoOutline.Text (hexNumber?)

/-- What a JSON text stands for. -/
inductive Datum where
  | null
  | bool (b : Bool)
  /-- A number without a fraction and an exponent. -/
  | integer (n : Int)
  /-- Any other number: some digits times a power of ten. -/
  | decimal (digits exponent : Int)
  | string (s : String)
  | array (items : List Datum)
  | object (fields : List (String × Datum))

instance : Inhabited Datum := ⟨.null⟩

/-- Blanks and line breaks between the parts of a text. -/
def isSpace (c : Char) : Bool := c == ' ' || c == '\t' || c == '\n' || c == '\r'

/-- A text without the blanks at its start. -/
def skipSpace (text : List Char) : List Char := text.dropWhile isSpace

/-! ### Strings -/

/-- Four hexadecimal digits. -/
def readUnit : List Char → Option (Nat × List Char)
  | a :: b :: c :: d :: rest => (hexNumber? [a, b, c, d]).map fun n => (n, rest)
  | _ => none

/-- The second of the two units of a character. -/
def readLowUnit : List Char → Option (Nat × List Char)
  | '\\' :: 'u' :: rest => do
    let (n, rest) ← readUnit rest
    if 0xdc00 ≤ n && n ≤ 0xdfff then some (n - 0xdc00, rest) else none
  | _ => none

/-- A character that is written by its number. The units of a pair do not stand alone. -/
def readNumbered (text : List Char) : Option (Char × List Char) := do
  let (n, rest) ← readUnit text
  if 0xd800 ≤ n && n ≤ 0xdbff then
    let (low, rest) ← readLowUnit rest
    some (Char.ofNat (0x10000 + 0x400 * (n - 0xd800) + low), rest)
  else if 0xdc00 ≤ n && n ≤ 0xdfff then none
  else some (Char.ofNat n, rest)

/-- The character that is meant after a backslash. -/
def readEscape : List Char → Option (Char × List Char)
  | '"' :: rest => some ('"', rest)
  | '\\' :: rest => some ('\\', rest)
  | '/' :: rest => some ('/', rest)
  | 'b' :: rest => some ('\x08', rest)
  | 'f' :: rest => some ('\x0c', rest)
  | 'n' :: rest => some ('\n', rest)
  | 'r' :: rest => some ('\r', rest)
  | 't' :: rest => some ('\t', rest)
  | 'u' :: rest => readNumbered rest
  | _ => none

/-- The rest of a string, up to the quote that ends it. Control characters must be escaped. -/
def readChars : (fuel : Nat) → List Char → Option (List Char × List Char)
  | 0, _ => none
  | _, [] => none
  | fuel + 1, c :: rest =>
    if c = '"' then some ([], rest)
    else if c = '\\' then do
      let (c, rest) ← readEscape rest
      let (cs, rest) ← readChars fuel rest
      some (c :: cs, rest)
    else if c.toNat < 32 then none
    else do
      let (cs, rest) ← readChars fuel rest
      some (c :: cs, rest)

/-- The rest of a string. -/
def readString (text : List Char) : Option (String × List Char) :=
  (readChars (text.length + 1) text).map fun (cs, rest) => (String.ofList cs, rest)

/-! ### Numbers -/

/-- The digits before the point. Nothing follows a zero. -/
def wholeDigits : List Char → List Char
  | '0' :: _ => ['0']
  | text => text.takeWhile Char.isDigit

/-- The digits after the point, if there is one. -/
def readFraction : List Char → Option (Option (List Char) × List Char)
  | '.' :: rest =>
    let digits := rest.takeWhile Char.isDigit
    if digits = [] then none else some (some digits, rest.drop digits.length)
  | rest => some (none, rest)

/-- A sign; without one a number is positive. -/
def readSign : List Char → Int × List Char
  | '-' :: rest => (-1, rest)
  | '+' :: rest => (1, rest)
  | rest => (1, rest)

/-- The exponent, if there is one. -/
def readExponent : List Char → Option (Option Int × List Char)
  | [] => some (none, [])
  | c :: rest =>
    if c = 'e' || c = 'E' then
      let (sign, rest) := readSign rest
      let digits := rest.takeWhile Char.isDigit
      if digits = [] then none
      else some (some (sign * Nat.ofDigitChars 10 digits 0), rest.drop digits.length)
    else some (none, c :: rest)

/-- A number without its sign. -/
def readUnsigned (sign : Int) (text : List Char) : Option (Datum × List Char) := do
  let whole := wholeDigits text
  if whole = [] then none
  else
    let (fraction, rest) ← readFraction (text.drop whole.length)
    let (exponent, rest) ← readExponent rest
    let digits := sign * Nat.ofDigitChars 10 (whole ++ fraction.getD []) 0
    match fraction, exponent with
    | none, none => some (.integer digits, rest)
    | _, _ => some (.decimal digits (exponent.getD 0 - (fraction.getD []).length), rest)

/-- A number. It has a minus or no sign. -/
def readNumber : List Char → Option (Datum × List Char)
  | '-' :: rest => readUnsigned (-1) rest
  | rest => readUnsigned 1 rest

/-! ### Values -/

/-- The rest of a text that begins with the given character. -/
def expectChar (c : Char) : List Char → Option (List Char)
  | d :: rest => if d = c then some rest else none
  | [] => none

/-- The name of a field and the colon after it. -/
def readName (text : List Char) : Option (String × List Char) := do
  let rest ← expectChar '"' (skipSpace text)
  let (name, rest) ← readString rest
  let rest ← expectChar ':' (skipSpace rest)
  some (name, rest)

mutual

/-- A value, with the blanks before it. -/
def readValue : (fuel : Nat) → List Char → Option (Datum × List Char)
  | 0, _ => none
  | fuel + 1, text =>
    match skipSpace text with
    | 'n' :: 'u' :: 'l' :: 'l' :: rest => some (.null, rest)
    | 't' :: 'r' :: 'u' :: 'e' :: rest => some (.bool true, rest)
    | 'f' :: 'a' :: 'l' :: 's' :: 'e' :: rest => some (.bool false, rest)
    | '"' :: rest => (readString rest).map fun (s, rest) => (.string s, rest)
    | '[' :: rest =>
      match expectChar ']' (skipSpace rest) with
      | some rest => some (.array [], rest)
      | none => (readItems fuel rest).map fun (items, rest) => (.array items, rest)
    | '\x7b' :: rest =>
      match expectChar '\x7d' (skipSpace rest) with
      | some rest => some (.object [], rest)
      | none => (readFields fuel rest).map fun (fields, rest) => (.object fields, rest)
    | rest => readNumber rest

/-- The items of an array, of which there is at least one, and the bracket after them. -/
def readItems : (fuel : Nat) → List Char → Option (List Datum × List Char)
  | 0, _ => none
  | fuel + 1, text => do
    let (item, rest) ← readValue fuel text
    match skipSpace rest with
    | ',' :: rest =>
      let (items, rest) ← readItems fuel rest
      some (item :: items, rest)
    | ']' :: rest => some ([item], rest)
    | _ => none

/-- The fields of an object, of which there is at least one, and the brace after them. -/
def readFields : (fuel : Nat) → List Char → Option (List (String × Datum) × List Char)
  | 0, _ => none
  | fuel + 1, text => do
    let (name, rest) ← readName text
    let (value, rest) ← readValue fuel rest
    match skipSpace rest with
    | ',' :: rest =>
      let (fields, rest) ← readFields fuel rest
      some ((name, value) :: fields, rest)
    | '\x7d' :: rest => some ([(name, value)], rest)
    | _ => none

end

/-- The value that a text stands for. Nothing but blanks may follow it. -/
def read? (text : String) : Option Datum := do
  let (value, rest) ← readValue (text.toList.length + 1) text.toList
  if skipSpace rest = [] then some value else none

end GoOutline.Json
