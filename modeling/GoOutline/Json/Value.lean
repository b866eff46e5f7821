/-!
# JSON

* `Value`: JSON values. The numbers are natural ones.
* `quoted`: a text as a JSON string.
* `Value.pretty`: a value on several lines, two spaces for each level.
-/

namespace GoOutline.Json

/-- A JSON value. -/
inductive Value where
  | bool (b : Bool)
  | number (n : Nat)
  | string (s : String)
  | array (items : List Value)
  | object (fields : List (String × Value))

instance : Inhabited Value := ⟨.bool false⟩

/-! ### Strings -/

/-- A hexadecimal digit, in lower case. -/
def hexDigit (n : Nat) : Char := if n < 10 then Char.ofNat (48 + n) else Char.ofNat (87 + n)

/-- A character inside a JSON string. Quotes, backslashes and control characters are escaped. -/
def escaped (c : Char) : List Char :=
  if c = '"' then ['\\', '"']
  else if c = '\\' then ['\\', '\\']
  else if c = '\x08' then ['\\', 'b']
  else if c = '\x0c' then ['\\', 'f']
  else if c = '\n' then ['\\', 'n']
  else if c = '\r' then ['\\', 'r']
  else if c = '\t' then ['\\', 't']
  else if c.toNat < 32 then
    ['\\', 'u', '0', '0', hexDigit (c.toNat / 16), hexDigit (c.toNat % 16)]
  else [c]

/-- A text as a JSON string. -/
def quoted (s : String) : List Char := '"' :: (s.toList.flatMap escaped ++ ['"'])

/-! ### Values -/

/-- A line break and the indent of a level. -/
def newLine (level : Nat) : List Char := '\n' :: List.replicate (2 * level) ' '

mutual

/-- The text of a value at a level. -/
def Value.chars (level : Nat) : Value → List Char
  | .bool true => "true".toList
  | .bool false => "false".toList
  | .number n => (toString n).toList
  | .string s => quoted s
  | .array [] => ['[', ']']
  | .array (v :: more) =>
    '[' :: (newLine (level + 1) ++ v.chars (level + 1) ++ itemChars (level + 1) more
      ++ newLine level ++ [']'])
  | .object [] => ['\x7b', '\x7d']
  | .object ((name, v) :: more) =>
    '\x7b' :: (newLine (level + 1) ++ quoted name ++ [':', ' '] ++ v.chars (level + 1)
      ++ fieldChars (level + 1) more ++ newLine level ++ ['\x7d'])

/-- The text of the further values of an array. -/
def itemChars (level : Nat) : List Value → List Char
  | [] => []
  | v :: more => ',' :: (newLine level ++ v.chars level ++ itemChars level more)

/-- The text of the further fields of an object. -/
def fieldChars (level : Nat) : List (String × Value) → List Char
  | [] => []
  | (name, v) :: more =>
    ',' :: (newLine level ++ quoted name ++ [':', ' '] ++ v.chars level ++ fieldChars level more)

end

/-- The text of a value. -/
def Value.pretty (v : Value) : String := String.ofList (v.chars 0)

end GoOutline.Json
