/-!
# Texts that look like other values

A text such as `true` or `5` has to be quoted, so that it is not taken for another value.

* `isNullLike`, `isBoolLike`, `isIntegerLike`, `isFloatLike`: texts that look like other values.
* `isLookalike`: all of them.
-/

namespace GoOutline.Yaml

/-! ### Words -/

/-- Texts that stand for no value. -/
def isNullLike (text : List Char) : Bool :=
  text.isEmpty || ["null", "Null", "NULL", "~"].contains (String.ofList text)

/-- Texts that stand for a truth value. -/
def isBoolLike (text : List Char) : Bool :=
  ["y", "Y", "yes", "Yes", "YES", "n", "N", "no", "No", "NO", "true", "True", "TRUE", "false",
    "False", "FALSE", "on", "On", "ON", "off", "Off", "OFF"].contains (String.ofList text)

/-! ### Integers -/

/-- The value of a digit, at most that of `z`. -/
def digitValue (c : Char) : Nat :=
  if c.isDigit then c.toNat - 48
  else if 'a' ≤ c && c ≤ 'z' then c.toNat - 87
  else if 'A' ≤ c && c ≤ 'Z' then c.toNat - 55
  else 36

/-- The value of a number in some base. -/
def numeral? (base : Nat) (digits : List Char) : Option Nat :=
  if digits.isEmpty || digits.any (base ≤ digitValue ·) then none
  else some (digits.foldl (fun n c => base * n + digitValue c) 0)

/-- The base and the digits of a number without its sign. -/
def basedDigits : List Char → Nat × List Char
  | '0' :: 'x' :: digits => (16, digits)
  | '0' :: 'o' :: digits => (8, digits)
  | '0' :: 'b' :: digits => (2, digits)
  | digits => (10, digits)

/-- Whether a text is a number in some base that is less than the given one. -/
def isBelow (limit : Nat) (text : List Char) : Bool :=
  let (base, digits) := basedDigits text
  (numeral? base digits).any (· < limit)

/-- A text without the sign before it. -/
def unsigned : List Char → List Char
  | '+' :: rest => rest
  | '-' :: rest => rest
  | text => text

/-- Digits that begin with a zero; they are no number. -/
def isZeroPadded (text : List Char) : Bool :=
  match unsigned text with
  | '0' :: c :: rest => (c :: rest).all Char.isDigit
  | _ => false

/-- Texts that stand for an integer. -/
def isIntegerLike (text : List Char) : Bool :=
  !isZeroPadded text &&
    match text with
    | '-' :: rest => isBelow (Nat.pow 2 127 + 1) rest
    | '+' :: rest => isBelow (Nat.pow 2 128) rest
    | rest => isBelow (Nat.pow 2 128) rest

/-! ### Floating-point numbers -/

/-- The exponent at the end of a number; an absent one is zero. -/
def exponent? : List Char → Option Int
  | [] => some 0
  | c :: rest =>
    if c == 'e' || c == 'E' then
      match rest with
      | '-' :: digits => (numeral? 10 digits).map fun n => -(n : Int)
      | '+' :: digits => (numeral? 10 digits).map fun n => (n : Int)
      | digits => (numeral? 10 digits).map fun n => (n : Int)
    else none

/-- The digits of a number without its sign and the exponent that belongs to them: the number is that
many times a power of ten. -/
def decimal? (text : List Char) : Option (Nat × Int) := do
  let whole := text.takeWhile Char.isDigit
  let rest := text.dropWhile Char.isDigit
  let (fraction, rest) := match rest with
    | '.' :: rest => (rest.takeWhile Char.isDigit, rest.dropWhile Char.isDigit)
    | rest => ([], rest)
  let n ← numeral? 10 (whole ++ fraction)
  let e ← exponent? rest
  some (n, e - fraction.length)

/-- Whether a number is small enough for a double: the numbers from here on are rounded to infinity. -/
def fitsDouble (n : Nat) (exponent : Int) : Bool :=
  let places : Int := (Nat.toDigits 10 n).length + exponent
  if n = 0 || places < 300 then true
  else if 320 < places then false
  else
    let limit := Nat.pow 2 1024 - Nat.pow 2 970
    if 0 ≤ exponent then n * Nat.pow 10 exponent.toNat < limit
    else n < limit * Nat.pow 10 (-exponent).toNat

/-- Texts that stand for a floating-point number. -/
def isFloatLike (text : List Char) : Bool :=
  [".inf", ".Inf", ".INF", "+.inf", "+.Inf", "+.INF", "-.inf", "-.Inf", "-.INF", ".nan", ".NaN",
    ".NAN"].contains (String.ofList text)
    || (decimal? (unsigned text)).any fun (n, e) => fitsDouble n e

/-! ### All of them -/

/-- Texts that look like another value. -/
def isLookalike (text : List Char) : Bool :=
  isNullLike text || isBoolLike text || isIntegerLike text || isFloatLike text || isZeroPadded text

end GoOutline.Yaml
