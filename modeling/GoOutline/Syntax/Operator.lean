/-!
# Operators

The operators and branch words of Go.

* `Operator`: the operators.
* `Operator.text`, `Operator.ofText?`: their spelling.
* `Operator.name`: their names.
-/

namespace GoOutline.Syntax

/-- An operator, or a word that names a branch. -/
inductive Operator where
  | add | sub | mul | quo | rem | and | or | xor | shl | shr | andNot
  | addAssign | subAssign | mulAssign | quoAssign | remAssign | andAssign | orAssign | xorAssign
  | shlAssign | shrAssign | andNotAssign
  | lAnd | lOr | arrow | inc | dec | eql | lss | gtr | assign | not | neq | leq | geq | define
  | tilde | break_ | continue_ | goto | fallthrough
deriving DecidableEq, Inhabited

namespace Operator

/-- All operators. -/
def all : List Operator := [
  add, sub, mul, quo, rem, and, or, xor, shl, shr, andNot,
  addAssign, subAssign, mulAssign, quoAssign, remAssign, andAssign, orAssign, xorAssign,
  shlAssign, shrAssign, andNotAssign,
  lAnd, lOr, arrow, inc, dec, eql, lss, gtr, assign, not, neq, leq, geq, define,
  tilde, break_, continue_, goto, fallthrough]

/-- How an operator is written. -/
def text : Operator → String
  | add => "+" | sub => "-" | mul => "*" | quo => "/" | rem => "%" | and => "&" | or => "|"
  | xor => "^" | shl => "<<" | shr => ">>" | andNot => "&^"
  | addAssign => "+=" | subAssign => "-=" | mulAssign => "*=" | quoAssign => "/="
  | remAssign => "%=" | andAssign => "&=" | orAssign => "|=" | xorAssign => "^="
  | shlAssign => "<<=" | shrAssign => ">>=" | andNotAssign => "&^="
  | lAnd => "&&" | lOr => "||" | arrow => "<-" | inc => "++" | dec => "--" | eql => "=="
  | lss => "<" | gtr => ">" | assign => "=" | not => "!" | neq => "!=" | leq => "<="
  | geq => ">=" | define => ":=" | tilde => "~" | break_ => "break" | continue_ => "continue"
  | goto => "goto" | fallthrough => "fallthrough"

/-- The operator with the given spelling. -/
def ofText? (s : String) : Option Operator := all.find? (·.text == s)

/-- The name of an operator. -/
def name : Operator → String
  | add => "Add" | sub => "Sub" | mul => "Mul" | quo => "Quo" | rem => "Rem" | and => "And"
  | or => "Or" | xor => "Xor" | shl => "Shl" | shr => "Shr" | andNot => "AndNot"
  | addAssign => "AddAssign" | subAssign => "SubAssign" | mulAssign => "MulAssign"
  | quoAssign => "QuoAssign" | remAssign => "RemAssign" | andAssign => "AndAssign"
  | orAssign => "OrAssign" | xorAssign => "XorAssign" | shlAssign => "ShlAssign"
  | shrAssign => "ShrAssign" | andNotAssign => "AndNotAssign" | lAnd => "LAnd" | lOr => "LOr"
  | arrow => "Arrow" | inc => "Inc" | dec => "Dec" | eql => "Eql" | lss => "Lss" | gtr => "Gtr"
  | assign => "Assign" | not => "Not" | neq => "Neq" | leq => "Leq" | geq => "Geq"
  | define => "Define" | tilde => "Tilde" | break_ => "Break" | continue_ => "Continue"
  | goto => "Goto" | fallthrough => "Fallthrough"

end Operator

end GoOutline.Syntax
