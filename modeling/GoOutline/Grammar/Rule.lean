import GoOutline.Grammar.Symbol

/-!
# Rules with regular right-hand sides

A grammar rule is a regular expression over tokens and rule names, with marks that say how a child
is labelled (`field`, `role`) and how competing readings are settled (`prec`, `dynamic`).

* `Rule`: the expressions.
* `Rule.alternatives`: the plain sequences that an expression stands for, each with its marks; a
  repetition is still one item of such a sequence.
-/

namespace GoOutline.Grammar

/-- Which way a rule leans where it could either end or go on. -/
inductive Assoc where
  | left | right
deriving DecidableEq

/-- A regular right-hand side. -/
inductive Rule where
  | empty
  | token (t : Terminal)
  | rule (n : RuleName)
  | seq (a b : Rule)
  | alt (a b : Rule)
  /-- One or more times. -/
  | many1 (r : Rule)
  /-- The children matched by `r` play the part `f`. -/
  | field (f : Field) (r : Rule)
  /-- The identifiers matched by `r` stand for `k`. -/
  | role (k : Role) (r : Rule)
  /-- Precedence that settles, ahead of any reading, whether `r` ends or goes on. -/
  | prec (p : Int) (a : Option Assoc) (r : Rule)
  /-- Weight that `r` adds to a reading. -/
  | dynamic (d : Int) (r : Rule)
deriving DecidableEq

namespace Rule

/-! ### Building blocks -/

/-- All of the rules, one after the other. -/
def chain : List Rule → Rule
  | [] => empty
  | [r] => r
  | r :: rs => seq r (chain rs)

/-- One of the rules. -/
def oneOf : List Rule → Rule
  | [] => empty
  | [r] => r
  | r :: rs => alt r (oneOf rs)

/-- The rule or nothing. -/
def opt (r : Rule) : Rule := alt r empty

/-- The rule any number of times. -/
def many (r : Rule) : Rule := alt (many1 r) empty

/-- One or more `r` with `sep` between them. -/
def sep1 (r sep : Rule) : Rule := seq r (many (seq sep r))

/-- One or more `r` with commas between them. -/
def commas1 (r : Rule) : Rule := sep1 r (token .comma)

/-- Any number of `r` with commas between them. -/
def commas (r : Rule) : Rule := opt (commas1 r)

/-- Any number of `r` with `sep` between them and perhaps one after the last. -/
def sepTrailing (r sep : Rule) : Rule := opt (chain [r, many (seq sep r), opt sep])

/-- `r` with a precedence. -/
def rank (p : Int) (r : Rule) : Rule := prec p none r

/-- `r` ends where it could go on. -/
def left (p : Int) (r : Rule) : Rule := prec p (some .left) r

/-- `r` goes on where it could end. -/
def right (p : Int) (r : Rule) : Rule := prec p (some .right) r

/-! ### The sequences a rule stands for -/

end Rule

/-- What one place of a sequence holds. -/
inductive Atom where
  | token (t : Terminal)
  | rule (n : RuleName)
  /-- One or more times the given rule. -/
  | many (r : Rule)
deriving DecidableEq

/-- One place of a sequence with its labels. -/
structure Place where
  atom : Atom
  field : Option Field
  role : Option Role
deriving DecidableEq

/-- A plain sequence with the marks that govern it as a whole. -/
structure Alternative where
  places : List Place
  prec : Int
  assoc : Option Assoc
  dynamic : Int
deriving DecidableEq

/-- The labels and precedence in force around a part of a rule. -/
structure Surroundings where
  field : Option Field := none
  role : Option Role := none
  prec : Int := 0
  assoc : Option Assoc := none

/-- The heavier of two weights, the first if they weigh the same. -/
def heavier (d e : Int) : Int := if d.natAbs < e.natAbs then e else d

/-- Two sequences one after the other; the precedence is that of the last place. -/
def Alternative.append (x y : Alternative) : Alternative :=
  if y.places.isEmpty then
    { x with dynamic := heavier x.dynamic y.dynamic }
  else
    { y with places := x.places ++ y.places, dynamic := heavier x.dynamic y.dynamic }

/-- The plain sequences of a rule, in order, repeated ones included. The innermost label and the
innermost precedence hold, and of several weights the heaviest. -/
def Rule.expand (around : Surroundings) : Rule → List Alternative
  | .empty => [⟨[], around.prec, around.assoc, 0⟩]
  | .token t => [⟨[⟨.token t, around.field, around.role⟩], around.prec, around.assoc, 0⟩]
  | .rule n => [⟨[⟨.rule n, around.field, around.role⟩], around.prec, around.assoc, 0⟩]
  | .many1 r => [⟨[⟨.many r, around.field, around.role⟩], around.prec, around.assoc, 0⟩]
  | .seq a b =>
    let ys := expand around b
    (expand around a).flatMap fun x => ys.map x.append
  | .alt a b => expand around a ++ expand around b
  | .field f r => expand { around with field := some f } r
  | .role k r => expand { around with role := some k } r
  | .prec p none r => expand { around with prec := p } r
  | .prec p (some a) r => expand { around with prec := p, assoc := some a } r
  | .dynamic d r => (expand around r).map fun x => { x with dynamic := heavier d x.dynamic }

/-- The plain sequences of a rule, each once, in order. -/
def Rule.alternatives (r : Rule) : List Alternative := (r.expand {}).eraseDups

end GoOutline.Grammar
