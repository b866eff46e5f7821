import GoOutline.Grammar.Go

/-!
# Concrete syntax

The nodes of a source text that show, and whether they fit the grammar.

* `Node`, `Child`: a node with its children; a child may have a field.
* `Node.bare`: a node without the comments in it.
* `Node.fold`: works out a value for a node from the values of its children.
* `restsOf`: what a right-hand side leaves of a list of children.
* `Node.conforms`: every node has children that its rule allows.

Hidden rules have no nodes: their parts stand in their place. Comments are nodes that may stand
anywhere among the children of a node. White space is left out, and a string literal is one leaf.
-/

namespace GoOutline.Syntax

open GoOutline.Grammar

/-- What a node is. -/
inductive Kind where
  | token (t : Terminal) (role : Option Role)
  | rule (n : RuleName)
deriving DecidableEq

/-- A node that shows. -/
inductive Node where
  | leaf (kind : Kind) (text : String)
  | branch (rule : RuleName) (children : List (Option Grammar.Field × Node))

instance : Inhabited Node := ⟨.branch .sourceFile []⟩

/-- A node with the field it has in its parent. -/
abbrev Child := Option Grammar.Field × Node

namespace Node

/-- What the node is. -/
def kind : Node → Kind
  | leaf kind _ => kind
  | branch rule _ => .rule rule

/-- Whether the node is a comment. -/
def isComment (node : Node) : Bool := node.kind = .token .comment none

mutual

/-- The node without the comments in it. -/
def bare : Node → Node
  | leaf kind text => leaf kind text
  | branch rule children => branch rule (bareAll children)

/-- The children without the comments among them and in them. -/
def bareAll : List (Option Grammar.Field × Node) → List (Option Grammar.Field × Node)
  | [] => []
  | (field, node) :: more =>
    if field.isNone && node.isComment then bareAll more else (field, bare node) :: bareAll more

end

section

variable {α : Type} (ofLeaf : Kind → String → α)
  (ofBranch : RuleName → List (Option Grammar.Field × α) → α)

mutual

/-- Works out a value for a node from the values of its children. -/
def fold : Node → α
  | leaf kind text => ofLeaf kind text
  | branch rule children => ofBranch rule (foldChildren children)

/-- `fold` for each child. -/
def foldChildren : List (Option Grammar.Field × Node) → List (Option Grammar.Field × α)
  | [] => []
  | (field, node) :: more => (field, fold node) :: foldChildren more

end

end

end Node

/-! ### Fitting a rule -/

/-- Keeps one of several lists of the same length. -/
def distinct (lists : List (List Child)) : List (List Child) :=
  lists.foldr (fun cs kept => if kept.any (·.length == cs.length) then kept else cs :: kept) []

/-- What remains after one or more rounds of `step`. -/
def restsOfMany (step : List Child → List (List Child)) :
    (fuel : Nat) → List (List Child) → List (List Child)
  | 0, _ => []
  | fuel + 1, now =>
    match distinct (now.flatMap step) with
    | [] => []
    | next => next ++ restsOfMany step fuel next

/-- What remains after one child of the given kind and field. -/
def restOfOne (kind : Kind) (field : Option Grammar.Field) : List Child → List (List Child)
  | [] => []
  | (f, node) :: more => if f = field ∧ node.kind = kind then [more] else []

/-- What a right-hand side leaves of a list of children, in all possible ways. `hidden` says what a
hidden rule leaves; `field` and `role` are the labels in force. A line break does not show. -/
def restsOf (hidden : RuleName → Option Grammar.Field → List Child → List (List Child)) :
    Rule → (field : Option Grammar.Field) → (role : Option Role) → List Child → List (List Child)
  | .empty, _, _, cs => [cs]
  | .token .lineBreak, _, _, cs => [cs]
  | .token t, field, role, cs => restOfOne (.token t role) field cs
  | .rule n, field, _, cs =>
    if n.isHidden then hidden n field cs else restOfOne (.rule n) field cs
  | .seq a b, field, role, cs =>
    (distinct (restsOf hidden a field role cs)).flatMap (restsOf hidden b field role)
  | .alt a b, field, role, cs => restsOf hidden a field role cs ++ restsOf hidden b field role cs
  | .many1 r, field, role, cs => restsOfMany (restsOf hidden r field role) (cs.length + 1) [cs]
  | .field f r, _, role, cs => restsOf hidden r (some f) role cs
  | .role k r, field, _, cs => restsOf hidden r field (some k) cs
  | .prec _ _ r, field, role, cs => restsOf hidden r field role cs
  | .dynamic _ r, field, role, cs => restsOf hidden r field role cs

/-- What a hidden rule leaves. Hidden rules are nested at most `depth` deep. -/
def restsOfHidden : (depth : Nat) → RuleName → Option Grammar.Field → List Child →
    List (List Child)
  | 0, _, _, _ => []
  | depth + 1, n, field, cs => restsOf (restsOfHidden depth) n.body field none cs

/-- No hidden rule is nested deeper in hidden rules. -/
def hiddenDepth : Nat := 3

/-- Whether a rule allows a list of children. -/
def allows (n : RuleName) (cs : List Child) : Bool :=
  (restsOf (restsOfHidden hiddenDepth) n.body none none cs).any List.isEmpty

/-- Whether a rule gives one leaf, whatever its parts are. -/
def isLiteral : RuleName → Bool
  | .rawStringLiteral | .interpretedStringLiteral => true
  | _ => false

/-- Whether a rule gives nodes with children that stand inside a file. -/
def isInner (n : RuleName) : Bool := !n.isHidden && !isLiteral n && n != .sourceFile

namespace Node

mutual

/-- Whether every node has children that its rule allows. -/
def conforms : Node → Bool
  | leaf (.token _ _) _ => true
  | leaf (.rule n) _ => isLiteral n
  | branch n children => isInner n && allows n children && conformAll children

/-- Whether all children conform. -/
def conformAll : List (Option Grammar.Field × Node) → Bool
  | [] => true
  | (_, node) :: more => conforms node && conformAll more

end

end Node

end GoOutline.Syntax
