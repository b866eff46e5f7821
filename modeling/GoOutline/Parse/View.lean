import GoOutline.Parse.Tree
import GoOutline.Syntax.Concrete

/-!
# What shows of a parse tree

* `Tree.view`: the nodes of a tree that show, with their fields.
* `Tree.items`: the trees that show at the top level, each with the place where it begins.
* `Fault`, `Tree.firstFault?`: the first thing in a tree that does not fit the grammar.
-/

namespace GoOutline.Parse

open GoOutline.Grammar GoOutline.Automaton GoOutline.Syntax

/-- The label of a child that has none. -/
def Label.none : Label := ⟨Option.none, Option.none, false⟩

namespace Tree

mutual

/-- The nodes of a tree that show. The children of a hidden node stand in its place, and get its
field unless they have one of their own. -/
def view (field : Option Grammar.Field) (label : Label) : Tree → List Child
  | leaf l =>
    match l.token with
    | some t =>
      if showsToken t then
        [(label.field <|> field, .leaf (.token t label.role) (String.ofList l.text))]
      else []
    | none => []
  | node b children =>
    let field := label.field <|> field
    match b.head with
    | .nonterminal n =>
      if b.isExtra then []
      else if isHidden n then viewAll field b.labels children
      else
        let rule := RuleName.ofNat n
        if isLiteral rule then
          [(field, .leaf (.rule rule) (String.ofList (text (node b children))))]
        else [(field, .branch rule (viewAll Option.none b.labels children))]
    | _ => []

/-- `view` for several trees; those that belong to the production have a label each, and comments
have none. -/
def viewAll (field : Option Grammar.Field) : List Label → List Tree → List Child
  | _, [] => []
  | labels, t :: more =>
    if t.isExtra then view Option.none Label.none t ++ viewAll field labels more
    else
      match labels with
      | [] => view field Label.none t ++ viewAll field [] more
      | label :: labels => view field label t ++ viewAll field labels more

end

/-! ### The top level -/

mutual

/-- The trees that show in a tree, each with its place: the number of characters before it. The tree
with the space before it begins at `place`. -/
def shown (place : Nat) : Tree → List (Nat × Tree)
  | leaf l => if l.token.all showsToken then [(place + l.space.length, leaf l)] else []
  | node b children =>
    if shows (node b children) then [(place + (node b children).space.length, node b children)]
    else shownAll place children

/-- `shown` for several trees, one after the other. -/
def shownAll (place : Nat) : List Tree → List (Nat × Tree)
  | [] => []
  | t :: more => shown place t ++ shownAll (place + t.chars.length) more

end

mutual

/-- Whether every terminator in the tree has a character of its own. -/
def isClosed : Tree → Bool
  | leaf l => l.token != some .nul || !l.text.isEmpty
  | node _ children => allClosed children

/-- Whether all trees are closed. -/
def allClosed : List Tree → Bool
  | [] => true
  | t :: more => isClosed t && allClosed more

end

/-- Whether a tree is a node of the grammar, or a token with a name of its own. -/
def isNamed : Tree → Bool
  | leaf l => l.token.any Terminal.isNamed
  | node b _ => b.head matches .nonterminal _

/-- The named trees that show at the top level, comments left out, each with its place. -/
def items (t : Tree) : List (Nat × Tree) :=
  (shownAll 0 t.children).filter fun (_, t) => !t.isExtra && t.isNamed

end Tree

/-! ### Faults -/

/-- What does not fit the grammar. -/
inductive Fault where
  /-- A token is missing. -/
  | missing (t : Terminal) (role : Option Role)
  /-- There is text that fits nowhere. -/
  | unexpected (text : List Char)
deriving DecidableEq

namespace Tree

mutual

/-- The first fault in a tree that shows, with its place. -/
def faultIn (place : Nat) (label : Label) : Tree → Option (Nat × Fault)
  | leaf l =>
    match l.token with
    | none => some (place + l.spaceExtent.chars, .unexpected l.text)
    | some t =>
      if l.isMissing && showsToken t then
        some (place + l.spaceExtent.chars, .missing t label.role)
      else none
  | node b children =>
    if b.head = .fault then
      some (place + b.spaceExtent.chars, .unexpected (text (node b children)))
    else if b.cost = 0 then none
    else faultAmong place b.labels children

/-- `faultIn` for several trees, one after the other. -/
def faultAmong (place : Nat) : List Label → List Tree → Option (Nat × Fault)
  | _, [] => none
  | labels, t :: more =>
    let after := place + t.extent.chars
    if t.isExtra then faultIn place Label.none t <|> faultAmong after labels more
    else
      match labels with
      | [] => faultIn place Label.none t <|> faultAmong after [] more
      | label :: labels => faultIn place label t <|> faultAmong after labels more

end

/-- The first fault in a tree, with its place. -/
def firstFault? (t : Tree) : Option (Nat × Fault) := t.faultIn 0 Label.none

end Tree

end GoOutline.Parse
