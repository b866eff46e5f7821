import GoOutline.Automaton.Row
import GoOutline.Token.Word

/-!
# Parse trees

What the parser builds from a text. A tree keeps every character: the text of a tree is the text it
was built from.

* `Leaf`, `Branch`, `Tree`: tokens with the space before them, and nodes with their children.
* `Tree.leafOf`, `Tree.branchOf`: building trees with their measures.
* `Tree.chars`: the characters of a tree.

Besides the nodes of the grammar there are nodes for what the grammar does not allow: a `fault`
wraps text that fits nowhere, `skipped` collects it while the parser looks for a way on, and a leaf
may stand for a missing token or for characters that form none.
-/

namespace GoOutline.Parse

open GoOutline.Grammar GoOutline.Token GoOutline.Automaton

/-- How far a stretch of text reaches. -/
structure Extent where
  chars : Nat := 0
  bytes : Nat := 0
  /-- Number of line breaks. -/
  lines : Nat := 0
deriving DecidableEq, Inhabited

instance : Add Extent :=
  ⟨fun a b => ⟨a.chars + b.chars, a.bytes + b.bytes, a.lines + b.lines⟩⟩

/-- The extent of some characters. -/
def Extent.of (cs : List Char) : Extent :=
  cs.foldl
    (fun e c => ⟨e.chars + 1, e.bytes + c.utf8Size, if c = '\n' then e.lines + 1 else e.lines⟩)
    {}

/-- A token in its place, or characters that form none. -/
structure Leaf where
  token : Option Terminal
  space : List Char
  text : List Char
  /-- It may stand anywhere and belongs to no production. -/
  isExtra : Bool := false
  /-- It is not in the text. -/
  isMissing : Bool := false
  spaceExtent : Extent
  textExtent : Extent
deriving Inhabited

/-- What a node is. -/
inductive Head where
  | nonterminal (n : Nat)
  | fault
  | skipped
deriving DecidableEq, Inhabited

/-- A node without its children. -/
structure Branch where
  head : Head
  /-- The labels of the children that belong to the production, in order. -/
  labels : List Label
  isExtra : Bool := false
  spaceExtent : Extent
  textExtent : Extent
  /-- What the faults in the tree cost. -/
  cost : Nat
  /-- The weight of the reading. -/
  dynamic : Int
  /-- Number of children that show, the children of hidden nodes counted in their place. -/
  shownChildren : Nat
  /-- Number of nodes below that show. -/
  shownBelow : Nat
deriving Inhabited

/-- A parse tree. -/
inductive Tree where
  | leaf (l : Leaf)
  | node (b : Branch) (children : List Tree)
deriving Inhabited

namespace Tree

/-! ### Parts and measures -/

/-- The children. -/
def children : Tree → List Tree
  | leaf _ => []
  | node _ cs => cs

/-- Whether the tree belongs to no production. -/
def isExtra : Tree → Bool
  | leaf l => l.isExtra
  | node b _ => b.isExtra

/-- Whether the tree stands for a token that is not in the text. -/
def isMissing : Tree → Bool
  | leaf l => l.isMissing
  | node _ _ => false

/-- The extent of the space before the tree. -/
def spaceExtent : Tree → Extent
  | leaf l => l.spaceExtent
  | node b _ => b.spaceExtent

/-- The extent of the tree without the space before it. -/
def textExtent : Tree → Extent
  | leaf l => l.textExtent
  | node b _ => b.textExtent

/-- The extent of the tree with the space before it. -/
def extent (t : Tree) : Extent := t.spaceExtent + t.textExtent

/-- The weight of the reading. -/
def dynamic : Tree → Int
  | leaf _ => 0
  | node b _ => b.dynamic

/-- Whether the tree is a fault: text that fits nowhere, or characters that form no token. -/
def isFault : Tree → Bool
  | leaf l => l.token.isNone
  | node b _ => b.head == .fault

/-- Whether the tree is a run of skipped text. -/
def isSkipped : Tree → Bool
  | leaf _ => false
  | node b _ => b.head == .skipped

/-- Whether a token shows in the tree. -/
def showsToken : Terminal → Bool
  | .lineBreak | .endOfInput => false
  | _ => true

/-- Whether the tree shows as a node of its own. -/
def shows : Tree → Bool
  | leaf l => l.token.all showsToken
  | node b _ => match b.head with
    | .nonterminal n => !isHidden n
    | .fault => true
    | .skipped => false

/-- Number of nodes below that show. -/
def shownBelow : Tree → Nat
  | leaf _ => 0
  | node b _ => b.shownBelow

/-- Number of children that show. -/
def shownChildren : Tree → Nat
  | leaf _ => 0
  | node b _ => b.shownChildren

/-- Place of the tree's symbol among all symbols: tokens, nonterminals, and last what is not part
of the grammar. -/
def rank : Tree → Nat
  | leaf l => match l.token with
    | some t => t.rank
    | none => symbolCount + 1
  | node b _ => match b.head with
    | .nonterminal n => Terminal.count + n
    | .skipped => symbolCount
    | .fault => symbolCount + 1

/-! ### The price of faults -/

/-- What one interruption of the reading costs. -/
def costOfFault : Nat := 500

/-- What a missing token costs, beside the interruption. -/
def costOfMissing : Nat := 110

/-- What each skipped node costs. -/
def costOfNode : Nat := 100

/-- What each line of skipped text costs. -/
def costOfLine : Nat := 30

/-- What the faults in the tree cost. -/
def cost : Tree → Nat
  | leaf l => if l.isMissing then costOfFault + costOfMissing else 0
  | node b _ => b.cost

/-- What skipping some text costs: its bytes and lines. -/
def costOfText (e : Extent) : Nat := e.bytes + costOfLine * e.lines

/-- What a child costs when it is skipped, beside its own faults. -/
def costWhenSkipped (t : Tree) : Nat :=
  if t.isExtra || (t.isFault && t.children.isEmpty) then 0
  else if t.shows then costOfNode
  else costOfNode * t.shownChildren

/-! ### Building trees -/

/-- The leaf for a token. -/
def leafOf (token : Option Terminal) (space text : List Char) : Leaf where
  token := token
  space := space
  text := text
  isExtra := token == some .endOfInput
  spaceExtent := .of space
  textExtent := .of text

/-- The leaf for a token that is not in the text. -/
def missing (t : Terminal) : Tree :=
  leaf { leafOf (some t) [] [] with isExtra := false, isMissing := true }

/-- The sum over all trees. -/
def total (f : Tree → Nat) (ts : List Tree) : Nat := ts.foldl (fun n t => n + f t) 0

/-- The node over some children; `dynamic` is the weight that its production adds. -/
def branchOf (head : Head) (labels : List Label) (dynamic : Int) (cs : List Tree) : Tree :=
  let space := match cs with
    | [] => {}
    | c :: _ => c.spaceExtent
  let text := match cs with
    | [] => {}
    | c :: more => more.foldl (fun e t => e + t.extent) c.textExtent
  let isFault := head == .fault || head == .skipped
  node
    { head := head
      labels := labels
      spaceExtent := space
      textExtent := text
      cost := total (fun c => if c.isSkipped then 0 else c.cost) cs
        + if isFault then total costWhenSkipped cs + costOfFault + costOfText text else 0
      dynamic := cs.foldl (fun d c => d + c.dynamic) dynamic
      shownChildren := total (fun c => if c.shows then 1 else c.shownChildren) cs
      shownBelow := total (fun c => c.shownBelow + if c.shows then 1 else 0) cs }
    cs

/-! ### Characters -/

/-- The characters of a tree, before `tail`. -/
def charsBefore : Tree → List Char → List Char
  | leaf l, tail => l.space ++ (l.text ++ tail)
  | node _ cs, tail => go cs tail
where
  /-- The characters of several trees, before `tail`. -/
  go : List Tree → List Char → List Char
    | [], tail => tail
    | c :: cs, tail => charsBefore c (go cs tail)

/-- The characters of a tree. -/
def chars (t : Tree) : List Char := t.charsBefore []

/-- The space before a tree. -/
def space : Tree → List Char
  | leaf l => l.space
  | node _ [] => []
  | node _ (c :: _) => space c

/-- The characters of a tree without the space before it. -/
def text (t : Tree) : List Char := t.chars.drop t.space.length

end Tree

end GoOutline.Parse
