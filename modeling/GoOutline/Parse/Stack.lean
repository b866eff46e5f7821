import GoOutline.Parse.Tree

/-!
# Stacks with several ways down

The stack of a shift-reduce parser, where several readings of a text share what they have in common.

* `Entry`: a tree on a stack, with the comments before it.
* `Stack`: a state and a place, and the ways that led there.
* `Stack.walk`: all ways past some entries.
* `Stack.reduce`: the stacks with a production built.
* `Stack.join`: two stacks that have come to the same point become one.

A comment may stand between any two tokens and belongs to no production. The comments between the
parts of a node are children of the node, and those before its first part stay before the node.
-/

namespace GoOutline.Parse

open GoOutline.Grammar GoOutline.Automaton

/-- A tree that has been built, with the comments before it. -/
structure Entry where
  comments : List Tree
  tree : Tree

namespace Entry

/-- The comments before the first of some entries. -/
def commentsBefore : List Entry → List Tree
  | [] => []
  | e :: _ => e.comments

/-- The children of the node over some entries: their trees and the comments between them. -/
def childrenOf : List Entry → List Tree
  | [] => []
  | e :: more => e.tree :: more.flatMap fun f => f.comments ++ [f.tree]

/-- The entry for the production of an item over its parts. -/
def build (i : Item) (parts : List Entry) : Entry where
  comments := commentsBefore parts
  tree := .branchOf (.nonterminal i.lhs) (i.seen.reverse.map labelOf) i.production.dynamic
    (childrenOf parts)

end Entry

/-- A stack: the state it is in, the length of the text after it, and the entries on top, each with
what is below it. -/
inductive Stack where
  | node (state : ItemSet) (left : Nat) (ways : List (Entry × Stack))

/-- An entry with the stack below it. -/
abbrev Way := Entry × Stack

namespace Stack

/-- The state the stack is in. -/
def state : Stack → ItemSet
  | node state _ _ => state

/-- The length of the text after the stack. -/
def left : Stack → Nat
  | node _ left _ => left

/-- The ways down. -/
def ways : Stack → List Way
  | node _ _ ways => ways

/-- The stack at the start of a text. -/
def bottom (left : Nat) : Stack := node .start left []

/-- The stack with one more entry. -/
def push (s : Stack) (x : Grammar.Symbol) (e : Entry) (left : Nat) : Stack :=
  node (s.state.advance x) left [(e, s)]

/-- Whether two stacks have come to the same point. -/
def alike (a b : Stack) : Bool := a.left == b.left && decide (a.state = b.state)

/-- All ways past the given number of entries: the entries passed, in the order of the text, and what
is below them. -/
def walk : (count : Nat) → (passed : List Entry) → Stack → List (List Entry × Stack)
  | 0, passed, s => [(passed, s)]
  | count + 1, passed, s => s.ways.flatMap fun (e, below) => walk count (e :: passed) below

/-- Adds a way to others. Of two trees of one symbol over the same point the heavier stays, and if
they weigh the same, the first. -/
def addWay : List Way → Way → List Way
  | [], w => [w]
  | v :: more, w =>
    if v.1.tree.rank == w.1.tree.rank && v.2.alike w.2 then
      (if v.1.tree.dynamic < w.1.tree.dynamic then w else v) :: more
    else v :: addWay more w

/-- The stacks with the production of a complete item built, in all ways. -/
def reduce (s : Stack) (i : Item) : List Stack :=
  let built := (s.walk i.seen.length []).map fun (parts, below) => (Entry.build i parts, below)
  (built.foldl addWay []).map fun (e, below) => below.push (.nonterminal i.lhs) e s.left

/-- Two stacks that have come to the same point, as one. -/
def join (a b : Stack) : Stack := node a.state a.left (b.ways.foldl addWay a.ways)

/-- No stack should have more ways down than this. -/
def maxWays : Nat := 8

/-- Whether a stack has too many ways down. -/
def isWide (s : Stack) : Bool := maxWays < s.ways.length

end Stack

end GoOutline.Parse
