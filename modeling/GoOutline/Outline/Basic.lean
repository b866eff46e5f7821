/-!
# Outlines

An outline is a tree of labelled nodes that can be collapsed; a forest is a list of them.

* `Outline`: a node with its label, its indent, its mark and its children.
* `Forest.flatten`: the nodes that are visible, in the order in which they are shown.
* `Forest.nodeCount`: the number of all nodes.
-/

namespace GoOutline

/-- A labelled node of a tree. The children of a collapsed node are not shown. -/
inductive Outline where
  | node (label : String) (indent : Nat) (isCollapsed : Bool) (children : List Outline)

/-- Several outlines, one below the other. -/
abbrev Forest := List Outline

namespace Outline

instance : Inhabited Outline := ⟨.node "" 0 false []⟩

/-- An expanded node. -/
def branch (label : String) (indent : Nat) (children : List Outline) : Outline :=
  .node label indent false children

/-- An expanded node without children. -/
def leaf (label : String) (indent : Nat) : Outline := .node label indent false []

/-- The label of a node. -/
def label : Outline → String
  | node label _ _ _ => label

/-- The indent of a node. -/
def indent : Outline → Nat
  | node _ indent _ _ => indent

/-- Whether a node is collapsed. -/
def isCollapsed : Outline → Bool
  | node _ _ isCollapsed _ => isCollapsed

/-- The children of a node. -/
def children : Outline → List Outline
  | node _ _ _ children => children

/-- Whether collapsing a node would hide something. -/
def isCollapsible (t : Outline) : Bool := !t.children.isEmpty

/-- A node marked as collapsed or not; a node without children keeps its mark. -/
def setCollapsed (isCollapsed : Bool) : Outline → Outline
  | node label indent c [] => node label indent c []
  | node label indent _ (t :: ts) => node label indent isCollapsed (t :: ts)

/-- A node with its mark inverted; a node without children keeps its mark. -/
def toggle (t : Outline) : Outline := t.setCollapsed (!t.isCollapsed)

end Outline

/-! ### Visible nodes -/

mutual

/-- A node and what is visible below it, from top to bottom. -/
def Outline.flatten : Outline → List Outline
  | .node label indent isCollapsed children =>
    .node label indent isCollapsed children ::
      if isCollapsed then [] else Forest.flatten children

/-- The visible nodes of a forest, from top to bottom. -/
def Forest.flatten : Forest → List Outline
  | [] => []
  | t :: ts => t.flatten ++ Forest.flatten ts

end

mutual

/-- The number of nodes of an outline, hidden ones included. -/
def Outline.nodeCount : Outline → Nat
  | .node _ _ _ children => 1 + Forest.nodeCount children

/-- The number of nodes of a forest, hidden ones included. -/
def Forest.nodeCount : Forest → Nat
  | [] => 0
  | t :: ts => t.nodeCount + Forest.nodeCount ts

end

end GoOutline
