import GoOutline.Outline.Basic

/-!
# Places in a forest

* `Path`: the numbers of the children that lead from the roots to a node.
* `Forest.get?`, `Forest.modify`: the node at the end of a path, and a change to it.
* `Forest.locate?`: the path to the visible node with a given number. It is found by counting down
  while walking, without listing the visible nodes.
* `Forest.toggle`, `Forest.setCollapsed`: changes to the mark of the node with a given number.
-/

namespace GoOutline

/-- The way from the roots of a forest to a node: the number of a root, then numbers of children. -/
abbrev Path := List Nat

/-! ### Nodes by path -/

/-- The node below another one at the end of a path. -/
def Outline.get? : Path → Outline → Option Outline
  | [], t => some t
  | i :: path, t => t.children[i]?.bind (Outline.get? path)

/-- The node at the end of a path. There is no node at the end of the empty path. -/
def Forest.get? (f : Forest) : Path → Option Outline
  | [] => none
  | i :: path => f[i]?.bind (Outline.get? path)

/-- A change to the node at the end of a path. -/
def Outline.modify (change : Outline → Outline) : Path → Outline → Outline
  | [], t => change t
  | i :: path, .node label indent isCollapsed children =>
    .node label indent isCollapsed (children.modify i (Outline.modify change path))

/-- A change to the node at the end of a path. -/
def Forest.modify (f : Forest) (change : Outline → Outline) : Path → Forest
  | [] => f
  | i :: path => List.modify f i (Outline.modify change path)

/-! ### Nodes by number -/

/-- How a search for a visible node ends: with a path, or after the last node with a count of the
places still to go. -/
inductive Search where
  | found (path : Path)
  | left (count : Nat)
deriving DecidableEq

mutual

/-- Searches for the node that is `count` places below the given one. -/
def Outline.seek : Outline → Nat → Search
  | .node _ _ _ _, 0 => .found []
  | .node _ _ isCollapsed children, count + 1 =>
    if isCollapsed then .left count else Forest.seek children 0 count

/-- Searches for the node that is `count` places below the first of the given ones, which has the
number `i` among its siblings. -/
def Forest.seek : Forest → Nat → Nat → Search
  | [], _, count => .left count
  | t :: ts, i, count =>
    match t.seek count with
    | .found path => .found (i :: path)
    | .left rest => Forest.seek ts (i + 1) rest

end

/-- The path to the visible node with the given number. -/
def Forest.locate? (f : Forest) (number : Nat) : Option Path :=
  match Forest.seek f 0 number with
  | .found path => some path
  | .left _ => none

/-- The visible node with the given number. -/
def Forest.nodeAt? (f : Forest) (number : Nat) : Option Outline :=
  (f.locate? number).bind (Forest.get? f)

/-- A change to the visible node with the given number. -/
def Forest.modifyAt (f : Forest) (change : Outline → Outline) (number : Nat) : Forest :=
  match f.locate? number with
  | some path => f.modify change path
  | none => f

/-- Inverts the mark of the visible node with the given number. -/
def Forest.toggle (f : Forest) (number : Nat) : Forest := f.modifyAt Outline.toggle number

/-- Marks the visible node with the given number as collapsed or not. -/
def Forest.setCollapsed (f : Forest) (number : Nat) (isCollapsed : Bool) : Forest :=
  f.modifyAt (Outline.setCollapsed isCollapsed) number

end GoOutline
