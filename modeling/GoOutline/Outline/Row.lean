import GoOutline.Outline.Basic

/-!
# Rows

The lines in which a forest is shown.

* `Row`: a line with its indent, the mark of its node and its number.
* `Forest.rows`: the rows of the visible nodes.
-/

namespace GoOutline

/-- One line of a shown forest. -/
structure Row where
  text : String
  indent : Nat
  isCollapsed : Bool
  /-- The number of the row, from zero. -/
  value : Nat
deriving DecidableEq, Inhabited

/-- What stands before a label: a sign that tells whether a node with children is collapsed. -/
def Outline.marker (t : Outline) : String :=
  if t.isCollapsible then
    if t.isCollapsed then "[+] " else "[-] "
  else "    "

/-- The row with the given number that shows a node. -/
def Outline.row (value : Nat) (t : Outline) : Row :=
  ⟨t.marker ++ t.label, t.indent, t.isCollapsed, value⟩

/-- The rows of the visible nodes, from top to bottom. -/
def Forest.rows (f : Forest) : List Row := (Forest.flatten f).mapIdx Outline.row

end GoOutline
