/-!
# Positions

Places in a text as people count them.

* `Position`: line and column, both from one; columns count bytes.
* `Position.after`: the place where a text has come to.
-/

namespace GoOutline.Text

/-- A place in a text. -/
structure Position where
  line : Nat := 1
  column : Nat := 1
deriving DecidableEq, Inhabited

/-- The place after one more character. -/
def Position.next (p : Position) (c : Char) : Position :=
  if c = '\n' then ⟨p.line + 1, 1⟩ else ⟨p.line, p.column + c.utf8Size⟩

/-- The place after some characters. -/
def Position.after (cs : List Char) : Position := cs.foldl Position.next {}

end GoOutline.Text
