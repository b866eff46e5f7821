import GoOutline.Proofs.Archive.Format
import GoOutline.Syntax.Parse

/-!
# Error messages

An error is told on one line. It quotes the source, but never more than a part of one line.

* `not_mem_snippet`: what is quoted has no line break.
* `not_mem_causeOf`, `not_mem_collect`, `not_mem_fileOf`: the causes that parsing finds.
* `not_mem_text_of_parse`: the whole text of an error.
-/

namespace GoOutline.Syntax

open GoOutline.Grammar (Terminal Role)
open GoOutline.Parse (Fault)

/-! ### Wording -/

theorem not_mem_snippet (text : List Char) : '\n' ∉ (snippet text).toList := by
  have hline : '\n' ∉ Text.trim (text.takeWhile (· ≠ '\n')) := by
    intro hbreak
    have hmem := Archive.subset_trim hbreak
    have hne := List.all_eq_true.mp List.all_takeWhile '\n' hmem
    exact absurd rfl (of_decide_eq_true hne)
  delta snippet
  simp only
  split
  · rw [String.toList_append, String.toList_ofList, List.mem_append, not_or]
    exact ⟨fun hbreak => hline (List.mem_of_mem_take hbreak), by decide⟩
  · rwa [String.toList_ofList]

theorem not_mem_append {s t : String} (hs : '\n' ∉ s.toList) (ht : '\n' ∉ t.toList) :
    '\n' ∉ (s ++ t).toList := by
  rw [String.toList_append, List.mem_append, not_or]
  exact ⟨hs, ht⟩

/-- A text that is quoted stands between fixed texts. -/
theorem not_mem_quoted {before found after : String} (hbefore : '\n' ∉ before.toList)
    (hfound : '\n' ∉ found.toList) (hafter : '\n' ∉ after.toList) :
    '\n' ∉ (before ++ found ++ after).toList :=
  not_mem_append (not_mem_append hbefore hfound) hafter

theorem not_mem_toString (n : Nat) : '\n' ∉ (toString n).toList := by
  intro hbreak
  rw [Nat.toString_eq_ofList_toDigits, String.toList_ofList] at hbreak
  exact absurd (Nat.isDigit_of_mem_toDigits (by omega) (by omega) hbreak) (by decide)

theorem not_mem_kindName {t : Terminal} {role : Option Role} {name : String}
    (h : t.kindName? role = some name) : '\n' ∉ name.toList := by
  unfold Terminal.kindName? at h
  split at h
  case h_1 => split at h <;> cases h <;> decide
  all_goals cases h
  all_goals decide

theorem not_mem_spelling (t : Terminal) : '\n' ∉ (t.spelling?.getD "").toList := by
  cases t <;> decide

/-! ### Causes -/

theorem not_mem_causeOf (fault : Fault) : '\n' ∉ (causeOf fault).message.toList := by
  cases fault with
  | missing t role =>
    rw [causeOf]
    split
    case h_1 name hname =>
      show '\n' ∉ ("expected " ++ name).toList
      exact not_mem_append (by decide) (not_mem_kindName hname)
    case h_2 =>
      show '\n' ∉ ("expected '" ++ t.spelling?.getD "" ++ "'").toList
      exact not_mem_quoted (by decide) (not_mem_spelling t) (by decide)
  | unexpected text =>
    rw [causeOf]
    split
    · decide
    · show '\n' ∉ ("unexpected '" ++ snippet text ++ "'").toList
      exact not_mem_quoted (by decide) (not_mem_snippet text) (by decide)

theorem not_mem_faultIn (text : List Char) : '\n' ∉ (faultIn text).2.message.toList := by
  rw [faultIn]
  cases (treeOf text).bind Parse.Tree.firstFault? with
  | none => decide
  | some fault => exact not_mem_causeOf fault.2

theorem not_mem_collect {items : List Item} {imports : List ImportSpec} {decls : List Decl}
    {place : Nat} {cause : Cause} (h : collect items imports decls = .error (place, cause)) :
    '\n' ∉ cause.message.toList := by
  -- after an item that is collected the error is in the rest; any other item is the error itself
  fun_induction collect items imports decls with
  | case1 => cases h
  | case3 _ _ _ _ _ _ _ _ ih => exact ih h
  | case5 _ _ _ _ _ _ _ ih => exact ih h
  | case7 _ _ _ _ _ _ _ ih => exact ih h
  | case9 _ _ _ _ _ _ _ _ ih => exact ih h
  | case11 _ _ _ _ _ _ _ _ ih => exact ih h
  | case13 _ _ _ _ _ _ _ _ ih => exact ih h
  | case15 i =>
    cases h
    show '\n' ∉ ("expected declaration, found '" ++ snippet i.text ++ "'").toList
    exact not_mem_quoted (by decide) (not_mem_snippet i.text) (by decide)
  | _ =>
    cases h
    decide

theorem not_mem_fileOf {items : List Item} {place : Nat} {cause : Cause}
    (h : fileOf items = .error (place, cause)) : '\n' ∉ cause.message.toList := by
  revert h
  fun_cases fileOf items with
  | case2 i more =>
    intro h
    cases hrun : collect more [] [] with
    | ok result =>
      rw [hrun] at h
      cases h
    | error error =>
      rw [hrun] at h
      cases h
      exact not_mem_collect hrun
  | case4 i =>
    intro h
    cases h
    show '\n' ∉ ("expected 'package', found '" ++ snippet i.text ++ "'").toList
    exact not_mem_quoted (by decide) (not_mem_snippet i.text) (by decide)
  | _ =>
    intro h
    cases h
    decide

theorem not_mem_parseText {text : List Char} {place : Nat} {cause : Cause}
    (h : parseText text = .error (place, cause)) : '\n' ∉ cause.message.toList := by
  rw [parseText] at h
  cases hread : readingOf text with
  | none =>
    rw [hread] at h
    have hfault := not_mem_faultIn text
    rwa [Except.error.inj h] at hfault
  | some reading =>
    rw [hread] at h
    exact not_mem_fileOf h

/-! ### Errors -/

theorem not_mem_located {file message : String} (place : Text.Position)
    (hfile : '\n' ∉ file.toList) (hmessage : '\n' ∉ message.toList) :
    '\n' ∉ (located file place message).toList := by
  have hcolon : '\n' ∉ ":".toList := by decide
  have hline := not_mem_quoted hfile hcolon (not_mem_toString place.line)
  have hcolumn := not_mem_quoted hline hcolon (not_mem_toString place.column)
  exact not_mem_quoted hcolumn (by decide) hmessage

/-- **The text of a syntax error is one line**, if the name of the file is. -/
theorem not_mem_text_of_parse {name source : String} {error : SyntaxError}
    (hname : '\n' ∉ name.toList) (h : parse name source = .error error) :
    '\n' ∉ error.text.toList := by
  delta parse at h
  simp only at h
  cases hfound : parseText source.toList with
  | ok file =>
    rw [hfound] at h
    cases h
  | error found =>
    rw [hfound] at h
    cases h
    exact not_mem_located _ hname (not_mem_parseText hfound)

end GoOutline.Syntax
