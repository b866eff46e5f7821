import GoOutline.Proofs.Outline.Declarations
import GoOutline.Proofs.Outline.Rows
import GoOutline.Source

/-!
# The forest of an archive

Every file of an archive with the right ending has one root in the forest, and the root depends on
that file alone. Whatever is collapsed and expanded afterwards, the rows of the forest make an
outline and say what is visible.

* `rootsIn`: the roots that an archive has; there are none if there is nothing to show.
* `rootsIn_eq_map`, `forestOf_eq_ok_iff`, `forestOf_eq_error_iff`: the forest in terms of its roots.
* `isLaidOut_of_forestOf`: the forest of an archive is laid out.
* `isOutline_rows_run`: the rows after any steps, for all archives.
-/

namespace GoOutline

/-! ### Roots -/

/-- The roots of the forest of an archive; none if no file has the right ending. -/
def rootsIn (ending blob : String) : Forest := (forestOf ending blob).toOption.getD []

theorem rootsIn_eq_map (ending blob : String) :
    rootsIn ending blob = ((Archive.parse blob).matching ending).map Entry.outline := by
  delta rootsIn forestOf
  cases ((Archive.parse blob).matching ending).map Entry.outline <;> rfl

theorem forestOf_eq_ok_iff (ending blob : String) (f : Forest) :
    forestOf ending blob = .ok f ↔ f ≠ [] ∧ f = rootsIn ending blob := by
  rw [rootsIn_eq_map]
  delta forestOf
  cases ((Archive.parse blob).matching ending).map Entry.outline with
  | nil =>
    refine iff_of_false (fun h => by cases h) ?_
    rintro ⟨hne, rfl⟩
    exact hne rfl
  | cons t rest =>
    constructor
    · intro h
      cases h
      exact ⟨List.cons_ne_nil t rest, rfl⟩
    · rintro ⟨-, rfl⟩
      rfl

theorem forestOf_eq_error_iff (ending blob : String) :
    forestOf ending blob = .error .noSourceFiles ↔ rootsIn ending blob = [] := by
  rw [rootsIn_eq_map]
  delta forestOf
  cases ((Archive.parse blob).matching ending).map Entry.outline with
  | nil => exact iff_of_true rfl rfl
  | cons t rest => exact iff_of_false (fun h => by cases h) (List.cons_ne_nil t rest)

/-! ### Layout -/

/-- The root of a file stands at the first level, whether there is an error in it or not. -/
theorem Entry.placed_outline (e : Entry) : e.outline.placed 1 = e.outline := by
  delta Entry.outline
  cases Syntax.parse e.name e.data with
  | ok file => exact file.placed_outline e.name
  | error error => rfl

/-- **The forest of an archive is laid out from the first level on.** -/
theorem isLaidOut_of_forestOf {ending blob : String} {f : Forest}
    (h : forestOf ending blob = .ok f) : f ≠ [] ∧ f.IsLaidOut 1 := by
  obtain ⟨hne, rfl⟩ := (forestOf_eq_ok_iff ending blob f).mp h
  refine ⟨hne, ?_⟩
  have hplaced : Forest.placed 1 (rootsIn ending blob) = rootsIn ending blob := by
    rw [rootsIn_eq_map]
    exact Forest.placed_map fun e _ => e.placed_outline
  rw [← hplaced]
  exact Forest.isLaidOut_placed _ 1

theorem Forest.run_ne_nil {f : Forest} (h : f ≠ []) (steps : List Forest.Step) :
    f.run steps ≠ [] := by
  intro hnil
  apply h
  rw [← List.length_eq_zero_iff, ← Forest.length_run f steps, hnil, List.length_nil]

/-! ### Rows -/

/-- **After any steps, the rows of an archive make an outline and tell what is visible.** The rows
of two forests that are reached in this way, from the same archive or from different ones, are the
same exactly when the forests are the same up to the children of collapsed nodes. -/
theorem isOutline_rows_run {ending blob : String} {f : Forest}
    (h : forestOf ending blob = .ok f) (steps : List Forest.Step) :
    IsOutline (Forest.rows (f.run steps)) ∧
    ∀ (ending' blob' : String) (g : Forest) (steps' : List Forest.Step),
      forestOf ending' blob' = .ok g →
      (Forest.rows (f.run steps) = Forest.rows (g.run steps') ↔
        Forest.pruned (f.run steps) = Forest.pruned (g.run steps')) := by
  obtain ⟨hne, hf⟩ := isLaidOut_of_forestOf h
  have hlaid : (f.run steps).IsLaidOut 1 := Forest.isLaidOut_run hf steps
  refine ⟨Forest.isOutline_rows (Forest.run_ne_nil hne steps) hlaid, ?_⟩
  intro ending' blob' g steps' hg
  obtain ⟨-, hg'⟩ := isLaidOut_of_forestOf hg
  exact Forest.rows_eq_iff hlaid (Forest.isLaidOut_run hg' steps')

theorem Entry.outline_of_parse {e : Entry} {file : Syntax.File}
    (h : Syntax.parse e.name e.data = .ok file) : e.outline = file.outline e.name := by
  delta Entry.outline
  rw [h]

/-- An archive with one source file. -/
def spannedBlob : String := "-- p.go --\n" ++ Syntax.spannedSource

theorem exists_forestOf_spannedBlob :
    ∃ f, forestOf ".go" spannedBlob = .ok f ∧ Forest.rows f = Syntax.spannedRows := by
  obtain ⟨file, hparse, hrows⟩ := Syntax.exists_parse_spannedSource
  refine ⟨[file.outline "p.go"], ?_, hrows⟩
  have hfiles : (Archive.parse spannedBlob).matching ".go" = [⟨"p.go", Syntax.spannedSource⟩] := by
    decide +kernel
  have houtline : Entry.outline ⟨"p.go", Syntax.spannedSource⟩ = file.outline "p.go" :=
    Entry.outline_of_parse hparse
  rw [forestOf_eq_ok_iff, rootsIn_eq_map, hfiles, List.map_singleton, houtline]
  exact ⟨List.cons_ne_nil _ _, rfl⟩

theorem isOutline_rows_run_spannedBlob : ∃ f, forestOf ".go" spannedBlob = .ok f ∧
    Forest.rows (f.run []) = Syntax.spannedRows ∧ IsOutline (Forest.rows (f.run [])) ∧
    (Forest.rows (f.run []) = Forest.rows (f.run [.toggle 4, .toggle 4]) ↔
      Forest.pruned (f.run []) = Forest.pruned (f.run [.toggle 4, .toggle 4])) := by
  obtain ⟨f, hf, hrows⟩ := exists_forestOf_spannedBlob
  obtain ⟨houtline, htell⟩ := isOutline_rows_run hf []
  exact ⟨f, hf, hrows, houtline, htell _ _ f [.toggle 4, .toggle 4] hf⟩

end GoOutline
