import GoOutline.Archive
import GoOutline.Outline.OfFile
import GoOutline.Syntax.Parse

/-!
# Sources

* `Entry.outline`: the outline of one file; a file with an error gets a leaf that shows the error.
* `forestOf`: the outlines of all source files in an archive.
-/

namespace GoOutline

/-- Why an archive cannot be shown. -/
inductive SourceError where
  | noSourceFiles
deriving DecidableEq, Inhabited

/-- The wording of an error. -/
def SourceError.message : SourceError → String
  | noSourceFiles => "no source files found"

/-- The outline of a file. -/
def Entry.outline (e : Entry) : Outline :=
  match Syntax.parse e.name e.data with
  | .ok file => file.outline e.name
  | .error error => Syntax.errorOutline e.name error.text

/-- The outlines of the files in an archive whose names end in the given way. -/
def forestOf (ending blob : String) : Except SourceError Forest :=
  match ((Archive.parse blob).matching ending).map Entry.outline with
  | [] => .error .noSourceFiles
  | roots => .ok roots

end GoOutline
