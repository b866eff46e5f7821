import GoOutline.Text.Blank
import GoOutline.Text.Position

/-!
# Syntax errors

* `Cause`: why a text is no source file; `Cause.message` is the wording.
* `snippet`: the beginning of a piece of source text, as it is quoted in a message.
* `SyntaxError`: a cause with the file and the place; `SyntaxError.text` is the whole line.
-/

namespace GoOutline.Syntax

open GoOutline.Text

/-- No more characters than this are quoted. -/
def maxSnippet : Nat := 24

/-- The first line of a text without white space at its ends, cut if it is long. -/
def snippet (text : List Char) : String :=
  let line := trim (text.takeWhile (· ≠ '\n'))
  if maxSnippet < line.length then String.ofList (line.take maxSnippet) ++ "..."
  else String.ofList line

/-- Why a text is no source file. -/
inductive Cause where
  /-- A token with a name of its own is missing. -/
  | missingKind (name : String)
  /-- A token with only one spelling is missing. -/
  | missingToken (spelling : String)
  /-- There is text that fits nowhere. -/
  | unexpected (found : String)
  /-- The text ends too early. -/
  | unexpectedEnd
  /-- The file does not begin with a package clause. -/
  | noPackage (found : String)
  /-- There is nothing in the file. -/
  | emptyFile
  | lateImport
  /-- There is something at the top level that is no declaration. -/
  | noDeclaration (found : String)
  /-- The text is not read, and repair shows no fault in it. -/
  | unreadable
deriving DecidableEq, Inhabited

/-- The wording of a cause. -/
def Cause.message : Cause → String
  | missingKind name => "expected " ++ name
  | missingToken spelling => "expected '" ++ spelling ++ "'"
  | unexpected found => "unexpected '" ++ found ++ "'"
  | unexpectedEnd => "unexpected EOF"
  | noPackage found => "expected 'package', found '" ++ found ++ "'"
  | emptyFile => "expected 'package', found 'EOF'"
  | lateImport => "imports must appear before other declarations"
  | noDeclaration found => "expected declaration, found '" ++ found ++ "'"
  | unreadable => "source text cannot be read"

/-- A message with the file and the place it is about. -/
def located (file : String) (place : Position) (message : String) : String :=
  file ++ ":" ++ toString place.line ++ ":" ++ toString place.column ++ ": " ++ message

/-- A syntax error in a file. -/
structure SyntaxError where
  file : String
  place : Position
  cause : Cause
deriving DecidableEq, Inhabited

/-- The whole text of an error. -/
def SyntaxError.text (e : SyntaxError) : String := located e.file e.place e.cause.message

end GoOutline.Syntax
