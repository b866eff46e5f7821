import GoOutline.Command.Options
import GoOutline.Files.Path

/-!
# Requests

* `Input`: where a text comes from.
* `Request`: what is to be done.
* `RequestError`: why arguments make no request.
* `Arguments.request`: the request that arguments make.
-/

namespace GoOutline.Command

/-- Where the text comes from. -/
inductive Input where
  | standard
  /-- A file that holds an archive. -/
  | archive (path : String)
  /-- Files that become an archive. -/
  | files (paths : List String)
deriving DecidableEq, Inhabited

/-- What is to be done. -/
structure Request where
  input : Input
  suffix : Option String
  toggles : List Nat
  isJson : Bool
deriving DecidableEq, Inhabited

/-- Why arguments make no request. -/
inductive RequestError where
  | mixedInput
  | folder (path : String)
  | emptySuffix
deriving DecidableEq, Inhabited

/-- The wording of an error. -/
def RequestError.message : RequestError → String
  | mixedInput => "Cannot mix stdin ('-') with file paths"
  | folder path => path ++ " is a directory"
  | emptySuffix => "--suffix must not be empty"

/-- The path that stands for standard input. -/
def standardPath : String := "-"

/-- The input that paths stand for. A single file with the right ending is an archive. -/
def inputOf (isFolder : String → Bool) (paths : List String) : Except RequestError Input :=
  if paths = [] || paths = [standardPath] then .ok .standard
  else if paths.contains standardPath then .error .mixedInput
  else
    match paths.find? isFolder with
    | some path => .error (.folder path)
    | none =>
      match paths with
      | [path] => .ok (if Files.extension? path = some "txtar" then .archive path else .files paths)
      | _ => .ok (.files paths)

/-- The request that arguments make, given which paths lead to folders. -/
def Arguments.request (isFolder : String → Bool) (a : Arguments) : Except RequestError Request := do
  let input ← inputOf isFolder a.paths
  if a.suffix = some "" then .error .emptySuffix
  else .ok ⟨input, a.suffix, a.toggles, a.isJson⟩

end GoOutline.Command
