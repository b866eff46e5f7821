/-!
# Paths

A path is a text in which slashes separate names.

* `joinPath`: a name below a path.
* `isAbsolute`, `pathNames`: how a path is read.
* `namesFolder`, `endsInDot`: paths that only a folder can have.
* `extension?`: what stands after the last dot of the last name.
-/

namespace GoOutline.Files

/-- The path of something below a path. -/
def joinPath (path name : String) : String :=
  match path.toList.getLast? with
  | none => name
  | some '/' => path ++ name
  | some _ => path ++ "/" ++ name

/-- Whether a path begins at the root. -/
def isAbsolute (path : String) : Bool := path.toList.head? == some '/'

/-- The pieces of a text between slashes. -/
def splitSlashes (text : List Char) : List (List Char) :=
  text.foldr
    (fun c pieces => if c == '/' then [] :: pieces else
      match pieces with
      | [] => [[c]]
      | p :: more => (c :: p) :: more)
    [[]]

/-- The names in a path. Empty ones and single dots do not count. -/
def pathNames (path : String) : List String :=
  ((splitSlashes path.toList).filter fun p => !p.isEmpty && p != ['.']).map String.ofList

/-- Whether a path can only be that of a folder: it ends in a slash or in a dot after one. -/
def namesFolder (path : String) : Bool :=
  match (splitSlashes path.toList).getLast? with
  | some p => p.isEmpty || p == ['.']
  | none => true

/-- Whether a dot stands after the last name of a path. -/
def endsInDot (path : String) : Bool :=
  ((splitSlashes path.toList).reverse.takeWhile fun p => p.isEmpty || p == ['.']).contains ['.']

/-- What stands after the last dot of the last name in a path; a dot at the start of the name does not
count. -/
def extension? (path : String) : Option String :=
  match (pathNames path).getLast? with
  | none => none
  | some name =>
    if name == ".." then none
    else
      let chars := name.toList
      let after := (chars.reverse.takeWhile (· != '.')).reverse
      if chars.length ≤ after.length + 1 then none else some (String.ofList after)

end GoOutline.Files
