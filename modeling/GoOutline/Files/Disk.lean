import GoOutline.Files.Path

/-!
# Folders and files

* `FileFault`: why a file or folder cannot be used; `FileFault.message` is the wording.
* `FileTree`, `Disk`: folders and files, and the folder that relative paths begin in.
* `Disk.walk`, `Disk.find`: where names lead, and what a path leads to.
* `Disk.readText`, `Disk.isFolder`, `Disk.makeFolders`, `Disk.makeParents`, `Disk.write`: the usual
  operations.
* `Disk.add`: a disk with one more file or folder.
-/

namespace GoOutline.Files

/-! ### Faults -/

/-- Why a file or folder cannot be used. -/
inductive FileFault where
  | notFound
  | exists_
  | notFolder
  | isFolder
  /-- The bytes of the file are no text. -/
  | notText
deriving DecidableEq, Inhabited

/-- The wording of a fault. -/
def FileFault.message : FileFault → String
  | notFound => "No such file or directory (os error 2)"
  | exists_ => "File exists (os error 17)"
  | notFolder => "Not a directory (os error 20)"
  | isFolder => "Is a directory (os error 21)"
  | notText => "stream did not contain valid UTF-8"

/-! ### Trees -/

/-- A file, or a folder with what is in it. Bytes that are no text are not kept. -/
inductive FileTree where
  | file (text : Option String)
  | folder (entries : List (String × FileTree))

instance : Inhabited FileTree := ⟨.folder []⟩

namespace FileTree

/-- What is in a folder under a name. -/
def child? (name : String) : FileTree → Option FileTree
  | folder entries => entries.lookup name
  | file _ => none

/-- Whether there is a folder. -/
def isFolder : FileTree → Bool
  | folder _ => true
  | file _ => false

/-- What is at the end of a path of names. -/
def get? : List String → FileTree → Option FileTree
  | [], t => some t
  | name :: names, t => (t.child? name).bind (get? names)

/-- A folder with something under a name. -/
def withEntry (t : FileTree) (name : String) (new : FileTree) : FileTree :=
  match t with
  | folder entries => folder ((name, new) :: entries.filter (·.1 != name))
  | file text => file text

/-- A tree with something at the end of a path of names. Folders that are missing on the way are
made. -/
def put : FileTree → List String → FileTree → FileTree
  | _, [], new => new
  | t, name :: names, new =>
    match t.child? name with
    | some below => t.withEntry name (put below names new)
    | none => t.withEntry name (put (folder []) names new)

end FileTree

/-! ### Disks -/

/-- All folders and files, and the folder in which relative paths begin. -/
structure Disk where
  root : FileTree
  here : List String := []

namespace Disk

/-- Where a name leads from a place. A name `..` leads back. -/
def step (place : List String) (name : String) : List String :=
  if name = ".." then place.dropLast else place ++ [name]

/-- Goes along some names from a folder that is given by its own names. -/
def walk (d : Disk) : List String → List String → Except FileFault (List String)
  | place, [] => .ok place
  | place, name :: names =>
    match d.root.get? place with
    | none => .error .notFound
    | some (.file _) => .error .notFolder
    | some (.folder _) => d.walk (step place name) names

/-- The place in which a path begins. -/
def start (d : Disk) (path : String) : List String := if isAbsolute path then [] else d.here

/-- The names from the root to where a path leads; what is there may be missing. -/
def place (d : Disk) (path : String) : Except FileFault (List String) :=
  if path.isEmpty then .error .notFound else d.walk (d.start path) (pathNames path)

/-- What a path leads to. -/
def find (d : Disk) (path : String) : Except FileFault FileTree := do
  match d.root.get? (← d.place path) with
  | none => .error .notFound
  | some (.file text) => if namesFolder path then .error .notFolder else .ok (.file text)
  | some found => .ok found

/-- Whether a path leads to a folder. -/
def isFolder (d : Disk) (path : String) : Bool :=
  match d.find path with
  | .ok found => found.isFolder
  | .error _ => false

/-- The text of a file. -/
def readText (d : Disk) (path : String) : Except FileFault String := do
  match ← d.find path with
  | .file (some text) => .ok text
  | .file none => .error .notText
  | .folder _ => .error .isFolder

/-- Whether some names lead to a folder. -/
def leadsToFolder (d : Disk) (start names : List String) : Bool :=
  match d.walk start names with
  | .ok place => (d.root.get? place).any FileTree.isFolder
  | .error _ => false

/-- Makes the folder that some names lead to. -/
def makeFolder (d : Disk) (start names : List String) : Except FileFault Disk := do
  let place ← d.walk start names
  match d.root.get? place with
  | some _ => .error .exists_
  | none => .ok { d with root := d.root.put place (.folder []) }

/-- Makes the folder that some names lead to, unless it exists. -/
def ensureFolder (d : Disk) (start names : List String) : Except FileFault Disk :=
  match d.makeFolder start names with
  | .ok d => .ok d
  | .error fault => if d.leadsToFolder start names then .ok d else .error fault

/-- Makes a folder, and the folders on the way to it if one of them is missing. The names are given
last first. -/
def makeFoldersFrom (start : List String) : List String → Disk → Except FileFault Disk
  | [], d => .ok d
  | name :: names, d =>
    let path := (name :: names).reverse
    match d.makeFolder start path with
    | .error .notFound => do (← makeFoldersFrom start names d).ensureFolder start path
    | _ => d.ensureFolder start path

/-- Makes a folder, and the folders on the way to it. -/
def makeFolders (d : Disk) (path : String) : Except FileFault Disk :=
  makeFoldersFrom (d.start path) (pathNames path).reverse d

/-- Makes the folders on the way to a file. -/
def makeParents (d : Disk) (path : String) : Except FileFault Disk :=
  makeFoldersFrom (d.start path) (pathNames path).dropLast.reverse d

/-- Writes a text into a file, which is made if it is missing. -/
def write (d : Disk) (path text : String) : Except FileFault Disk := do
  let place ← d.place path
  match d.root.get? place with
  | some (.folder _) => .error .isFolder
  | found =>
    if !namesFolder path then .ok { d with root := d.root.put place (.file (some text)) }
    else if !endsInDot path then .error .isFolder
    else .error (if found.isSome then .notFolder else .notFound)

/-- The names from the root that a path stands for as it is written. -/
def spelled (d : Disk) (path : String) : List String :=
  if isAbsolute path then pathNames path else d.here ++ pathNames path

/-- A disk with one more file or folder. Folders that are missing on the way are made. -/
def add (d : Disk) (path : String) (new : FileTree) : Disk :=
  { d with root := d.root.put (d.spelled path) new }

end Disk

end GoOutline.Files
