import GoOutline.Command.Request
import GoOutline.Config.Store
import GoOutline.Outline.Path
import GoOutline.Outline.Render
import GoOutline.Source

/-!
# Running the command

* `readInput`: the text that a request is about.
* `show_`: what a request shows of a text.
* `run`: the outcome of the command, given its surroundings.
-/

namespace GoOutline.Command

open GoOutline.Files

/-- What a command finds: how to tell folders, how to read files and what comes in. -/
structure Surroundings where
  isFolder : String → Bool
  readText : String → Except FileFault String
  standardInput : Except FileFault String
  environment : Environment

/-- The surroundings on a disk. -/
def Surroundings.onDisk (d : Disk) (environment : Environment)
    (standardInput : Except FileFault String) : Surroundings where
  isFolder := d.isFolder
  readText := d.readText
  standardInput := standardInput
  environment := environment

/-- Why the command fails. -/
inductive Failure where
  | badRequest (e : RequestError)
  | standardInputNotRead (fault : FileFault)
  | fileNotRead (path : String) (fault : FileFault)
  | badSource (e : SourceError)
deriving DecidableEq

/-- What went wrong, and what was the cause if there is one. -/
def Failure.message : Failure → String × Option String
  | badRequest e => (e.message, none)
  | standardInputNotRead fault => ("Failed to read stdin", some fault.message)
  | fileNotRead path fault => ("Failed to read " ++ path, some fault.message)
  | badSource e => (e.message, none)

/-- The text in which a failure is reported. -/
def Failure.report (f : Failure) : String :=
  match f.message with
  | (what, none) => "Error: " ++ what ++ "\n"
  | (what, some cause) => "Error: " ++ what ++ "\n\nCaused by:\n    " ++ cause ++ "\n"

/-- How the command ends. -/
structure Outcome where
  exitCode : Nat
  output : String := ""
  errors : String := ""
deriving DecidableEq

/-- The text of a file. -/
def readPath (w : Surroundings) (path : String) : Except Failure String :=
  (w.readText path).mapError (.fileNotRead path)

/-- A file as an entry of an archive, under its path. -/
def readEntry (w : Surroundings) (path : String) : Except Failure Entry := do
  .ok ⟨path, ← readPath w path⟩

/-- The text that a request is about. Files become an archive without a comment. -/
def readInput (w : Surroundings) : Input → Except Failure String
  | .standard => w.standardInput.mapError .standardInputNotRead
  | .archive path => readPath w path
  | .files paths => do
    let entries ← paths.mapM (readEntry w)
    .ok (Archive.format ⟨"", entries⟩)

/-- What is shown of a text: nothing of an empty one, else the rows of its forest after all toggles. -/
def show_ (r : Request) (settings : Settings) (blob : String) : Except Failure String :=
  if blob.isEmpty then .ok ""
  else
    match forestOf (settings.withSuffix r.suffix).sourceSuffix blob with
    | .error e => .error (.badSource e)
    | .ok forest =>
      let rows := Forest.rows (r.toggles.foldl Forest.toggle forest)
      .ok (render rows r.isJson ++ if r.isJson then "\n" else "")

/-- What the command shows for arguments that are understood. -/
def answer (w : Surroundings) (a : Arguments) : Except Failure String := do
  let r ← (a.request w.isFolder).mapError .badRequest
  let settings := Settings.ofRead (w.readText (configFile w.environment))
  show_ r settings (← readInput w r.input)

/-- How the command ends for arguments that are understood. -/
def run (w : Surroundings) (a : Arguments) : Outcome :=
  match answer w a with
  | .ok output => { exitCode := 0, output := output }
  | .error failure => { exitCode := 1, errors := failure.report }

end GoOutline.Command
