import GoOutline.Config.Settings
import GoOutline.Files.Disk

/-!
# Where settings are kept

* `Environment`: where a user's files are.
* `configFolder`, `configFile`, `logFolder`: the paths that are used.
* `ensureLogFolder`: makes the folder for logs.
* `Settings.loadFrom`, `Settings.saveTo`: settings in a file.
* `Settings.load`, `Settings.save`: settings on a disk.
-/

namespace GoOutline

open GoOutline.Files

/-- Where a user's files are. -/
structure Environment where
  /-- The user's own folder, if one is named. -/
  home : Option String := none
  /-- The folder that belongs to the user's account. -/
  account : String := "/"
  /-- The folder for configuration, if it is not the usual one. -/
  configHome : Option String := none

/-- The user's own folder. -/
def Environment.homeFolder (e : Environment) : String :=
  match e.home with
  | some path => if path.isEmpty then e.account else path
  | none => e.account

/-- The folder for the configuration of this program. -/
def configFolder (e : Environment) : String :=
  joinPath (e.configHome.getD (joinPath e.homeFolder ".config")) "astview"

/-- The configuration file. -/
def configFile (e : Environment) : String := joinPath (configFolder e) "config.yaml"

/-- The folder for logs. -/
def logFolder (e : Environment) : String := joinPath (configFolder e) "logs"

/-- Why something could not be kept. -/
inductive StoreError where
  | folderNotMade (path : String) (fault : FileFault)
  | configFolderNotMade (fault : FileFault)
  | configNotWritten (path : String) (fault : FileFault)
deriving DecidableEq

/-- The wording of an error. -/
def StoreError.message : StoreError → String
  | folderNotMade path fault => "Failed to create directory " ++ path ++ ": " ++ fault.message
  | configFolderNotMade fault => "Failed to create config directory: " ++ fault.message
  | configNotWritten path fault => "Failed to write config to " ++ path ++ ": " ++ fault.message

/-- Makes the folder for logs; the result has its path. -/
def ensureLogFolder (e : Environment) (d : Disk) : Except StoreError (String × Disk) :=
  let path := logFolder e
  match d.makeFolders path with
  | .ok d => .ok (path, d)
  | .error fault => .error (.folderNotMade path fault)

namespace Settings

/-- The settings in what was read from a configuration file. -/
def ofRead : Except FileFault String → Settings
  | .ok text => ofText text
  | .error _ => {}

/-- The settings in a configuration file. -/
def loadFrom (path : String) (d : Disk) : Settings := ofRead (d.readText path)

/-- Writes settings into a configuration file. The folders on the way to it are made. -/
def saveTo (s : Settings) (path : String) (d : Disk) : Except StoreError Disk := do
  let d ← (d.makeParents path).mapError .configFolderNotMade
  (d.write path s.toText).mapError (.configNotWritten path)

/-- The settings that are kept on a disk. -/
def load (e : Environment) (d : Disk) : Settings := loadFrom (configFile e) d

/-- Keeps settings on a disk. -/
def save (s : Settings) (e : Environment) (d : Disk) : Except StoreError Disk :=
  s.saveTo (configFile e) d

end Settings

end GoOutline
