import GoOutline.Yaml.Node
import GoOutline.Yaml.Write

/-!
# Settings

* `Settings`: what can be configured.
* `Settings.read?`, `Settings.ofText`: the settings in the text of a configuration file. A text that
  cannot be read counts as if there were none.
* `Settings.toText`: the text of a configuration file.
-/

namespace GoOutline

/-- What can be configured. -/
structure Settings where
  /-- How the names of source files end. -/
  sourceSuffix : String := ".go"
deriving DecidableEq, Inhabited

namespace Settings

/-- The name of the field that holds the ending of source files. -/
def suffixField : List Char := "source_suffix".toList

/-- A field of a configuration file; its name must be a scalar. -/
def named? : Yaml.Node × Yaml.Node → Option (List Char × Yaml.Node)
  | (.scalar name, value) => some (name, value)
  | _ => none

/-- The settings in the text of a configuration file. A field may not stand there twice; fields that
are not known do not matter. -/
def read? (text : List Char) : Option Settings := do
  match ← Yaml.document? text with
  | .mapping fields =>
    let fields ← fields.mapM named?
    match fields.filter fun (name, _) => name == suffixField with
    | [] => some {}
    | [(_, .scalar suffix)] => some ⟨String.ofList suffix⟩
    | _ => none
  | _ => none

/-- The settings in the text of a configuration file, or else the usual ones. -/
def ofText (text : String) : Settings := (read? text.toList).getD {}

/-- The text of a configuration file. -/
def toText (s : Settings) : String :=
  String.ofList (Yaml.writeField suffixField s.sourceSuffix.toList)

/-- The settings with another ending of source files, if one is given. -/
def withSuffix (s : Settings) : Option String → Settings
  | some suffix => { s with sourceSuffix := suffix }
  | none => s

end Settings

end GoOutline
