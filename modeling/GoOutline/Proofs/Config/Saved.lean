import GoOutline.Config.Store
import GoOutline.Proofs.Files.Written
import GoOutline.Proofs.Yaml.Document

/-!
# Settings that are saved are loaded again

A configuration file is a YAML document with one field. Its text is written in the style that the
text allows, and a reader finds the same text again, so no setting is lost: not the empty text, not
one with line breaks or control characters, and not one that looks like a number or like nothing.

* `Settings.read?_toText`: the settings in a configuration file are those it was made from.
* `Settings.saveTo_eq_ok_iff`: settings can be saved where a file can be written.
* `Settings.loadFrom_saveTo`: settings that have been saved are loaded again.
-/

namespace GoOutline.Settings

open GoOutline.Files

theorem isFieldName_suffixField : Yaml.IsFieldName suffixField :=
  ⟨by decide, List.all_eq_true.mp (by decide), by decide⟩

/-- The text of a configuration file stands for the settings it was made from. -/
theorem read?_toText (s : Settings) : read? s.toText.toList = some s := by
  rw [toText, String.toList_ofList, read?, Yaml.document?_writeField isFieldName_suffixField]
  simp [named?]

theorem ofText_toText (s : Settings) : ofText s.toText = s := by
  rw [ofText, read?_toText]
  rfl

theorem mapError_eq_ok_iff {α ε ε' : Type} (f : ε → ε') (r : Except ε α) (a : α) :
    r.mapError f = .ok a ↔ r = .ok a := by
  cases r <;> simp [Except.mapError]

/-- Settings are saved if the folders on the way can be made and the file can be written. -/
theorem saveTo_eq_ok_iff {s : Settings} {path : String} {d d' : Disk} : s.saveTo path d = .ok d' ↔
    ∃ d₁, d.makeParents path = .ok d₁ ∧ d₁.write path s.toText = .ok d' := by
  rw [saveTo]
  cases d.makeParents path with
  | error fault =>
    constructor
    · intro h
      nomatch h
    · rintro ⟨d₁, h, -⟩
      nomatch h
  | ok d₁ =>
    show (d₁.write path s.toText).mapError (StoreError.configNotWritten path) = .ok d' ↔ _
    rw [mapError_eq_ok_iff]
    constructor
    · exact fun h => ⟨d₁, rfl, h⟩
    · rintro ⟨_, ⟨⟩, h⟩
      exact h

/-- **Settings that have been saved are loaded again**, whatever their text is. They can be saved at
just those paths at which a file can be written. -/
theorem loadFrom_saveTo (s : Settings) (path : String) (d : Disk) :
    (d.IsWritable path ↔ ∃ d', s.saveTo path d = .ok d') ∧
      ∀ d', s.saveTo path d = .ok d' → loadFrom path d' = s := by
  refine ⟨⟨fun h => ?_, ?_⟩, fun d' h => ?_⟩
  · obtain ⟨d₁, d₂, hmade, hwrite⟩ := Disk.write_makeParents h s.toText
    exact ⟨d₂, saveTo_eq_ok_iff.mpr ⟨d₁, hmade, hwrite⟩⟩
  · rintro ⟨d', h⟩
    obtain ⟨d₁, hmade, hwrite⟩ := saveTo_eq_ok_iff.mp h
    exact Disk.isWritable_of_write hmade hwrite
  · obtain ⟨d₁, -, hwrite⟩ := saveTo_eq_ok_iff.mp h
    rw [loadFrom, Disk.readText_write hwrite]
    exact ofText_toText s

/-- A disk on which a user's folder is the only one. -/
def freshDisk : Disk := { root := .folder [("home", .folder [])], here := ["home"] }

theorem loadFrom_saveTo_freshDisk :
    let s : Settings := ⟨" ~: \t'\x00\n"⟩
    let path := "../etc/./app/config.yaml"
    s ≠ {} ∧ freshDisk.IsWritable path ∧
      ∃ d', s.saveTo path freshDisk = .ok d' ∧ loadFrom path d' = s := by
  intro s path
  have hwritable : freshDisk.IsWritable path :=
    ⟨by decide +kernel, by decide +kernel, by decide +kernel, by decide +kernel⟩
  obtain ⟨hsave, hload⟩ := loadFrom_saveTo s path freshDisk
  obtain ⟨d', hd'⟩ := hsave.mp hwritable
  exact ⟨by decide +kernel, hwritable, d', hd', hload d' hd'⟩

end GoOutline.Settings
