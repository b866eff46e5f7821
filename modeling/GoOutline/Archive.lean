import GoOutline.Text.Blank

/-!
# Text archives

An archive is a comment and some named files in one text. A file begins after a marker line
`-- name --` and goes on up to the next one. Every text is an archive.

* `Entry`, `Archive`: the content of an archive.
* `marker?`: the name in a marker line at the start of a text, and the text after that line.
* `upToMarker`: the text before the next marker line. Only lines that begin like one are looked at.
* `Archive.parse`: the archive that a text stands for.
* `Archive.format`: the text of an archive.
* `Archive.matching`: the files whose names have a given ending.
-/

namespace GoOutline

open GoOutline.Text (trim)

/-- A named file. -/
structure Entry where
  name : String
  data : String
deriving DecidableEq, Inhabited

/-- A comment and some files. -/
structure Archive where
  comment : String
  files : List Entry
deriving DecidableEq, Inhabited

namespace Archive

/-! ### Lines -/

/-- A text whose last line is ended by a line break. -/
def terminated (text : List Char) : List Char :=
  match text.getLast? with
  | none => []
  | some c => if c = '\n' then text else text ++ ['\n']

/-- How a marker line begins. -/
def opening : List Char := ['-', '-', ' ']

/-- How a marker line ends. -/
def closing : List Char := [' ', '-', '-']

/-- A line without the carriage return at its end. -/
def dropReturn (line : List Char) : List Char :=
  if line.getLast? = some '\r' then line.dropLast else line

/-- The name in a marker line; the line is given without its line break. The blanks beside the dashes
must be different ones. -/
def markerName? (line : List Char) : Option (List Char) :=
  let line := dropReturn line
  if opening.isPrefixOf line && closing.isSuffixOf line
      && opening.length + closing.length ≤ line.length then
    let name := trim ((line.drop opening.length).take (line.length - opening.length - closing.length))
    if name.isEmpty then none else some name
  else none

/-- The name in the marker line at the start of a text, and the text after that line. -/
def marker? (text : List Char) : Option (List Char × List Char) :=
  (markerName? (text.takeWhile (· ≠ '\n'))).map fun name =>
    (name, (text.dropWhile (· ≠ '\n')).drop 1)

theorem length_lt_of_marker? {text name rest : List Char} (h : marker? text = some (name, rest)) :
    rest.length < text.length := by
  cases text with
  | nil => cases h
  | cons c cs =>
    obtain ⟨_, _, h⟩ := Option.map_eq_some_iff.mp h
    have hrest : ((c :: cs).dropWhile (· ≠ '\n')).drop 1 = rest := congrArg Prod.snd h
    have hle := (List.dropWhile_sublist (l := c :: cs) (· ≠ '\n')).length_le
    rw [← hrest, List.length_drop]
    simp only [List.length_cons] at hle ⊢
    omega

/-! ### Reading -/

/-- The text up to a line that begins like a marker line, and the text from that line on. The line at
the start of the text is passed over. -/
def nextOpening : List Char → Option (List Char × List Char)
  | [] => none
  | c :: text =>
    if c = '\n' ∧ opening.isPrefixOf text then some ([c], text)
    else (nextOpening text).map fun (before, rest) => (c :: before, rest)

theorem length_lt_of_nextOpening {text before rest : List Char}
    (h : nextOpening text = some (before, rest)) : rest.length < text.length := by
  induction text generalizing before with
  | nil => cases h
  | cons c text ih =>
    rw [nextOpening] at h
    split at h
    · cases h
      exact Nat.lt_succ_self _
    · obtain ⟨_, hnext, h⟩ := Option.map_eq_some_iff.mp h
      cases h
      exact Nat.lt_succ_of_lt (ih hnext)

/-- The text before the next marker line, and that line's name with the text after it. The text
begins at the start of a line. If there is no further marker line, all of the text is before it,
and its last line is ended. -/
def upToMarker (text : List Char) : List Char × Option (List Char × List Char) :=
  match marker? text with
  | some found => ([], some found)
  | none =>
    match _hnext : nextOpening text with
    | none => (terminated text, none)
    | some (before, rest) =>
      let (more, found) := upToMarker rest
      (before ++ more, found)
termination_by text.length
decreasing_by exact length_lt_of_nextOpening _hnext

theorem upToMarker_of_marker {text : List Char} {found : List Char × List Char}
    (h : marker? text = some found) : upToMarker text = ([], some found) := by
  rw [upToMarker, h]

theorem upToMarker_of_last {text : List Char} (h : marker? text = none)
    (hnext : nextOpening text = none) : upToMarker text = (terminated text, none) := by
  rw [upToMarker]
  simp only [h]
  split
  · rfl
  · next before rest hsome => rw [hsome] at hnext; cases hnext

theorem upToMarker_of_opening {text before rest : List Char} (h : marker? text = none)
    (hnext : nextOpening text = some (before, rest)) :
    upToMarker text = (before ++ (upToMarker rest).1, (upToMarker rest).2) := by
  rw [upToMarker]
  simp only [h]
  split
  · next hnone => rw [hnone] at hnext; cases hnext
  · next before' rest' hsome =>
    rw [hsome] at hnext
    cases hnext
    rfl

theorem length_lt_of_upToMarker {text name rest : List Char}
    (h : (upToMarker text).2 = some (name, rest)) : rest.length < text.length := by
  induction text using upToMarker.induct with
  | case1 text found hmarker =>
    rw [upToMarker_of_marker hmarker] at h
    exact length_lt_of_marker? (hmarker.trans h)
  | case2 text hmarker hnext =>
    rw [upToMarker_of_last hmarker hnext] at h
    cases h
  | case3 text hmarker before after hnext _ _ _ ih =>
    rw [upToMarker_of_opening hmarker hnext] at h
    exact Nat.lt_trans (ih h) (length_lt_of_nextOpening hnext)

/-- The files of which the first has the given name and begins with the given text. -/
def filesFrom (name text : List Char) : List Entry :=
  match _hread : upToMarker text with
  | (data, none) => [⟨String.ofList name, String.ofList data⟩]
  | (data, some (next, rest)) =>
    ⟨String.ofList name, String.ofList data⟩ :: filesFrom next rest
termination_by text.length
decreasing_by exact length_lt_of_upToMarker (congrArg Prod.snd _hread)

/-- The archive that a text stands for. -/
def ofChars (text : List Char) : Archive :=
  match upToMarker text with
  | (comment, none) => ⟨String.ofList comment, []⟩
  | (comment, some (name, rest)) => ⟨String.ofList comment, filesFrom name rest⟩

/-- The archive that a text stands for. -/
def parse (text : String) : Archive := ofChars text.toList

/-! ### Writing -/

/-- The text of a file, with the marker line before it. -/
def formatEntry (e : Entry) : List Char :=
  opening ++ e.name.toList ++ closing ++ ['\n'] ++ terminated e.data.toList

/-- The text of an archive. -/
def format (a : Archive) : String :=
  String.ofList (terminated a.comment.toList ++ a.files.flatMap formatEntry)

/-- The files whose names end in the given way, in their order. -/
def matching (a : Archive) (ending : String) : List Entry :=
  a.files.filter fun e => ending.toList.isSuffixOf e.name.toList

end Archive

end GoOutline
