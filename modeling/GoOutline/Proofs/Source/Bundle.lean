import GoOutline.Command.Run
import GoOutline.Proofs.Archive.Concat
import GoOutline.Proofs.Source.Forest

/-!
# Archives that are put together

Two archives, one after the other, have the roots of both. Files that are bundled are put together
in the same way, and since nothing is escaped, a file is an archive of its own then: what stands
before its first marker line remains under its path, and each of its marker lines begins a file of
its own.

* `rootsIn_of_files_append`: roots are added like files.
* `parse_append`: what is read and shown of two texts that are put together.
* `Archive.entriesOf`: what becomes of a file in a bundle.
* `Archive.parse_format_bundle`: what is read of a bundle, whatever the files hold.
* `Archive.parse_format_bundle_eq_iff`: each file is read back exactly when none of them has a
  marker line.
* `Command.parse_readInput_files`: what is read and shown of files that are given by their paths.
-/

namespace GoOutline

/-! ### Two archives -/

/-- Each file has a root of its own, which does not depend on the others. -/
theorem rootsIn_of_files_append {a b c : String}
    (h : (Archive.parse c).files = (Archive.parse a).files ++ (Archive.parse b).files)
    (ending : String) : rootsIn ending c = rootsIn ending a ++ rootsIn ending b := by
  rw [rootsIn_eq_map, rootsIn_eq_map, rootsIn_eq_map, Archive.matching, Archive.matching,
    Archive.matching, h, List.filter_append, List.map_append]

/-- **Reading in two parts.** If the first text ends at the end of a line, what is read of both is
what is read of the first one, with the comment of the second one at the end of its last section,
and then the files of the second one. If the second text begins with a marker line, the roots of
both are the roots of the first one and those of the second one, and there is nothing to show
exactly when neither has anything to show. -/
theorem parse_append {a b : String} (ha : a = "" ∨ a.toList.getLast? = some '\n') :
    Archive.parse (a ++ b) = (Archive.parse a).append (Archive.parse b) ∧
    ((∃ line rest, Archive.lines b.toList = line :: rest ∧ Archive.IsMarkerLine line) →
      ∀ ending : String,
        rootsIn ending (a ++ b) = rootsIn ending a ++ rootsIn ending b ∧
        (forestOf ending (a ++ b) = .error .noSourceFiles ↔
          forestOf ending a = .error .noSourceFiles ∧
            forestOf ending b = .error .noSourceFiles)) := by
  have hchars : a.toList = [] ∨ a.toList.getLast? = some '\n' := by
    rcases ha with rfl | ha
    · exact Or.inl rfl
    · exact Or.inr ha
  have hparse : Archive.parse (a ++ b) = (Archive.parse a).append (Archive.parse b) := by
    rw [Archive.parse, String.toList_append, Archive.ofChars_append hchars]
    rfl
  refine ⟨hparse, ?_⟩
  rintro ⟨line, rest, hlines, hmarker⟩ ending
  have hcomment : (Archive.parse b).comment = "" := Archive.comment_of_marker hlines hmarker
  have hfiles : (Archive.parse (a ++ b)).files
      = (Archive.parse a).files ++ (Archive.parse b).files := by
    rw [hparse, Archive.append_of_comment_empty _ hcomment]
  have hroots := rootsIn_of_files_append hfiles ending
  refine ⟨hroots, ?_⟩
  rw [forestOf_eq_error_iff, forestOf_eq_error_iff, forestOf_eq_error_iff, hroots,
    List.append_eq_nil_iff]

theorem parse_append_note :
    let a := "seen\n-- a.go --\nx\n"
    let b := "-- b.go --\ny"
    Archive.parse (a ++ b) = ⟨"seen\n", [⟨"a.go", "x\n"⟩, ⟨"b.go", "y\n"⟩]⟩ ∧
    Archive.parse (a ++ b) = (Archive.parse a).append (Archive.parse b) ∧
    rootsIn ".go" (a ++ b) = rootsIn ".go" a ++ rootsIn ".go" b := by
  have hend : "seen\n-- a.go --\nx\n".toList.getLast? = some '\n' := by decide +kernel
  have hmarker : ∃ line rest, Archive.lines "-- b.go --\ny".toList = line :: rest ∧
      Archive.IsMarkerLine line :=
    ⟨"-- b.go --\n".toList, [['y']], by decide +kernel, by decide +kernel⟩
  obtain ⟨hparse, hroots⟩ := parse_append (b := "-- b.go --\ny") (Or.inr hend)
  exact ⟨by decide +kernel, hparse, (hroots hmarker ".go").1⟩

end GoOutline

namespace GoOutline.Archive

/-! ### Bundles -/

/-- What becomes of a file in a bundle: an entry under its own name with what stands before its
first marker line, and the files that its marker lines begin. -/
def entriesOf (e : Entry) : List Entry := ⟨e.name, (parse e.data).comment⟩ :: (parse e.data).files

theorem formatEntry_eq (e : Entry) :
    formatEntry e = (markerOf e.name.toList ++ ['\n']) ++ terminated e.data.toList := rfl

theorem formatEntry_ended (e : Entry) :
    formatEntry e = [] ∨ (formatEntry e).getLast? = some '\n' := by
  have hself : terminated (formatEntry e) = formatEntry e := by
    rw [formatEntry_eq, terminated_append_of_terminated (terminated_concat _),
      terminated_terminated]
  rw [← hself]
  exact terminated_ended _

/-- What is written of a file is read as the file and as what it holds. -/
theorem ofChars_formatEntry {e : Entry} (h : IsName e.name.toList) :
    ofChars (formatEntry e) = ⟨"", entriesOf e⟩ := by
  have hbreak : '\n' ∉ markerOf e.name.toList := not_mem_markerOf h.not_mem_break
  have hline : IsMarkerLine (markerOf e.name.toList ++ ['\n']) :=
    (isMarkerLine_concat hbreak).mpr (isMarkerLine_markerOf h)
  have hmarker : ofChars (markerOf e.name.toList ++ ['\n']) = ⟨"", [⟨e.name, ""⟩]⟩ := by
    rw [ofChars_eq_ofLines, lines_append_break hbreak, lines_nil, ofLines_singleton_of_marker hline,
      lineName_concat hbreak, lineName_markerOf h, String.ofList_toList]
  rw [formatEntry_eq, ofChars_append (Or.inr List.getLast?_concat), hmarker, ofChars_terminated,
    append_of_files (List.cons_ne_nil _ _), extendLast, String.empty_append]
  rfl

/-- **What is read of a bundle**: file by file, what has become of each of them. -/
theorem ofChars_flatMap_formatEntry {files : List Entry} (h : ∀ e ∈ files, IsName e.name.toList) :
    ofChars (files.flatMap formatEntry) = ⟨"", files.flatMap entriesOf⟩ := by
  induction files with
  | nil => decide +kernel
  | cons e files ih =>
    have he := ofChars_formatEntry (h e List.mem_cons_self)
    have hfiles := ih fun e' he' => h e' (List.mem_cons_of_mem e he')
    rw [List.flatMap_cons, ofChars_append (formatEntry_ended e), he, hfiles,
      append_of_comment_empty _ rfl, List.flatMap_cons]

theorem parse_format_bundle {files : List Entry} (h : ∀ e ∈ files, IsName e.name.toList) :
    parse (format ⟨"", files⟩) = ⟨"", files.flatMap entriesOf⟩ := by
  rw [parse, format, String.toList_ofList]
  exact ofChars_flatMap_formatEntry h

/-- Each file of a bundle is read back exactly when none of them has a marker line. -/
theorem parse_format_bundle_eq_iff {files : List Entry} (h : ∀ e ∈ files, IsName e.name.toList) :
    parse (format ⟨"", files⟩) = ⟨"", files.map endEntry⟩ ↔
      ∀ e ∈ files, NoMarker e.data.toList := by
  have hall : endAll ⟨"", files⟩ = ⟨"", files.map endEntry⟩ := rfl
  rw [parse, ofChars_eq_ofLines, ← hall]
  constructor
  · intro hread
    have hwell : IsWellFormed (endAll ⟨"", files⟩) := by
      rw [← hread]
      exact isWellFormed_ofLines _
    exact ((isWellFormed_endAll _).mp hwell).noMarker_data
  · intro hdata
    refine ofLines_format ⟨h, ?_, hdata⟩
    intro line hline
    cases hline

end GoOutline.Archive

namespace GoOutline.Command

open GoOutline.Archive

/-- Files that can be read are read in their order. -/
theorem mapM_readEntry {w : Surroundings} {content : String → String} {paths : List String}
    (h : ∀ path ∈ paths, w.readText path = .ok (content path)) :
    paths.mapM (readEntry w) = .ok (paths.map fun path => ⟨path, content path⟩) := by
  induction paths with
  | nil => rfl
  | cons path paths ih =>
    have hpath : readEntry w path = .ok ⟨path, content path⟩ := by
      rw [readEntry, readPath, h path List.mem_cons_self]
      rfl
    rw [List.mapM_cons, hpath, ih fun path' hpath' => h path' (List.mem_cons_of_mem path hpath')]
    rfl

/-- **What is read and shown of files that are given by their paths.** The text that is made of them
has no comment, and it has for each path, in their order, an entry with this path as its name and
with what stands before the first marker line of the file, and then the files that the marker lines
of the file begin. So there is one entry for each path, with all of the file, exactly when none of
the files has a marker line; and then there is one root for each path with the right ending, and it
is the outline of that file. -/
theorem parse_readInput_files {w : Surroundings} {content : String → String} {paths : List String}
    (hread : ∀ path ∈ paths, w.readText path = .ok (content path))
    (hname : ∀ path ∈ paths, IsName path.toList) :
    ∃ blob, readInput w (.files paths) = .ok blob ∧
      Archive.parse blob
        = ⟨"", paths.flatMap fun path => entriesOf ⟨path, content path⟩⟩ ∧
      (Archive.parse blob = ⟨"", paths.map fun path => ⟨path, ended (content path)⟩⟩ ↔
        ∀ path ∈ paths, NoMarker (content path).toList) ∧
      ((∀ path ∈ paths, NoMarker (content path).toList) → ∀ ending : String,
        rootsIn ending blob = (paths.filter fun path => ending.toList.isSuffixOf path.toList).map
          fun path => Entry.outline ⟨path, ended (content path)⟩) := by
  have hnames : ∀ e ∈ paths.map (fun path => (⟨path, content path⟩ : Entry)),
      IsName e.name.toList := by
    intro e he
    obtain ⟨path, hpath, rfl⟩ := List.mem_map.mp he
    exact hname path hpath
  have hiff := parse_format_bundle_eq_iff hnames
  rw [List.map_map, List.forall_mem_map] at hiff
  refine ⟨_, ?_, ?_, hiff, ?_⟩
  · rw [readInput, mapM_readEntry hread]
    rfl
  · rw [parse_format_bundle hnames, List.flatMap_map]
  · intro hdata ending
    rw [rootsIn_eq_map, hiff.mpr hdata, Archive.matching, List.filter_map, List.map_map]
    rfl

/-- Surroundings with three files. A line of the raw string in the last one is a marker line. -/
def looseFiles : Surroundings :=
  .onDisk ⟨.folder [("a.go", .file (some "package a")),
    ("notes.txt", .file (some "see -- b.go --\n")),
    ("b.go", .file (some "package b\n\nvar s = `\n-- c.go --\n`\n"))], []⟩ {} (.ok "")

theorem parse_readInput_files_notes :
    ∃ blob, readInput looseFiles (.files ["a.go", "notes.txt"]) = .ok blob ∧
      Archive.parse blob = ⟨"", [⟨"a.go", "package a\n"⟩, ⟨"notes.txt", "see -- b.go --\n"⟩]⟩ ∧
      rootsIn ".go" blob = [Entry.outline ⟨"a.go", "package a\n"⟩] := by
  let content := fun path => if path = "a.go" then "package a" else "see -- b.go --\n"
  have hread : ∀ path ∈ ["a.go", "notes.txt"], looseFiles.readText path = .ok (content path) := by
    decide +kernel
  have hname : ∀ path ∈ ["a.go", "notes.txt"], IsName path.toList := by decide +kernel
  have hdata : ∀ path ∈ ["a.go", "notes.txt"], NoMarker (content path).toList := by
    decide +kernel
  obtain ⟨blob, hblob, -, hiff, hroots⟩ := parse_readInput_files hread hname
  refine ⟨blob, hblob, ?_, ?_⟩
  · rw [hiff.mpr hdata]
    decide +kernel
  · have hmatching : (["a.go", "notes.txt"].filter fun path =>
        ".go".toList.isSuffixOf path.toList) = ["a.go"] := by decide +kernel
    have hended : ended (content "a.go") = "package a\n" := by decide +kernel
    rw [hroots hdata ".go", hmatching, List.map_singleton, hended]

/-- A file with a marker line, even inside a raw string, does not keep an entry to itself: it is cut
off there, and the rest is shown as another file. -/
theorem readInput_files_rawString :
    looseFiles.readText "b.go" = .ok "package b\n\nvar s = `\n-- c.go --\n`\n" ∧
    IsName "b.go".toList ∧
    ∃ blob, readInput looseFiles (.files ["b.go"]) = .ok blob ∧
      Archive.parse blob = ⟨"", [⟨"b.go", "package b\n\nvar s = `\n"⟩, ⟨"c.go", "`\n"⟩]⟩ ∧
      Archive.parse blob ≠ ⟨"", [⟨"b.go", "package b\n\nvar s = `\n-- c.go --\n`\n"⟩]⟩ ∧
      (rootsIn ".go" blob).length = 2 := by
  refine ⟨by decide +kernel, by decide +kernel,
    "-- b.go --\npackage b\n\nvar s = `\n-- c.go --\n`\n", by decide +kernel, by decide +kernel,
    by decide +kernel, ?_⟩
  rw [rootsIn_eq_map, List.length_map]
  decide +kernel

end GoOutline.Command
