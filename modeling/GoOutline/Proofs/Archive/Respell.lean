import GoOutline.Proofs.Archive.Concat

/-!
# Reading a text and writing it again

No line is lost or moved when a text is read and written again. Marker lines get one fixed spelling,
the text is ended if it is not, and everything else is as it was. So a second time nothing changes
any more.

* `Archive.respell`: a line as it is written.
* `Archive.ofChars_eq_sections`: the sections of an archive that is read are made of ended lines.
* `Archive.toList_format_ofChars`: what is written for a text that was read, joined.
* `Archive.lines_format_ofChars`: the same line by line.
* `Archive.endAll_ofChars`: sections that are read have their line breaks.
* `Archive.format_parse_iff`: texts and archives that stay the same.
-/

namespace GoOutline.Archive

open GoOutline.Text (trim)

/-! ### Lines as they are written -/

/-- A line as it is written. A marker line has its name between the dashes, one blank on each side
and a line break at the end; any other line stays what it is. -/
def respell (line : List Char) : List Char :=
  if IsMarkerLine line then "-- ".toList ++ lineName line ++ " --\n".toList else line

theorem respell_of_marker {line : List Char} (h : IsMarkerLine line) :
    respell line = markerOf (lineName line) ++ ['\n'] := by
  rw [respell, if_pos h, markerOf, List.append_assoc (opening ++ lineName line)]
  rfl

theorem respell_of_not_marker {line : List Char} (h : ¬ IsMarkerLine line) : respell line = line := by
  rw [respell, if_neg h]

/-- A line of a text that is ended is written as a line. -/
theorem exists_respell_eq {text line : List Char} (hline : line ∈ lines text)
    (hended : line.getLast? = some '\n') : ∃ start, respell line = start ++ ['\n'] ∧ '\n' ∉ start := by
  by_cases hmarker : IsMarkerLine line
  · exact ⟨markerOf (lineName line), respell_of_marker hmarker,
      not_mem_markerOf (isName_lineName hline hmarker).not_mem_break⟩
  · rw [respell_of_not_marker hmarker]
    rcases of_mem_lines hline with ⟨-, hbreak⟩ | hstart
    · exact absurd (List.mem_of_getLast? hended) hbreak
    · exact hstart

/-- The marker lines that are written as they are have a name between the dashes that is trimmed. -/
theorem respell_eq_self_iff {text line : List Char} (hline : line ∈ lines text)
    (hmarker : IsMarkerLine line) :
    respell line = line ↔
      ∃ name, trim name = name ∧ line = "-- ".toList ++ name ++ " --\n".toList := by
  constructor
  · intro h
    refine ⟨lineName line, trim_of_isName (isName_lineName hline hmarker), ?_⟩
    rwa [respell, if_pos hmarker, eq_comm] at h
  · rintro ⟨name, htrim, rfl⟩
    have hspelled : "-- ".toList ++ name ++ " --\n".toList = markerOf name ++ ['\n'] := by
      rw [markerOf, List.append_assoc (opening ++ name)]
      rfl
    -- the line break at the end is the only one
    have hbreak : '\n' ∉ markerOf name := by
      rw [hspelled] at hline
      rcases of_mem_lines hline with ⟨-, hnone⟩ | ⟨start, heq, hstart⟩
      · exact absurd (List.mem_append_right _ (List.mem_singleton_self '\n')) hnone
      · rwa [List.append_cancel_right heq]
    have hname : '\n' ∉ name := fun hmem =>
      hbreak (List.mem_append_left _ (List.mem_append_right _ hmem))
    rw [respell_of_marker hmarker, hspelled, lineName_concat hbreak,
      lineName_markerOf_eq_trim hname, htrim]

/-! ### Sections -/

theorem terminated_eq_self_iff (text : List Char) :
    terminated text = text ↔ text = [] ∨ text.getLast? = some '\n' := by
  constructor
  · intro h
    rw [← h]
    exact terminated_ended text
  · intro h
    rw [terminated_eq, if_pos h]

/-- What is read of a text are its sections with all their lines, once its last line is ended. -/
theorem ofChars_eq_sections (text : List Char) :
    ofChars text = ⟨String.ofList (before (lines (terminated text))),
      filesOfLines (lines (terminated text))⟩ := by
  have hended := getLast?_of_mem_lines (terminated_ended text)
  rw [← ofChars_terminated, ofChars_eq_ofLines]
  by_cases h : filesOfLines (lines (terminated text)) = []
  · rw [ofLines_of_no_files h, ended_before hended, h]
  · rw [ofLines_of_files h, endLast_eq_self (ended_of_mem_filesOfLines hended)]

theorem endAll_ofChars (text : List Char) : endAll (ofChars text) = ofChars text := by
  have hended := getLast?_of_mem_lines (terminated_ended text)
  rw [ofChars_eq_sections, endAll, ended_before hended,
    map_endEntry_eq_self (ended_of_mem_filesOfLines hended)]

/-- Sections are written as the lines they were read from. -/
theorem flatMap_respell {ls : List (List Char)} (h : ∀ line ∈ ls, line.getLast? = some '\n') :
    terminated (before ls) ++ (filesOfLines ls).flatMap formatEntry = ls.flatMap respell := by
  induction ls with
  | nil => rfl
  | cons line ls ih =>
    have hrest := ih fun line' hline' => h line' (List.mem_cons_of_mem line hline')
    by_cases hmarker : IsMarkerLine line
    · have hentry : formatEntry ⟨String.ofList (lineName line), String.ofList (before ls)⟩
          = respell line ++ terminated (before ls) := by
        rw [respell_of_marker hmarker, formatEntry, markerOf, String.toList_ofList,
          String.toList_ofList]
      rw [before_cons_of_marker hmarker, filesOfLines_cons_of_marker hmarker, List.flatMap_cons,
        List.flatMap_cons, hentry, List.append_assoc, hrest]
      rfl
    · have hline : terminated line = line :=
        (terminated_eq_self_iff line).mpr (Or.inr (h line List.mem_cons_self))
      rw [before_cons_of_not_marker hmarker, filesOfLines_cons_of_not_marker hmarker,
        terminated_append_of_terminated hline, List.append_assoc, hrest, List.flatMap_cons,
        respell_of_not_marker hmarker]

/-! ### Texts -/

/-- **What is written for a text that was read**: its lines, the last one ended, as they are
written. -/
theorem toList_format_ofChars (text : List Char) :
    (format (ofChars text)).toList = (lines (terminated text)).flatMap respell := by
  rw [ofChars_eq_sections, format, String.toList_ofList, String.toList_ofList,
    flatMap_respell (getLast?_of_mem_lines (terminated_ended text))]

/-- Every line that is written comes from the line with the same number. -/
theorem lines_format_ofChars (text : List Char) :
    lines (format (ofChars text)).toList = (lines (terminated text)).map respell := by
  rw [toList_format_ofChars, List.flatMap_def]
  apply lines_flatten
  intro line' hline'
  obtain ⟨line, hline, rfl⟩ := List.mem_map.mp hline'
  exact exists_respell_eq hline (getLast?_of_mem_lines (terminated_ended text) line hline)

theorem ofChars_format_ofChars (text : List Char) :
    ofChars (format (ofChars text)).toList = ofChars text := by
  rw [ofChars_eq_ofLines, ofLines_format, endAll_ofChars]
  rw [ofChars_eq_ofLines]
  exact isWellFormed_ofLines text

/-- A text that was read is written as it was exactly if it is ended and its lines are written as
they are. -/
theorem toList_format_ofChars_eq_self_iff (text : List Char) :
    (format (ofChars text)).toList = text ↔
      terminated text = text ∧ ∀ line ∈ lines text, respell line = line := by
  constructor
  · intro h
    have hlines := lines_format_ofChars text
    rw [h] at hlines
    have hended : terminated text = text := by
      rw [← flatten_lines text, hlines]
      apply terminated_flatten
      intro line' hline'
      obtain ⟨line, hline, rfl⟩ := List.mem_map.mp hline'
      obtain ⟨start, hstart, -⟩ :=
        exists_respell_eq hline (getLast?_of_mem_lines (terminated_ended text) line hline)
      rw [hstart, List.getLast?_concat]
    rw [hended] at hlines
    refine ⟨hended, List.map_inj_left.mp ?_⟩
    rw [← hlines]
    exact (List.map_id (lines text)).symm
  · rintro ⟨hended, hlines⟩
    have hmap : (lines text).map respell = lines text := by
      rw [List.map_congr_left (g := id) hlines, List.map_id]
    rw [toList_format_ofChars, hended, List.flatMap_def, hmap, flatten_lines]

/-- **Reading and writing keeps every line in its place.** What is written for a text that was read
is the text with its last line ended and with each marker line in its plain spelling, line for line.
What is read of that is the same archive, and writing it again gives the same text. A text is written
as it was exactly if it is empty or ended and all of its marker lines have the plain spelling. The
archives that can be read are exactly those that are read back after writing. -/
theorem format_parse_iff :
    (∀ text : String,
      format (parse text) = String.ofList ((lines (ended text).toList).flatMap respell) ∧
      lines (format (parse text)).toList = (lines (ended text).toList).map respell ∧
      parse (format (parse text)) = parse text ∧
      format (parse (format (parse text))) = format (parse text) ∧
      (format (parse text) = text ↔
        (text = "" ∨ text.toList.getLast? = some '\n') ∧
          ∀ line ∈ lines text.toList, IsMarkerLine line →
            ∃ name, trim name = name ∧ line = "-- ".toList ++ name ++ " --\n".toList)) ∧
    ∀ a : Archive, (∃ text, parse text = a) ↔ parse (format a) = a := by
  have hread : ∀ text : String, parse (format (parse text)) = parse text := fun text =>
    ofChars_format_ofChars text.toList
  refine ⟨?_, ?_⟩
  · intro text
    refine ⟨?_, ?_, hread text, by rw [hread], ?_⟩
    · rw [toList_ended, ← toList_format_ofChars, String.ofList_toList]
      rfl
    · rw [toList_ended]
      exact lines_format_ofChars text.toList
    · have hempty : text = "" ↔ text.toList = [] := by
        rw [← String.toList_inj, String.toList_empty]
      rw [hempty, ← terminated_eq_self_iff, ← String.toList_inj]
      refine (toList_format_ofChars_eq_self_iff text.toList).trans (and_congr_right fun _ => ?_)
      refine forall₂_congr fun line hline => ?_
      by_cases hmarker : IsMarkerLine line
      · rw [respell_eq_self_iff hline hmarker]
        exact (imp_iff_right hmarker).symm
      · exact iff_of_true (respell_of_not_marker hmarker) fun h => absurd h hmarker
  · intro a
    constructor
    · rintro ⟨text, rfl⟩
      exact hread text
    · intro h
      exact ⟨format a, h⟩

-- blanks and a carriage return around a name go, and those in other lines stay
example : format (parse "-- \r\n--  b.go --\r\ny ") = "-- \r\n-- b.go --\ny \n" := by
  decide +kernel

end GoOutline.Archive
