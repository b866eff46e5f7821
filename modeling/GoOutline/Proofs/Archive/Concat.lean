import GoOutline.Proofs.Archive.Format

/-!
# One archive after another

A text is read line by line, so an archive can be read in two parts if the first one ends at the end
of a line. The section that is open there goes on with what the second part has before its first
marker line. The line break that a last section may get is the only thing that depends on where a
text ends.

* `Archive.append`: an archive with another one after it.
* `Archive.filesOfLines_append_lines`, `Archive.before_append_lines`: what more lines add.
* `Archive.endLast_extendLast`, `Archive.endLast_append`: a line break at the end of what was added.
* `Archive.ofLines_append`, `Archive.ofChars_append`: reading in two parts.
* `Archive.ofChars_terminated`: the line break at the end of a text does not matter.
-/

namespace GoOutline.Archive

/-- Some files, with more text at the end of the last one. -/
def extendLast (more : String) : List Entry → List Entry
  | [] => []
  | [e] => [⟨e.name, e.data ++ more⟩]
  | e :: next :: rest => e :: extendLast more (next :: rest)

/-- An archive with another one after it. The comment of the second one goes to the end of the last
section of the first one, which is its comment if it has no files. -/
def append (a b : Archive) : Archive :=
  match a.files with
  | [] => ⟨a.comment ++ b.comment, b.files⟩
  | e :: rest => ⟨a.comment, extendLast b.comment (e :: rest) ++ b.files⟩

theorem append_of_no_files {a : Archive} (h : a.files = []) (b : Archive) :
    a.append b = ⟨a.comment ++ b.comment, b.files⟩ := by
  rw [append, h]

theorem append_of_files {a : Archive} (h : a.files ≠ []) (b : Archive) :
    a.append b = ⟨a.comment, extendLast b.comment a.files ++ b.files⟩ := by
  obtain ⟨e, rest, hfiles⟩ := List.exists_cons_of_ne_nil h
  rw [append, hfiles]

theorem extendLast_eq_nil_iff (more : String) (files : List Entry) :
    extendLast more files = [] ↔ files = [] := by
  rcases files with _ | ⟨e, _ | ⟨next, rest⟩⟩
  · exact iff_of_true rfl rfl
  · exact iff_of_false (List.cons_ne_nil _ _) (List.cons_ne_nil _ _)
  · exact iff_of_false (List.cons_ne_nil _ _) (List.cons_ne_nil _ _)

theorem extendLast_empty (files : List Entry) : extendLast "" files = files := by
  induction files with
  | nil => rfl
  | cons e files ih =>
    cases files with
    | nil => rw [extendLast, String.append_empty]
    | cons next rest => rw [extendLast, ih]

/-- An archive without a comment adds its files only. -/
theorem append_of_comment_empty (a : Archive) {b : Archive} (h : b.comment = "") :
    a.append b = ⟨a.comment, a.files ++ b.files⟩ := by
  by_cases hfiles : a.files = []
  · rw [append_of_no_files hfiles, h, String.append_empty, hfiles, List.nil_append]
  · rw [append_of_files hfiles, h, extendLast_empty]

/-! ### More lines -/

theorem before_cons_of_not_marker {line : List Char} (h : ¬ IsMarkerLine line)
    (rest : List (List Char)) : before (line :: rest) = line ++ before rest := by
  have happend := before_append (List.forall_mem_singleton.mpr h) rest
  rwa [List.singleton_append, List.flatten_singleton] at happend

theorem filesOfLines_cons_of_not_marker {line : List Char} (h : ¬ IsMarkerLine line)
    (rest : List (List Char)) : filesOfLines (line :: rest) = filesOfLines rest := by
  rw [filesOfLines, if_neg h]

theorem filesOfLines_ne_nil_of_marker {line : List Char} (h : IsMarkerLine line)
    (rest : List (List Char)) : filesOfLines (line :: rest) ≠ [] := by
  rw [filesOfLines_cons_of_marker h]
  exact List.cons_ne_nil _ _

/-- More lines go on with the text before the first marker line if there is none yet. -/
theorem before_append_lines (ls ms : List (List Char)) :
    before (ls ++ ms) = if filesOfLines ls = [] then before ls ++ before ms else before ls := by
  induction ls with
  | nil => rfl
  | cons line ls ih =>
    rw [List.cons_append]
    by_cases hline : IsMarkerLine line
    · rw [if_neg (filesOfLines_ne_nil_of_marker hline ls), before_cons_of_marker hline,
        before_cons_of_marker hline]
    · rw [before_cons_of_not_marker hline, before_cons_of_not_marker hline,
        filesOfLines_cons_of_not_marker hline, ih]
      split
      · rw [List.append_assoc]
      · rfl

/-- More lines go on with the last file, and then come the files that begin in them. -/
theorem filesOfLines_append_lines (ls ms : List (List Char)) :
    filesOfLines (ls ++ ms)
      = extendLast (String.ofList (before ms)) (filesOfLines ls) ++ filesOfLines ms := by
  induction ls with
  | nil => rfl
  | cons line ls ih =>
    rw [List.cons_append]
    by_cases hline : IsMarkerLine line
    · rw [filesOfLines_cons_of_marker hline, filesOfLines_cons_of_marker hline, ih,
        before_append_lines]
      cases filesOfLines ls with
      | nil => rw [if_pos rfl, String.ofList_append]; rfl
      | cons e rest => rw [if_neg (List.cons_ne_nil e rest)]; rfl
    · rw [filesOfLines_cons_of_not_marker hline, filesOfLines_cons_of_not_marker hline, ih]

/-! ### Ends of sections -/

/-- What is added to a text that is ended gets the line break. -/
theorem terminated_append_of_terminated {text : List Char} (h : terminated text = text)
    (more : List Char) : terminated (text ++ more) = text ++ terminated more := by
  by_cases hmore : more = []
  · rw [hmore, List.append_nil, h]
    exact (List.append_nil text).symm
  · exact terminated_append text hmore

theorem ended_append {text : String} (h : ended text = text) (more : String) :
    ended (text ++ more) = text ++ ended more := by
  have hchars : terminated text.toList = text.toList := by rw [← toList_ended, h]
  rw [← String.toList_inj, toList_ended, String.toList_append,
    terminated_append_of_terminated hchars, String.toList_append, toList_ended]

theorem terminated_flatten {ls : List (List Char)}
    (h : ∀ line ∈ ls, line.getLast? = some '\n') : terminated ls.flatten = ls.flatten := by
  induction ls with
  | nil => rfl
  | cons line ls ih =>
    have hline : terminated line = line := by
      rw [terminated_eq, if_pos (Or.inr (h line List.mem_cons_self))]
    have hls := ih fun line' hline' => h line' (List.mem_cons_of_mem line hline')
    rw [List.flatten_cons, terminated_append_of_terminated hline, hls]

/-- A section that has only lines that are ended is ended. -/
theorem ended_before {ls : List (List Char)} (h : ∀ line ∈ ls, line.getLast? = some '\n') :
    ended (String.ofList (before ls)) = String.ofList (before ls) := by
  rw [← ofList_terminated, before, terminated_flatten]
  intro line hline
  exact h line ((List.takeWhile_prefix _).subset hline)

theorem ended_of_mem_filesOfLines {ls : List (List Char)}
    (h : ∀ line ∈ ls, line.getLast? = some '\n') :
    ∀ e ∈ filesOfLines ls, ended e.data = e.data := by
  induction ls with
  | nil => intro e he; cases he
  | cons line ls ih =>
    have hls : ∀ line' ∈ ls, line'.getLast? = some '\n' := fun line' hline' =>
      h line' (List.mem_cons_of_mem line hline')
    intro e he
    by_cases hline : IsMarkerLine line
    · rw [filesOfLines_cons_of_marker hline] at he
      rcases List.mem_cons.mp he with rfl | he
      · exact ended_before hls
      · exact ih hls e he
    · rw [filesOfLines_cons_of_not_marker hline] at he
      exact ih hls e he

section EndLast

variable {files : List Entry} (h : ∀ e ∈ files, ended e.data = e.data)
include h

theorem map_endEntry_eq_self : files.map endEntry = files := by
  have hentry : ∀ e ∈ files, endEntry e = id e := by
    intro e he
    rw [endEntry, h e he]
    rfl
  rw [List.map_congr_left hentry, List.map_id]

theorem endLast_eq_self : endLast files = files := by
  rw [← map_endEntry_eq_self h, endLast_map_endEntry]

/-- A line break goes to the end of what was added to the last file. -/
theorem endLast_extendLast (more : String) :
    endLast (extendLast more files) = extendLast (ended more) files := by
  induction files with
  | nil => rfl
  | cons e files ih =>
    cases files with
    | nil =>
      rw [extendLast, endLast, extendLast, ended_append (h e List.mem_cons_self)]
    | cons next rest =>
      have hrest := ih fun e' he' => h e' (List.mem_cons_of_mem e he')
      have hne : extendLast more (next :: rest) ≠ [] := fun hnil =>
        List.cons_ne_nil next rest ((extendLast_eq_nil_iff more _).mp hnil)
      obtain ⟨e', rest', hcons⟩ := List.exists_cons_of_ne_nil hne
      rw [extendLast, extendLast, ← hrest, hcons, endLast]

end EndLast

theorem endLast_append (files : List Entry) {more : List Entry} (h : more ≠ []) :
    endLast (files ++ more) = files ++ endLast more := by
  induction files with
  | nil => rfl
  | cons e files ih =>
    obtain ⟨next, rest, hcons⟩ := List.exists_cons_of_ne_nil
      (List.append_ne_nil_of_right_ne_nil files h)
    rw [List.cons_append, List.cons_append, ← ih, hcons, endLast]

/-! ### Reading in two parts -/

theorem ofLines_of_no_files {ls : List (List Char)} (h : filesOfLines ls = []) :
    ofLines ls = ⟨ended (String.ofList (before ls)), []⟩ := by
  rw [ofLines, h]

theorem ofLines_of_files {ls : List (List Char)} (h : filesOfLines ls ≠ []) :
    ofLines ls = ⟨String.ofList (before ls), endLast (filesOfLines ls)⟩ := by
  obtain ⟨e, rest, hfiles⟩ := List.exists_cons_of_ne_nil h
  rw [ofLines, hfiles]

/-- **Lines can be read in two parts**, if those of the first part are ended. -/
theorem ofLines_append {ls : List (List Char)} (h : ∀ line ∈ ls, line.getLast? = some '\n')
    (ms : List (List Char)) : ofLines (ls ++ ms) = (ofLines ls).append (ofLines ms) := by
  have hbefore := ended_before h
  have hdata := ended_of_mem_filesOfLines h
  have hfiles := filesOfLines_append_lines ls ms
  have hcomment := before_append_lines ls ms
  by_cases hls : filesOfLines ls = []
  · rw [if_pos hls] at hcomment
    rw [hls, extendLast, List.nil_append] at hfiles
    rw [ofLines_of_no_files hls, append_of_no_files rfl, hbefore]
    by_cases hms : filesOfLines ms = []
    · rw [ofLines_of_no_files (hfiles.trans hms), ofLines_of_no_files hms, hcomment,
        String.ofList_append, ended_append hbefore]
    · rw [ofLines_of_files (hfiles ▸ hms), ofLines_of_files hms, hcomment, hfiles,
        String.ofList_append]
  · rw [if_neg hls] at hcomment
    have hextended : extendLast (String.ofList (before ms)) (filesOfLines ls) ≠ [] := fun hnil =>
      hls ((extendLast_eq_nil_iff _ _).mp hnil)
    have hne : filesOfLines (ls ++ ms) ≠ [] := by
      rw [hfiles]
      exact List.append_ne_nil_of_left_ne_nil hextended _
    rw [ofLines_of_files hne, ofLines_of_files hls, endLast_eq_self hdata, append_of_files hls,
      hcomment, hfiles]
    by_cases hms : filesOfLines ms = []
    · rw [ofLines_of_no_files hms, hms, List.append_nil, List.append_nil,
        endLast_extendLast hdata]
    · rw [ofLines_of_files hms, endLast_append _ hms]

/-- All lines of a text are ended if the last one is. -/
theorem getLast?_of_mem_lines {text : List Char} (h : text = [] ∨ text.getLast? = some '\n') :
    ∀ line ∈ lines text, line.getLast? = some '\n' := by
  intro line hline
  -- the last line is one of the others when there is another line after it
  have hmem : line ∈ (lines (text ++ ['-'])).dropLast := by
    rw [lines_append h, show lines ['-'] = [['-']] from rfl, List.dropLast_concat]
    exact hline
  exact getLast?_of_mem_dropLast_lines hmem

/-- **A text can be read in two parts**, if the first part ends at the end of a line. -/
theorem ofChars_append {a : List Char} (h : a = [] ∨ a.getLast? = some '\n') (b : List Char) :
    ofChars (a ++ b) = (ofChars a).append (ofChars b) := by
  rw [ofChars_eq_ofLines, ofChars_eq_ofLines, ofChars_eq_ofLines, lines_append h,
    ofLines_append (getLast?_of_mem_lines h)]

/-- A marker line alone stands for an empty file. -/
theorem ofLines_singleton_of_marker {line : List Char} (h : IsMarkerLine line) :
    ofLines [line] = ⟨"", [⟨String.ofList (lineName line), ""⟩]⟩ := by
  rw [ofLines_of_files (filesOfLines_ne_nil_of_marker h []), before_cons_of_marker h,
    filesOfLines_cons_of_marker h]
  rfl

/-- Any other line alone is a comment. -/
theorem ofLines_singleton_of_not_marker {line : List Char} (h : ¬ IsMarkerLine line) :
    ofLines [line] = ⟨ended (String.ofList line), []⟩ := by
  have hnone : ∀ line' ∈ [line], ¬ IsMarkerLine line' := List.forall_mem_singleton.mpr h
  rw [ofLines_of_no_files (filesOfLines_of_no_marker hnone), before_of_no_marker hnone,
    List.flatten_singleton]

/-- A text that begins with a marker line has no comment. -/
theorem comment_of_marker {text line : List Char} {rest : List (List Char)}
    (h : lines text = line :: rest) (hline : IsMarkerLine line) : (ofChars text).comment = "" := by
  rw [ofChars_eq_ofLines, h, ofLines_of_files (filesOfLines_ne_nil_of_marker hline rest),
    before_cons_of_marker hline]

/-- The line break at the end of a text does not matter: a last section would get it anyway, and a
marker line gives the same name without it. -/
theorem ofChars_terminated (text : List Char) : ofChars (terminated text) = ofChars text := by
  induction text using line_induction with
  | nil => rfl
  | last line hne hline =>
    have hterminated := terminated_of_not_mem hne hline
    have hlines : lines (terminated line) = [terminated line] := by
      rw [hterminated, lines_append_break hline, lines_nil]
    have hiff : IsMarkerLine (terminated line) ↔ IsMarkerLine line := by
      rw [hterminated, isMarkerLine_concat hline]
    rw [ofChars_eq_ofLines, ofChars_eq_ofLines, hlines, lines_of_not_mem hne hline]
    by_cases hmarker : IsMarkerLine line
    · rw [ofLines_singleton_of_marker (hiff.mpr hmarker), ofLines_singleton_of_marker hmarker,
        hterminated, lineName_concat hline]
    · rw [ofLines_singleton_of_not_marker fun h => hmarker (hiff.mp h),
        ofLines_singleton_of_not_marker hmarker, ofList_terminated, ended_ended]
  | line line rest hline ih =>
    have hsplit : ∀ more, line ++ '\n' :: more = (line ++ ['\n']) ++ more := by
      intro more
      rw [List.append_assoc, List.singleton_append]
    have hended : line ++ ['\n'] = [] ∨ (line ++ ['\n']).getLast? = some '\n' :=
      Or.inr List.getLast?_concat
    rw [hsplit, terminated_append_of_terminated (terminated_concat line), ofChars_append hended,
      ofChars_append hended, ih]

end GoOutline.Archive
