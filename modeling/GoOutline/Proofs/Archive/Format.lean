import GoOutline.Proofs.Archive.Read

/-!
# Writing an archive and reading it again

Nothing is escaped when an archive is written. What is read back is the same archive, up to line
breaks at the ends of its sections, exactly when no name and no section can be misunderstood.

* `Archive.IsName`: the names that a marker line can carry.
* `Archive.IsWellFormed`: all names can be carried, and no section has a marker line in it.
* `Archive.ofLines_format`: a well-formed archive is read back.
* `Archive.isWellFormed_ofLines`: every archive that is read is well-formed.
* `Archive.parse_format_iff`: exactly the well-formed archives are read back.
-/

namespace GoOutline.Archive

open GoOutline.Text (isWhite trim trimEnd)

/-! ### Names -/

/-- The names that a marker line can carry: they have characters, no line break among them and no
white space as the first or the last one. -/
structure IsName (name : List Char) : Prop where
  ne_nil : name ≠ []
  not_mem_break : '\n' ∉ name
  head_not_white : ∀ c, name.head? = some c → isWhite c = false
  last_not_white : ∀ c, name.getLast? = some c → isWhite c = false

theorem dropWhile_isWhite_of_head {cs : List Char}
    (h : ∀ c, cs.head? = some c → isWhite c = false) : cs.dropWhile isWhite = cs := by
  cases cs with
  | nil => rfl
  | cons c cs => rw [List.dropWhile_cons_of_neg (by rw [h c rfl]; exact Bool.false_ne_true)]

theorem head_dropWhile_isWhite (cs : List Char) (c : Char)
    (h : (cs.dropWhile isWhite).head? = some c) : isWhite c = false := by
  have hnot := List.head?_dropWhile_not isWhite cs
  rw [h] at hnot
  simpa using hnot

theorem trim_of_isName {name : List Char} (h : IsName name) : trim name = name := by
  have hlast : ∀ c, name.reverse.head? = some c → isWhite c = false := by
    intro c hc
    rw [List.head?_reverse] at hc
    exact h.last_not_white c hc
  rw [trim, dropWhile_isWhite_of_head h.head_not_white, trimEnd, dropWhile_isWhite_of_head hlast,
    List.reverse_reverse]

/-- What trimming leaves has no white space at its start: a blank at the end is cut off before it
could become the first character. -/
theorem trim_prefix_dropWhile (cs : List Char) : trim cs <+: cs.dropWhile isWhite := by
  rw [trim, trimEnd]
  have h := List.dropWhile_suffix isWhite (l := (cs.dropWhile isWhite).reverse)
  rw [← List.reverse_prefix, List.reverse_reverse] at h
  exact h

theorem subset_trim {cs : List Char} {c : Char} (h : c ∈ trim cs) : c ∈ cs :=
  (List.dropWhile_suffix isWhite).subset ((trim_prefix_dropWhile cs).subset h)

theorem head_trim {cs : List Char} {c : Char} (h : (trim cs).head? = some c) : isWhite c = false := by
  apply head_dropWhile_isWhite cs c
  obtain ⟨rest, hrest⟩ := trim_prefix_dropWhile cs
  rw [← hrest, List.head?_append, h]
  rfl

theorem last_trim {cs : List Char} {c : Char} (h : (trim cs).getLast? = some c) :
    isWhite c = false := by
  rw [trim, trimEnd, List.getLast?_reverse] at h
  exact head_dropWhile_isWhite _ c h

theorem isName_iff (name : List Char) :
    IsName name ↔ name ≠ [] ∧ '\n' ∉ name ∧ trim name = name := by
  constructor
  · intro h
    exact ⟨h.ne_nil, h.not_mem_break, trim_of_isName h⟩
  · intro ⟨hne, hbreak, htrim⟩
    refine ⟨hne, hbreak, ?_, ?_⟩
    · intro c hc
      rw [← htrim] at hc
      exact head_trim hc
    · intro c hc
      rw [← htrim] at hc
      exact last_trim hc

instance (name : List Char) : Decidable (IsName name) :=
  decidable_of_iff _ (isName_iff name).symm

/-! ### Marker lines and names -/

theorem not_mem_content {text line : List Char} (h : line ∈ lines text) : '\n' ∉ content line := by
  rcases of_mem_lines h with ⟨-, hline⟩ | ⟨start, rfl, hstart⟩
  · exact fun hc => hline ((prefix_content line).subset hc)
  · rw [content_concat hstart]
    exact fun hc => hstart ((prefix_content start).subset hc)

/-- A marker line of a text gives a name that a marker line can carry. -/
theorem isName_lineName {text line : List Char} (h : line ∈ lines text)
    (hmarker : IsMarkerLine line) : IsName (lineName line) where
  ne_nil := hmarker.2.2.2
  not_mem_break := by
    intro hbreak
    have hmem := subset_trim hbreak
    exact not_mem_content h (List.mem_of_mem_drop (List.mem_of_mem_take hmem))
  head_not_white := fun _ hc => head_trim hc
  last_not_white := fun _ hc => last_trim hc

/-- The marker line that is written for a name, without its line break. -/
def markerOf (name : List Char) : List Char := opening ++ name ++ closing

theorem not_mem_markerOf {name : List Char} (h : '\n' ∉ name) : '\n' ∉ markerOf name := by
  rw [markerOf, List.mem_append, List.mem_append]
  rintro ((hc | hc) | hc)
  · exact absurd hc (by decide)
  · exact h hc
  · exact absurd hc (by decide)

theorem content_markerOf {name : List Char} (h : '\n' ∉ name) :
    content (markerOf name) = markerOf name := by
  have hlast : (markerOf name).getLast? = some '-' := by
    rw [markerOf, List.getLast?_append]
    rfl
  rw [content_of_not_mem (not_mem_markerOf h), dropReturn, hlast, if_neg (by decide)]

/-- The name that is read from a written marker line is the name without white space around it. -/
theorem lineName_markerOf_eq_trim {name : List Char} (h : '\n' ∉ name) :
    lineName (markerOf name) = trim name := by
  rw [lineName, content_markerOf h, markerOf, List.append_assoc]
  have hdrop : (opening ++ (name ++ closing)).drop 3 = name ++ closing := List.drop_left' rfl
  have hrdrop : (name ++ closing).rdrop 3 = name := List.rdrop_append_length
  rw [hdrop, hrdrop]

theorem lineName_markerOf {name : List Char} (h : IsName name) :
    lineName (markerOf name) = name := by
  rw [lineName_markerOf_eq_trim h.not_mem_break, trim_of_isName h]

/-- What is written before a file is a marker line, and it gives the name of the file. -/
theorem isMarkerLine_markerOf {name : List Char} (h : IsName name) :
    IsMarkerLine (markerOf name) := by
  have hopening : opening <+: markerOf name := by
    rw [markerOf, List.append_assoc]
    exact List.prefix_append _ _
  have hclosing : closing <:+ markerOf name := List.suffix_append _ _
  rw [IsMarkerLine, content_markerOf h.not_mem_break, lineName_markerOf h]
  refine ⟨hopening, hclosing, (six_le_utf8ByteSize_iff hopening hclosing).mpr ?_, h.ne_nil⟩
  rw [markerOf, List.length_append, List.length_append]
  exact Nat.add_le_add_right (Nat.le_add_right 3 _) 3

/-! ### Sections -/

/-- A text in which no file begins. -/
def NoMarker (text : List Char) : Prop := ∀ line ∈ lines text, ¬ IsMarkerLine line

instance (text : List Char) : Decidable (NoMarker text) :=
  inferInstanceAs (Decidable (∀ line ∈ lines text, ¬ IsMarkerLine line))

theorem terminated_of_not_mem {line : List Char} (hne : line ≠ []) (h : '\n' ∉ line) :
    terminated line = line ++ ['\n'] := by
  rw [terminated_eq, if_neg]
  rintro (hnil | hlast)
  · exact hne hnil
  · exact h (List.mem_of_getLast? hlast)

theorem terminated_concat (line : List Char) : terminated (line ++ ['\n']) = line ++ ['\n'] := by
  rw [terminated_eq, if_pos (Or.inr List.getLast?_concat)]

/-- The line break at the end of a section makes no marker line and hides none. -/
theorem noMarker_terminated (text : List Char) : NoMarker (terminated text) ↔ NoMarker text := by
  induction text using line_induction with
  | nil => exact Iff.rfl
  | last line hne hline =>
    rw [NoMarker, NoMarker, terminated_of_not_mem hne hline, lines_append_break hline,
      lines_of_not_mem hne hline, lines_nil, List.forall_mem_singleton, List.forall_mem_singleton,
      isMarkerLine_concat hline]
  | line line rest hline ih =>
    have hterminated : terminated (line ++ '\n' :: rest) = line ++ '\n' :: terminated rest := by
      cases rest with
      | nil => exact terminated_concat line
      | cons c rest =>
        rw [← List.singleton_append, ← List.append_assoc,
          terminated_append _ (List.cons_ne_nil c rest), List.append_assoc]
        rfl
    rw [NoMarker, hterminated, lines_append_break hline, List.forall_mem_cons]
    rw [NoMarker] at ih
    rw [ih, NoMarker, NoMarker, lines_append_break hline, List.forall_mem_cons]

theorem terminated_ended (text : List Char) :
    terminated text = [] ∨ (terminated text).getLast? = some '\n' := by
  rw [terminated_eq]
  split
  · next h => exact h
  · exact Or.inr List.getLast?_concat

theorem toList_ended (text : String) : (ended text).toList = terminated text.toList := by
  rw [← String.ofList_toList (s := text), ← ofList_terminated, String.toList_ofList,
    String.toList_ofList]

theorem terminated_terminated (text : List Char) : terminated (terminated text) = terminated text := by
  rw [terminated_eq (terminated text), if_pos (terminated_ended text)]

theorem ended_ended (text : String) : ended (ended text) = ended text := by
  rw [← String.toList_inj, toList_ended, toList_ended, terminated_terminated]

/-! ### Archives -/

/-- An archive that can be written so that it is understood. -/
structure IsWellFormed (a : Archive) : Prop where
  isName_of_mem : ∀ e ∈ a.files, IsName e.name.toList
  noMarker_comment : NoMarker a.comment.toList
  noMarker_data : ∀ e ∈ a.files, NoMarker e.data.toList

/-- A file with a line break at the end of its data, unless that is empty or has one. -/
def endEntry (e : Entry) : Entry := ⟨e.name, ended e.data⟩

/-- An archive with a line break at the end of each section, unless that is empty or has one. -/
def endAll (a : Archive) : Archive := ⟨ended a.comment, a.files.map endEntry⟩

theorem isWellFormed_endAll (a : Archive) : IsWellFormed (endAll a) ↔ IsWellFormed a := by
  constructor
  · intro h
    refine ⟨?_, ?_, ?_⟩
    · intro e he
      exact h.isName_of_mem (endEntry e) (List.mem_map_of_mem he)
    · have hcomment := h.noMarker_comment
      rwa [endAll, toList_ended, noMarker_terminated] at hcomment
    · intro e he
      have hdata := h.noMarker_data (endEntry e) (List.mem_map_of_mem he)
      rwa [endEntry, toList_ended, noMarker_terminated] at hdata
  · intro h
    refine ⟨?_, ?_, ?_⟩
    · intro e' he'
      obtain ⟨e, he, rfl⟩ := List.mem_map.mp he'
      exact h.isName_of_mem e he
    · rw [endAll, toList_ended, noMarker_terminated]
      exact h.noMarker_comment
    · intro e' he'
      obtain ⟨e, he, rfl⟩ := List.mem_map.mp he'
      rw [endEntry, toList_ended, noMarker_terminated]
      exact h.noMarker_data e he

/-! ### Reading what was written -/

theorem lines_formatEntry_append {e : Entry} (h : '\n' ∉ e.name.toList) (more : List Char) :
    lines (formatEntry e ++ more)
      = (markerOf e.name.toList ++ ['\n']) :: (lines (terminated e.data.toList) ++ lines more) := by
  have hentry : formatEntry e ++ more
      = markerOf e.name.toList ++ '\n' :: (terminated e.data.toList ++ more) := by
    rw [formatEntry, markerOf]
    simp only [List.append_assoc, List.cons_append, List.nil_append]
  rw [hentry, lines_append_break (not_mem_markerOf h), lines_append (terminated_ended _)]

/-- Files that are written one after the other are read one after the other. -/
theorem filesOfLines_flatMap_formatEntry {files : List Entry}
    (hname : ∀ e ∈ files, IsName e.name.toList) (hdata : ∀ e ∈ files, NoMarker e.data.toList) :
    before (lines (files.flatMap formatEntry)) = [] ∧
      filesOfLines (lines (files.flatMap formatEntry)) = files.map endEntry := by
  induction files with
  | nil => exact ⟨rfl, rfl⟩
  | cons e files ih =>
    have he : IsName e.name.toList := hname e List.mem_cons_self
    have hterminated : NoMarker (terminated e.data.toList) :=
      (noMarker_terminated _).mpr (hdata e List.mem_cons_self)
    have hmarker : IsMarkerLine (markerOf e.name.toList ++ ['\n']) :=
      (isMarkerLine_concat (not_mem_markerOf he.not_mem_break)).mpr (isMarkerLine_markerOf he)
    obtain ⟨hbefore, hfiles⟩ := ih (fun e' he' => hname e' (List.mem_cons_of_mem e he'))
      (fun e' he' => hdata e' (List.mem_cons_of_mem e he'))
    rw [List.flatMap_cons, lines_formatEntry_append he.not_mem_break]
    refine ⟨before_cons_of_marker hmarker _, ?_⟩
    rw [filesOfLines_cons_of_marker hmarker, before_append hterminated, hbefore,
      filesOfLines_append hterminated, hfiles, lineName_concat (not_mem_markerOf he.not_mem_break),
      lineName_markerOf he, flatten_lines, List.append_nil, ofList_terminated,
      String.ofList_toList, String.ofList_toList, List.map_cons]
    rfl

theorem endLast_map_endEntry (files : List Entry) :
    endLast (files.map endEntry) = files.map endEntry := by
  induction files with
  | nil => rfl
  | cons e files ih =>
    cases files with
    | nil =>
      rw [List.map_cons, List.map_nil, endLast, endEntry, ended_ended]
    | cons next rest =>
      rw [List.map_cons, List.map_cons] at *
      rw [endLast, ih]

/-- **A well-formed archive is read back**, with line breaks at the ends of its sections. -/
theorem ofLines_format {a : Archive} (h : IsWellFormed a) :
    ofLines (lines (format a).toList) = endAll a := by
  have hcomment : NoMarker (terminated a.comment.toList) :=
    (noMarker_terminated _).mpr h.noMarker_comment
  obtain ⟨hbefore, hfiles⟩ := filesOfLines_flatMap_formatEntry h.isName_of_mem h.noMarker_data
  have hlines : lines (format a).toList
      = lines (terminated a.comment.toList) ++ lines (a.files.flatMap formatEntry) := by
    rw [format, String.toList_ofList, lines_append (terminated_ended _)]
  have hended : String.ofList (terminated a.comment.toList) = ended a.comment := by
    rw [ofList_terminated, String.ofList_toList]
  rw [ofLines, hlines, before_append hcomment, filesOfLines_append hcomment, hbefore, hfiles,
    flatten_lines, List.append_nil, hended, endAll]
  cases hmap : a.files.map endEntry with
  | nil => rw [ended_ended]
  | cons e rest =>
    have hlast := endLast_map_endEntry a.files
    rw [hmap] at hlast
    simp only [hlast]

/-! ### What can be read -/

/-- The lines before the first marker line are no marker lines once they are joined. -/
theorem noMarker_before {text : List Char} {ls ms : List (List Char)}
    (h : lines text = ls ++ ms) : NoMarker (before ms) := by
  obtain ⟨-, hms⟩ := lines_flatten_of_append h
  rw [← List.takeWhile_append_dropWhile (p := fun line => decide (¬ IsMarkerLine line)) (l := ms)]
    at hms
  obtain ⟨hbefore, -⟩ := lines_flatten_of_append hms
  intro line hline
  rw [before, hbefore] at hline
  simpa using List.mem_takeWhile_imp hline

theorem of_mem_filesOfLines {text : List Char} {e : Entry} :
    ∀ {ls ms : List (List Char)}, lines text = ls ++ ms → e ∈ filesOfLines ms →
      IsName e.name.toList ∧ NoMarker e.data.toList := by
  intro ls ms
  induction ms generalizing ls with
  | nil => intro _ he; cases he
  | cons line ms ih =>
    intro h he
    have hsplit : lines text = (ls ++ [line]) ++ ms := by rw [h, List.append_assoc]; rfl
    by_cases hmarker : IsMarkerLine line
    · rw [filesOfLines_cons_of_marker hmarker] at he
      rcases List.mem_cons.mp he with rfl | he
      · rw [String.toList_ofList, String.toList_ofList]
        have hline : line ∈ lines text := by rw [h]; simp
        exact ⟨isName_lineName hline hmarker, noMarker_before hsplit⟩
      · exact ih hsplit he
    · rw [filesOfLines, if_neg hmarker] at he
      exact ih hsplit he

theorem of_mem_endLast {e : Entry} {files : List Entry} (h : e ∈ endLast files) :
    e ∈ files ∨ ∃ last ∈ files, e = endEntry last := by
  induction files with
  | nil => cases h
  | cons first files ih =>
    cases files with
    | nil => exact Or.inr ⟨first, List.mem_cons_self, List.mem_singleton.mp h⟩
    | cons next rest =>
      rw [endLast] at h
      rcases List.mem_cons.mp h with rfl | h
      · exact Or.inl List.mem_cons_self
      · rcases ih h with h | ⟨last, hlast, rfl⟩
        · exact Or.inl (List.mem_cons_of_mem first h)
        · exact Or.inr ⟨last, List.mem_cons_of_mem first hlast, rfl⟩

/-- **Every archive that is read is well-formed.** -/
theorem isWellFormed_ofLines (text : List Char) : IsWellFormed (ofLines (lines text)) := by
  have hbefore : NoMarker (before (lines text)) := noMarker_before (List.nil_append _).symm
  have hfiles : ∀ e ∈ filesOfLines (lines text), IsName e.name.toList ∧ NoMarker e.data.toList :=
    fun e he => of_mem_filesOfLines (List.nil_append _).symm he
  rw [ofLines]
  cases hcases : filesOfLines (lines text) with
  | nil =>
    refine ⟨fun e he => ?_, ?_, fun e he => ?_⟩
    · cases he
    · rw [toList_ended, String.toList_ofList, noMarker_terminated]
      exact hbefore
    · cases he
  | cons first rest =>
    rw [hcases] at hfiles
    have hlast : ∀ e ∈ endLast (first :: rest),
        IsName e.name.toList ∧ NoMarker e.data.toList := by
      intro e he
      rcases of_mem_endLast he with he | ⟨last, hmem, rfl⟩
      · exact hfiles e he
      · obtain ⟨hname, hdata⟩ := hfiles last hmem
        refine ⟨hname, ?_⟩
        rw [endEntry, toList_ended, noMarker_terminated]
        exact hdata
    refine ⟨fun e he => (hlast e he).1, ?_, fun e he => (hlast e he).2⟩
    rw [String.toList_ofList]
    exact hbefore

/-- **Exactly the well-formed archives are read back.** What is read after writing an archive is the
archive with its sections ended when its names can be carried and no section has a marker line in
it; any name or section that breaks these rules makes a difference. -/
theorem parse_format_iff (a : Archive) :
    parse (format a) = endAll a ↔
      (∀ e ∈ a.files, e.name.toList ≠ [] ∧ '\n' ∉ e.name.toList ∧
        (∀ c, e.name.toList.head? = some c → isWhite c = false) ∧
        ∀ c, e.name.toList.getLast? = some c → isWhite c = false) ∧
      (∀ line ∈ lines a.comment.toList, ¬ IsMarkerLine line) ∧
      ∀ e ∈ a.files, ∀ line ∈ lines e.data.toList, ¬ IsMarkerLine line := by
  rw [parse, ofChars_eq_ofLines]
  constructor
  · intro h
    have hwell : IsWellFormed a := by
      rw [← isWellFormed_endAll, ← h]
      exact isWellFormed_ofLines _
    refine ⟨fun e he => ?_, hwell.noMarker_comment, hwell.noMarker_data⟩
    have hname := hwell.isName_of_mem e he
    exact ⟨hname.ne_nil, hname.not_mem_break, hname.head_not_white, hname.last_not_white⟩
  · rintro ⟨hname, hcomment, hdata⟩
    apply ofLines_format
    refine ⟨fun e he => ?_, hcomment, hdata⟩
    obtain ⟨hne, hbreak, hhead, hlast⟩ := hname e he
    exact ⟨hne, hbreak, hhead, hlast⟩

end GoOutline.Archive
