import GoOutline.Proofs.Archive.Lines

/-!
# Reading an archive line by line

An archive is read by going from one line that begins like a marker line to the next, without ever
cutting the text into lines. The outcome is what the lines say one after the other.

* `Archive.ofLines`: the archive that some lines stand for.
* `Archive.nextOpening_none`, `Archive.nextOpening_some`: the lines that are passed over are no
  marker lines, except perhaps the first one.
* `Archive.upToMarker_lines`: the search ends at the first marker line, or at the end of the text.
* `Archive.filesFrom_eq`: the files are found one after the other.
* `Archive.parse_eq_ofLines`: reading a text is reading its lines.
-/

namespace GoOutline.Archive

/-! ### What the lines say -/

/-- The lines before the first marker line, joined. -/
def before (ls : List (List Char)) : List Char :=
  (ls.takeWhile fun line => ¬ IsMarkerLine line).flatten

/-- The files in some lines: for each marker line a file with its name, and with the lines up to the
next marker line as its data. -/
def filesOfLines : List (List Char) → List Entry
  | [] => []
  | line :: rest =>
    if IsMarkerLine line then
      ⟨String.ofList (lineName line), String.ofList (before rest)⟩ :: filesOfLines rest
    else filesOfLines rest

/-- A text with a line break at its end, unless it is empty or has one there. -/
def ended (text : String) : String :=
  if text = "" ∨ text.toList.getLast? = some '\n' then text else text ++ "\n"

/-- Some files, with a line break at the end of the last one unless that is empty or has one. -/
def endLast : List Entry → List Entry
  | [] => []
  | [e] => [⟨e.name, ended e.data⟩]
  | e :: next :: rest => e :: endLast (next :: rest)

/-- The archive that some lines stand for. The lines before the first marker line are the comment.
The last section, which is the comment if there are no files, gets a line break at its end. -/
def ofLines (ls : List (List Char)) : Archive :=
  match filesOfLines ls with
  | [] => ⟨ended (String.ofList (before ls)), []⟩
  | e :: rest => ⟨String.ofList (before ls), endLast (e :: rest)⟩

theorem before_cons_of_marker {line : List Char} (h : IsMarkerLine line)
    (rest : List (List Char)) : before (line :: rest) = [] := by
  simp [before, h]

theorem filesOfLines_cons_of_marker {line : List Char} (h : IsMarkerLine line)
    (rest : List (List Char)) :
    filesOfLines (line :: rest)
      = ⟨String.ofList (lineName line), String.ofList (before rest)⟩ :: filesOfLines rest := by
  rw [filesOfLines, if_pos h]

/-- Lines that are no marker lines belong to the section they begin. -/
theorem before_append {ls : List (List Char)} (h : ∀ line ∈ ls, ¬ IsMarkerLine line)
    (ms : List (List Char)) : before (ls ++ ms) = ls.flatten ++ before ms := by
  have hall : ∀ line ∈ ls, decide (¬ IsMarkerLine line) = true := by
    intro line hline
    exact decide_eq_true (h line hline)
  rw [before, List.takeWhile_append_of_pos hall, List.flatten_append, before]

theorem filesOfLines_append {ls : List (List Char)} (h : ∀ line ∈ ls, ¬ IsMarkerLine line)
    (ms : List (List Char)) : filesOfLines (ls ++ ms) = filesOfLines ms := by
  induction ls with
  | nil => rfl
  | cons line ls ih =>
    rw [List.cons_append, filesOfLines, if_neg (h line List.mem_cons_self),
      ih fun line' hline' => h line' (List.mem_cons_of_mem line hline')]

theorem before_of_no_marker {ls : List (List Char)} (h : ∀ line ∈ ls, ¬ IsMarkerLine line) :
    before ls = ls.flatten := by
  have := before_append h []
  rwa [List.append_nil, show before [] = [] from rfl, List.append_nil] at this

theorem filesOfLines_of_no_marker {ls : List (List Char)} (h : ∀ line ∈ ls, ¬ IsMarkerLine line) :
    filesOfLines ls = [] := by
  have := filesOfLines_append h []
  rwa [List.append_nil] at this

/-! ### Ends of sections -/

theorem terminated_eq (text : List Char) :
    terminated text = if text = [] ∨ text.getLast? = some '\n' then text else text ++ ['\n'] := by
  rcases List.eq_nil_or_concat text with rfl | ⟨start, c, rfl⟩
  · rfl
  · rw [List.concat_eq_append, terminated, List.getLast?_concat]
    simp

theorem ofList_terminated (text : List Char) :
    String.ofList (terminated text) = ended (String.ofList text) := by
  rw [terminated_eq, ended, String.toList_ofList]
  simp only [← String.toList_inj, String.toList_ofList, String.toList_empty]
  split
  · rw [String.toList_ofList]
  · rw [String.toList_append, String.toList_ofList]
    rfl

theorem terminated_append (text : List Char) {more : List Char} (h : more ≠ []) :
    terminated (text ++ more) = text ++ terminated more := by
  have hlast : (text ++ more).getLast? = more.getLast? := by
    rw [List.getLast?_append, List.getLast?_eq_some_getLast h]
    rfl
  rw [terminated_eq, terminated_eq, hlast]
  simp only [List.append_eq_nil_iff, h, and_false, false_or]
  split
  · rfl
  · rw [List.append_assoc]

/-! ### The search for a line that begins like a marker line -/

theorem nextOpening_of_not_mem {line : List Char} (h : '\n' ∉ line) : nextOpening line = none := by
  induction line with
  | nil => rfl
  | cons c line ih =>
    rw [List.mem_cons, not_or] at h
    rw [nextOpening, if_neg fun hc => h.1 hc.1.symm, ih h.2]
    rfl

theorem nextOpening_append_break {line : List Char} (h : '\n' ∉ line) (rest : List Char) :
    nextOpening (line ++ '\n' :: rest) =
      if opening <+: rest then some (line ++ ['\n'], rest)
      else (nextOpening rest).map fun (before, after) => (line ++ '\n' :: before, after) := by
  induction line with
  | nil =>
    rw [List.nil_append, nextOpening]
    simp only [List.isPrefixOf_iff_prefix, true_and]
    rfl
  | cons c line ih =>
    rw [List.mem_cons, not_or] at h
    rw [List.cons_append, nextOpening, if_neg fun hc => h.1 hc.1.symm, ih h.2]
    split
    · rfl
    · rw [Option.map_map]
      rfl

/-- The first line of a text is at its start. -/
theorem prefix_of_lines {text line : List Char} {rest : List (List Char)}
    (h : lines text = line :: rest) : line <+: text := by
  refine ⟨rest.flatten, ?_⟩
  rw [← flatten_lines text, h, List.flatten_cons]

/-- A text whose first line is a marker line begins like one. -/
theorem not_marker_of_not_opening {text : List Char} (h : ¬ opening <+: text) :
    ∀ line rest, lines text = line :: rest → ¬ IsMarkerLine line := by
  intro line rest hlines hmarker
  exact h (hmarker.begins.trans (prefix_of_lines hlines))

/-- When no line that begins like a marker line is found, only the first line can be one. -/
theorem nextOpening_none {text : List Char} (h : nextOpening text = none) :
    ∀ line ∈ (lines text).tail, ¬ IsMarkerLine line := by
  induction text using line_induction with
  | nil => intro line hline; cases hline
  | last start hne hstart =>
    rw [lines_of_not_mem hne hstart]
    intro line hline
    cases hline
  | line start rest hstart ih =>
    rw [nextOpening_append_break hstart] at h
    split at h
    · cases h
    · next hopening =>
      have htail := ih (Option.map_eq_none_iff.mp h)
      rw [lines_append_break hstart, List.tail_cons]
      cases hlines : lines rest with
      | nil => intro line hline; cases hline
      | cons l ls =>
        rw [hlines] at htail
        intro line hline
        rcases List.mem_cons.mp hline with rfl | hline
        · exact not_marker_of_not_opening hopening line ls hlines
        · exact htail line hline

/-- When a line that begins like a marker line is found, the lines up to it are passed over, and
only the first one can be a marker line. -/
theorem nextOpening_some {text : List Char} :
    ∀ {passed rest : List Char}, nextOpening text = some (passed, rest) →
      ∃ l ls, lines text = l :: (ls ++ lines rest) ∧ passed = l ++ ls.flatten ∧
        (∀ line ∈ ls, ¬ IsMarkerLine line) ∧ rest ≠ [] := by
  induction text using line_induction with
  | nil => intro passed rest h; cases h
  | last start hne hstart =>
    intro passed rest h
    rw [nextOpening_of_not_mem hstart] at h
    cases h
  | line start more hstart ih =>
    intro passed rest h
    rw [nextOpening_append_break hstart] at h
    rw [lines_append_break hstart]
    split at h
    · next hopening =>
      cases h
      refine ⟨start ++ ['\n'], [], rfl, by rw [List.flatten_nil, List.append_nil], ?_, ?_⟩
      · intro line hline
        cases hline
      · rintro rfl
        exact absurd hopening (by decide)
    · next hopening =>
      obtain ⟨⟨passed', rest'⟩, hnext, h⟩ := Option.map_eq_some_iff.mp h
      cases h
      obtain ⟨l, ls, hlines, rfl, hls, hrest⟩ := ih hnext
      refine ⟨start ++ ['\n'], l :: ls, by rw [hlines, List.cons_append], ?_, ?_, hrest⟩
      · rw [List.flatten_cons, List.append_assoc]
        rfl
      · intro line hline
        rcases List.mem_cons.mp hline with rfl | hline
        · exact not_marker_of_not_opening hopening line _ hlines
        · exact hls line hline

/-! ### The search for a marker line -/

theorem marker?_eq_none_iff {text line : List Char} {rest : List (List Char)}
    (h : lines text = line :: rest) : marker? text = none ↔ ¬ IsMarkerLine line := by
  rw [marker?_eq h]
  split <;> simp [*]

/-- **The search ends at the first marker line, or at the end of the text.** Every line is looked at
that can be a marker line, and the lines before the one that is found are given back as they are. -/
theorem upToMarker_lines (text : List Char) :
    ((∀ line ∈ lines text, ¬ IsMarkerLine line) ∧ upToMarker text = (terminated text, none)) ∨
    ∃ ls m ms, lines text = ls ++ m :: ms ∧ (∀ line ∈ ls, ¬ IsMarkerLine line) ∧ IsMarkerLine m ∧
      upToMarker text = (ls.flatten, some (lineName m, ms.flatten)) := by
  induction text using upToMarker.induct with
  | case1 text found hmarker =>
    right
    cases hlines : lines text with
    | nil => rw [(lines_eq_nil_iff text).mp hlines] at hmarker; cases hmarker
    | cons m ms =>
      have hm := hmarker
      rw [marker?_eq hlines] at hm
      split at hm
      · next hm' =>
        refine ⟨[], m, ms, rfl, fun line hline => ?_, hm', ?_⟩
        · cases hline
        · rw [upToMarker_of_marker hmarker, ← hm]
          rfl
      · cases hm
  | case2 text hmarker hnext =>
    left
    refine ⟨?_, upToMarker_of_last hmarker hnext⟩
    have htail := nextOpening_none hnext
    cases hlines : lines text with
    | nil => exact List.forall_mem_nil _
    | cons m ms =>
      rw [hlines] at htail
      exact List.forall_mem_cons.mpr ⟨(marker?_eq_none_iff hlines).mp hmarker, htail⟩
  | case3 text hmarker passed rest hnext _ _ _ ih =>
    obtain ⟨l, ls, hlines, rfl, hls, hrest⟩ := nextOpening_some hnext
    have hpassed : ∀ line ∈ l :: ls, ¬ IsMarkerLine line :=
      List.forall_mem_cons.mpr ⟨(marker?_eq_none_iff hlines).mp hmarker, hls⟩
    rw [← List.cons_append] at hlines
    rw [upToMarker_of_opening hmarker hnext, hlines]
    rcases ih with ⟨hnone, hread⟩ | ⟨ls', m, ms, hlines', hls', hm, hread⟩
    · left
      have htext : text = (l ++ ls.flatten) ++ rest := by
        rw [← flatten_lines text, hlines, List.flatten_append, flatten_lines, List.flatten_cons]
      exact ⟨List.forall_mem_append.mpr ⟨hpassed, hnone⟩,
        by rw [hread, htext, terminated_append _ hrest]⟩
    · right
      exact ⟨(l :: ls) ++ ls', m, ms, by rw [hlines', List.append_assoc],
        List.forall_mem_append.mpr ⟨hpassed, hls'⟩, hm,
        by rw [hread, List.flatten_append, List.flatten_cons]⟩

/-! ### Reading -/

theorem filesFrom_of_last {name text data : List Char} (h : upToMarker text = (data, none)) :
    filesFrom name text = [⟨String.ofList name, String.ofList data⟩] := by
  rw [filesFrom]
  split
  · next data' h' =>
    rw [h] at h'
    cases h'
    rfl
  · next h' =>
    rw [h] at h'
    cases h'

theorem filesFrom_of_marker {name text data next rest : List Char}
    (h : upToMarker text = (data, some (next, rest))) :
    filesFrom name text
      = ⟨String.ofList name, String.ofList data⟩ :: filesFrom next rest := by
  rw [filesFrom]
  split
  · next h' =>
    rw [h] at h'
    cases h'
  · next h' =>
    rw [h] at h'
    cases h'
    rfl

/-- **The files after a marker line are found one after the other.** The lines up to the next marker
line are the data of the first one. -/
theorem filesFrom_eq (name text : List Char) :
    filesFrom name text
      = endLast (⟨String.ofList name, String.ofList (before (lines text))⟩
        :: filesOfLines (lines text)) := by
  induction hn : text.length using Nat.strong_induction_on generalizing name text with
  | _ n ih =>
    rcases upToMarker_lines text with ⟨hnone, hread⟩ | ⟨ls, m, ms, hlines, hls, hm, hread⟩
    · rw [filesFrom_of_last hread, before_of_no_marker hnone, filesOfLines_of_no_marker hnone,
        flatten_lines, endLast, ofList_terminated]
    · have hms := lines_flatten_of_append_cons hlines
      have hlt : ms.flatten.length < text.length :=
        length_lt_of_upToMarker (congrArg Prod.snd hread)
      rw [filesFrom_of_marker hread, ih ms.flatten.length (hn ▸ hlt) _ _ rfl, hms, hlines,
        before_append hls, filesOfLines_append hls, before_cons_of_marker hm,
        filesOfLines_cons_of_marker hm, List.append_nil, endLast]

theorem ofChars_eq_ofLines (text : List Char) : ofChars text = ofLines (lines text) := by
  rw [ofChars, ofLines]
  rcases upToMarker_lines text with ⟨hnone, hread⟩ | ⟨ls, m, ms, hlines, hls, hm, hread⟩
  · rw [hread, before_of_no_marker hnone, filesOfLines_of_no_marker hnone, flatten_lines]
    simp only [ofList_terminated]
  · have hms := lines_flatten_of_append_cons hlines
    rw [hread, hlines, before_append hls, filesOfLines_append hls, before_cons_of_marker hm,
      filesOfLines_cons_of_marker hm, List.append_nil]
    simp only [filesFrom_eq, hms]

/-- **Reading a text is reading its lines.** The text is cut after each line break. The comment is
what stands before the first marker line, and each marker line begins a file with its name and with
what stands before the next one. Only the last section is given a line break at its end, if it has
some text and no line break there. -/
theorem parse_eq_ofLines (text : String) :
    (lines text.toList).flatten = text.toList ∧
    (∀ line ∈ lines text.toList, line ≠ [] ∧ '\n' ∉ line.dropLast) ∧
    (∀ line ∈ (lines text.toList).dropLast, line.getLast? = some '\n') ∧
    parse text = ofLines (lines text.toList) := by
  refine ⟨flatten_lines text.toList, ?_, ?_, ofChars_eq_ofLines text.toList⟩
  · intro line hline
    rcases of_mem_lines hline with ⟨hne, hbreak⟩ | ⟨start, rfl, hstart⟩
    · exact ⟨hne, fun h => hbreak (List.dropLast_subset line h)⟩
    · exact ⟨by simp, by rwa [List.dropLast_concat]⟩
  · intro line hline
    exact getLast?_of_mem_dropLast_lines hline

-- dashes that overlap, a marker inside a line, a carriage return and a last line without a break
example : parse "-- --\nx -- a --\n--  b.go --\r\ny\n-- c --\nz"
    = ⟨"-- --\nx -- a --\n", [⟨"b.go", "y\n"⟩, ⟨"c", "z\n"⟩]⟩ := by
  decide +kernel

end GoOutline.Archive
