import Mathlib.Data.List.DropRight
import GoOutline.Archive

/-!
# Lines and marker lines

What an archive is, said line by line. A text is cut after each line break, and every line is either
a marker line with a name or a line of the section it stands in.

* `Archive.lines`: the lines of a text, each with its line break.
* `Archive.line_induction`: induction on a text, one line at a time.
* `Archive.IsMarkerLine`, `Archive.lineName`: the lines that begin a file, and the name they give.
* `Archive.marker?_eq`: the marker at the start of a text is the marker in its first line.
* `Archive.lines_flatten_of_append`: joining some of the lines of a text and cutting again gives the
  same lines.
-/

namespace GoOutline.Archive

open GoOutline.Text (trim)

/-! ### Lines -/

/-- The lines of a text, each with the line break that ends it. The last one may have none. -/
def lines : List Char → List (List Char)
  | [] => []
  | c :: text =>
    if c = '\n' then [c] :: lines text
    else
      match lines text with
      | [] => [[c]]
      | line :: rest => (c :: line) :: rest

@[simp] theorem lines_nil : lines [] = [] := rfl

theorem lines_break (text : List Char) : lines ('\n' :: text) = ['\n'] :: lines text := rfl

/-- A line that is ended comes before the lines of the rest. -/
theorem lines_append_break {line : List Char} (h : '\n' ∉ line) (rest : List Char) :
    lines (line ++ '\n' :: rest) = (line ++ ['\n']) :: lines rest := by
  induction line with
  | nil => exact lines_break rest
  | cons c line ih =>
    rw [List.mem_cons, not_or] at h
    obtain ⟨hc, hline⟩ := h
    rw [List.cons_append, lines, if_neg (Ne.symm hc), ih hline]
    rfl

/-- A text without line breaks is one line. -/
theorem lines_of_not_mem {line : List Char} (hne : line ≠ []) (h : '\n' ∉ line) :
    lines line = [line] := by
  induction line with
  | nil => exact absurd rfl hne
  | cons c line ih =>
    rw [List.mem_cons, not_or] at h
    obtain ⟨hc, hline⟩ := h
    rw [lines, if_neg (Ne.symm hc)]
    cases line with
    | nil => rfl
    | cons d line => rw [ih (List.cons_ne_nil d line) hline]

/-- Induction on a text, one line at a time. -/
theorem line_induction {P : List Char → Prop} (nil : P [])
    (last : ∀ line, line ≠ [] → '\n' ∉ line → P line)
    (line : ∀ line rest, '\n' ∉ line → P rest → P (line ++ '\n' :: rest))
    (text : List Char) : P text := by
  -- the line that the text begins with is carried along until it is complete
  suffices h : ∀ text start, '\n' ∉ start → P (start ++ text) from h text [] List.not_mem_nil
  intro text
  induction text with
  | nil =>
    intro start hstart
    rw [List.append_nil]
    by_cases hne : start = []
    · rw [hne]
      exact nil
    · exact last start hne hstart
  | cons c text ih =>
    intro start hstart
    by_cases hc : c = '\n'
    · rw [hc]
      exact line start text hstart (ih [] List.not_mem_nil)
    · rw [show start ++ c :: text = (start ++ [c]) ++ text by simp]
      apply ih
      simp only [List.mem_append, List.mem_singleton, not_or]
      exact ⟨hstart, Ne.symm hc⟩

@[simp] theorem flatten_lines (text : List Char) : (lines text).flatten = text := by
  induction text using line_induction with
  | nil => rfl
  | last line hne h => rw [lines_of_not_mem hne h, List.flatten_singleton]
  | line line rest h ih => rw [lines_append_break h, List.flatten_cons, ih, List.append_assoc]; rfl

theorem lines_eq_nil_iff (text : List Char) : lines text = [] ↔ text = [] := by
  constructor
  · intro h
    rw [← flatten_lines text, h]
    rfl
  · intro h
    rw [h, lines_nil]

/-- A line has characters, and only the last of them may be a line break. -/
theorem of_mem_lines {text line : List Char} (h : line ∈ lines text) :
    (line ≠ [] ∧ '\n' ∉ line) ∨ ∃ start, line = start ++ ['\n'] ∧ '\n' ∉ start := by
  induction text using line_induction with
  | nil => cases h
  | last l hne hl =>
    rw [lines_of_not_mem hne hl, List.mem_singleton] at h
    rw [h]
    exact Or.inl ⟨hne, hl⟩
  | line l rest hl ih =>
    rw [lines_append_break hl] at h
    rcases List.mem_cons.mp h with rfl | h
    · exact Or.inr ⟨l, rfl, hl⟩
    · exact ih h

/-- Some of the lines of a text that stand side by side are the lines of what they join to. -/
theorem lines_flatten_of_append {text : List Char} :
    ∀ {ls ms : List (List Char)}, lines text = ls ++ ms →
      lines ls.flatten = ls ∧ lines ms.flatten = ms := by
  induction text using line_induction with
  | nil =>
    intro ls ms h
    obtain ⟨rfl, rfl⟩ := List.append_eq_nil_iff.mp h.symm
    exact ⟨rfl, rfl⟩
  | last line hne hline =>
    intro ls ms h
    rw [lines_of_not_mem hne hline] at h
    rcases List.singleton_eq_append_iff.mp h with ⟨rfl, rfl⟩ | ⟨rfl, rfl⟩
    · exact ⟨rfl, by rw [List.flatten_singleton, lines_of_not_mem hne hline]⟩
    · exact ⟨by rw [List.flatten_singleton, lines_of_not_mem hne hline], rfl⟩
  | line line rest hline ih =>
    intro ls ms h
    cases ls with
    | nil =>
      rw [List.nil_append] at h
      exact ⟨rfl, by rw [← h, flatten_lines]⟩
    | cons l ls =>
      rw [lines_append_break hline, List.cons_append, List.cons.injEq] at h
      obtain ⟨rfl, hrest⟩ := h
      obtain ⟨hls, hms⟩ := ih hrest
      refine ⟨?_, hms⟩
      rw [List.flatten_cons, List.append_assoc, List.singleton_append, lines_append_break hline, hls]

theorem lines_flatten_of_append_cons {text line : List Char} {ls ms : List (List Char)}
    (h : lines text = ls ++ line :: ms) : lines ms.flatten = ms := by
  rw [← List.singleton_append, ← List.append_assoc] at h
  exact (lines_flatten_of_append h).2

/-- Every line but the last one is ended. -/
theorem getLast?_of_mem_dropLast_lines {text line : List Char} (h : line ∈ (lines text).dropLast) :
    line.getLast? = some '\n' := by
  induction text using line_induction with
  | nil => cases h
  | last l hne hl =>
    rw [lines_of_not_mem hne hl] at h
    cases h
  | line l rest hl ih =>
    rw [lines_append_break hl] at h
    cases hrest : lines rest with
    | nil => rw [hrest] at h; cases h
    | cons m ms =>
      rw [hrest, List.dropLast_cons_cons, ← hrest] at h
      rcases List.mem_cons.mp h with rfl | h
      · exact List.getLast?_concat
      · exact ih h

/-- After a text whose last line is ended, the lines of more text follow. -/
theorem lines_append {text : List Char} (h : text = [] ∨ text.getLast? = some '\n')
    (more : List Char) : lines (text ++ more) = lines text ++ lines more := by
  induction text using line_induction with
  | nil => rfl
  | last line hne hline =>
    rcases h with h | h
    · exact absurd h hne
    · exact absurd (List.mem_of_getLast? h) hline
  | line line rest hline ih =>
    have hrest : rest = [] ∨ rest.getLast? = some '\n' := by
      rcases List.eq_nil_or_concat rest with rfl | ⟨start, c, rfl⟩
      · exact Or.inl rfl
      · rw [List.concat_eq_append, ← List.cons_append, ← List.append_assoc,
          List.getLast?_concat] at h
        rcases h with h | h
        · simp at h
        · exact Or.inr (by rw [List.concat_eq_append, List.getLast?_concat, h])
    rw [List.append_assoc, List.cons_append, lines_append_break hline, lines_append_break hline,
      ih hrest, List.cons_append]

/-- Lines that are ended, and have no other line break, are the lines of what they join to. -/
theorem lines_flatten {ls : List (List Char)}
    (h : ∀ line ∈ ls, ∃ start, line = start ++ ['\n'] ∧ '\n' ∉ start) : lines ls.flatten = ls := by
  induction ls with
  | nil => rfl
  | cons line ls ih =>
    obtain ⟨hline, hls⟩ := List.forall_mem_cons.mp h
    obtain ⟨start, rfl, hstart⟩ := hline
    rw [List.flatten_cons, List.append_assoc, List.singleton_append, lines_append_break hstart,
      ih hls]

/-! ### Marker lines -/

/-- A line without the given character, if that is its last one. -/
def dropFinal (c : Char) (line : List Char) : List Char :=
  if line.getLast? = some c then line.dropLast else line

/-- What a line says: the line without its line break, and then without one carriage return. -/
def content (line : List Char) : List Char := dropFinal '\r' (dropFinal '\n' line)

/-- The name in a marker line: what is between the dashes, without white space at either end. -/
def lineName (line : List Char) : List Char := trim (((content line).drop 3).rdrop 3)

/-- A line that begins a file. It is written between two dashes and a blank and a blank and two
dashes, which are six bytes at least, and gives a name. -/
def IsMarkerLine (line : List Char) : Prop :=
  "-- ".toList <+: content line ∧ " --".toList <:+ content line ∧
    6 ≤ (String.ofList (content line)).utf8ByteSize ∧ lineName line ≠ []

instance : DecidablePred IsMarkerLine := fun line =>
  inferInstanceAs (Decidable (_ <+: content line ∧ _ <:+ content line ∧ _ ≤ _ ∧ lineName line ≠ []))

theorem dropFinal_of_not_mem {c : Char} {line : List Char} (h : c ∉ line) :
    dropFinal c line = line := by
  rw [dropFinal, if_neg]
  intro hlast
  exact h (List.mem_of_getLast? hlast)

theorem dropFinal_concat (c : Char) (line : List Char) : dropFinal c (line ++ [c]) = line := by
  rw [dropFinal, List.getLast?_concat, if_pos rfl, List.dropLast_concat]

theorem prefix_dropFinal (c : Char) (line : List Char) : dropFinal c line <+: line := by
  rw [dropFinal]
  split
  · exact List.dropLast_prefix line
  · exact List.prefix_refl line

theorem content_of_not_mem {line : List Char} (h : '\n' ∉ line) : content line = dropReturn line := by
  rw [content, dropFinal_of_not_mem h]
  rfl

theorem prefix_content (line : List Char) : content line <+: line :=
  (prefix_dropFinal _ _).trans (prefix_dropFinal _ _)

/-- The line break at the end of a line does not matter to what it says. -/
theorem content_concat {line : List Char} (h : '\n' ∉ line) :
    content (line ++ ['\n']) = content line := by
  rw [content, content, dropFinal_concat, dropFinal_of_not_mem h]

theorem lineName_concat {line : List Char} (h : '\n' ∉ line) :
    lineName (line ++ ['\n']) = lineName line := by
  rw [lineName, lineName, content_concat h]

theorem isMarkerLine_concat {line : List Char} (h : '\n' ∉ line) :
    IsMarkerLine (line ++ ['\n']) ↔ IsMarkerLine line := by
  rw [IsMarkerLine, IsMarkerLine, content_concat h, lineName_concat h]

theorem IsMarkerLine.begins {line : List Char} (h : IsMarkerLine line) :
    opening <+: line := h.1.trans (prefix_content line)

theorem length_le_utf8ByteSize (cs : List Char) : cs.length ≤ (String.ofList cs).utf8ByteSize := by
  induction cs with
  | nil => exact Nat.zero_le _
  | cons c cs ih =>
    have hc := Char.utf8Size_pos c
    rw [← List.singleton_append, String.ofList_append, String.utf8ByteSize_append,
      List.length_append, ← String.singleton_eq_ofList, String.utf8ByteSize_singleton,
      List.length_singleton]
    omega

/-- Between the dashes on either side, bytes and characters give the same bound: a shorter text has
nothing but its dashes. -/
theorem six_le_utf8ByteSize_iff {cs : List Char} (hopening : opening <+: cs)
    (hclosing : closing <:+ cs) : 6 ≤ (String.ofList cs).utf8ByteSize ↔ 6 ≤ cs.length := by
  constructor
  · intro h
    obtain ⟨rest, rfl⟩ := hopening
    have hend := List.suffix_iff_eq_drop.mp hclosing
    rcases rest with _ | ⟨a, _ | ⟨b, _ | ⟨c, rest⟩⟩⟩
    · simp [opening, closing] at hend
    · simp [opening, closing] at hend
    · obtain ⟨rfl, rfl⟩ : '-' = a ∧ '-' = b := by simpa [opening, closing] using hend
      exact absurd h (by decide)
    · simp [opening]
  · intro h
    exact h.trans (length_le_utf8ByteSize cs)

/-- **The name that is read from a line is the name of a marker line.** -/
theorem markerName?_eq {line : List Char} (h : '\n' ∉ line) :
    markerName? line = if IsMarkerLine line then some (lineName line) else none := by
  have hname : lineName line = trim (((dropReturn line).drop opening.length).take
      ((dropReturn line).length - opening.length - closing.length)) := by
    rw [lineName, content_of_not_mem h, List.rdrop, List.length_drop]
    rfl
  have hiff : IsMarkerLine line ↔
      (opening.isPrefixOf (dropReturn line) && closing.isSuffixOf (dropReturn line)
        && decide (opening.length + closing.length ≤ (dropReturn line).length)) = true ∧
        lineName line ≠ [] := by
    rw [IsMarkerLine, content_of_not_mem h, Bool.and_eq_true, Bool.and_eq_true,
      List.isPrefixOf_iff_prefix, List.isSuffixOf_iff_suffix, decide_eq_true_eq, and_assoc,
      and_assoc]
    constructor
    · rintro ⟨hopening, hclosing, hsize, hne⟩
      exact ⟨hopening, hclosing, (six_le_utf8ByteSize_iff hopening hclosing).mp hsize, hne⟩
    · rintro ⟨hopening, hclosing, hsize, hne⟩
      exact ⟨hopening, hclosing, (six_le_utf8ByteSize_iff hopening hclosing).mpr hsize, hne⟩
  rw [markerName?]
  simp only [← hname, hiff]
  split
  · next hdashes =>
    cases hline : lineName line with
    | nil => simp
    | cons c name => simp [hdashes]
  · next hdashes => rw [if_neg fun h' => hdashes h'.1]

/-- The marker at the start of a text is the marker in its first line. -/
theorem marker?_eq {text line : List Char} {rest : List (List Char)}
    (h : lines text = line :: rest) :
    marker? text = if IsMarkerLine line then some (lineName line, rest.flatten) else none := by
  have hmap : ∀ start after : List Char, '\n' ∉ start →
      (markerName? start).map (fun name => (name, after))
        = if IsMarkerLine start then some (lineName start, after) else none := by
    intro start after hstart
    rw [markerName?_eq hstart]
    split <;> rfl
  induction text using line_induction with
  | nil => cases h
  | last start hne hstart =>
    obtain ⟨rfl, rfl⟩ : start = line ∧ [] = rest := by
      simpa [lines_of_not_mem hne hstart] using h
    have hall : ∀ c ∈ start, (decide (c ≠ '\n')) = true := by
      intro c hc
      exact decide_eq_true (ne_of_mem_of_not_mem hc hstart)
    rw [marker?, List.takeWhile_eq_self_iff.mpr hall, List.dropWhile_eq_nil_iff.mpr hall]
    exact hmap start [] hstart
  | line start after hstart _ =>
    obtain ⟨rfl, rfl⟩ : start ++ ['\n'] = line ∧ lines after = rest := by
      simpa [lines_append_break hstart] using h
    have hall : ∀ c ∈ start, (decide (c ≠ '\n')) = true := by
      intro c hc
      exact decide_eq_true (ne_of_mem_of_not_mem hc hstart)
    rw [marker?, List.takeWhile_append_of_pos hall, List.dropWhile_append_of_pos hall,
      lineName_concat hstart, flatten_lines]
    simp only [isMarkerLine_concat hstart]
    have hbreak : start ++ ('\n' :: after).takeWhile (fun c => decide (c ≠ '\n')) = start := by simp
    rw [hbreak]
    exact hmap start after hstart

end GoOutline.Archive
