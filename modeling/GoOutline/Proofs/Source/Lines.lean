import GoOutline.Outline.Render
import GoOutline.Proofs.Outline.Declarations
import GoOutline.Proofs.Outline.Labels
import GoOutline.Proofs.Source.Forest
import GoOutline.Proofs.Syntax.Message
import GoOutline.Proofs.Syntax.Tokens

/-!
# Rows as lines

Every row is written as its text behind some spaces, with a line break after it. This makes one line
for each row unless there are line breaks inside the rows. The only things with a line break that a
row can show are literals of the source: strings, which may go over several lines, and runes.

* `toList_render`, `length_lines_render`, `lines_render_iff`: the lines that some rows make, whatever
  the rows are.
* `Entry.allLabels_outline`: line breaks in the labels of a file come from its words.
* `Entry.HasBroken`: an accepted file has a literal with a line break in it.
* `Entry.hasBroken_of_mem_words`: the words with line breaks are such literals.
* `lines_render_run`: the lines of an archive after any steps.
-/

namespace GoOutline

/-! ### Lines -/

namespace Archive

/-- A line break ends a line, and those before it end lines, too. -/
theorem length_lines_append_break (text rest : List Char) :
    (lines (text ++ '\n' :: rest)).length = text.count '\n' + 1 + (lines rest).length := by
  induction text with
  | nil =>
    rw [List.nil_append, lines_break, List.length_cons, List.count_nil]
    omega
  | cons c text ih =>
    rw [List.cons_append, lines, List.count_cons]
    by_cases hc : c = '\n'
    · simp only [hc, if_true, beq_self_eq_true, List.length_cons, ih]
      omega
    · have hne : lines (text ++ '\n' :: rest) ≠ [] := by
        rw [ne_eq, lines_eq_nil_iff]
        simp
      rw [if_neg hc, if_neg (by simpa using hc), Nat.add_zero, ← ih]
      cases hlines : lines (text ++ '\n' :: rest) with
      | nil => exact absurd hlines hne
      | cons line more => rfl

/-- Texts that are written one after the other, each with a line break, make one line each and one
more for each line break inside them. -/
theorem length_lines_flatMap (texts : List (List Char)) :
    (lines (texts.flatMap (· ++ ['\n']))).length =
      texts.length + (texts.map (List.count '\n')).sum := by
  induction texts with
  | nil => rfl
  | cons text texts ih =>
    rw [List.flatMap_cons, List.append_assoc, List.singleton_append, length_lines_append_break, ih,
      List.length_cons, List.map_cons, List.sum_cons]
    omega

/-- Such texts are the lines exactly if there are no line breaks inside them. -/
theorem lines_flatMap_iff (texts : List (List Char)) :
    lines (texts.flatMap (· ++ ['\n'])) = texts.map (· ++ ['\n']) ↔ ∀ text ∈ texts, '\n' ∉ text := by
  constructor
  · intro h text htext
    have hline : text ++ ['\n'] ∈ lines (texts.flatMap (· ++ ['\n'])) := by
      rw [h]
      exact List.mem_map_of_mem htext
    rcases of_mem_lines hline with ⟨-, hbreak⟩ | ⟨start, heq, hbreak⟩
    · exact absurd (by simp) hbreak
    · rwa [List.append_cancel_right heq]
  · intro h
    apply lines_flatten
    intro line hline
    obtain ⟨text, htext, rfl⟩ := List.mem_map.mp hline
    exact ⟨text, rfl, h text htext⟩

end Archive

/-! ### Rows -/

/-- The text of a row behind two spaces for each level that the row is below the first. -/
def Row.indented (r : Row) : List Char := List.replicate (2 * (r.indent - 1)) ' ' ++ r.text.toList

theorem Row.toList_line (r : Row) : r.line.toList = r.indented ++ ['\n'] := by
  rw [Row.line, String.toList_append, String.toList_append, String.toList_ofList]
  rfl

theorem Row.count_indented (r : Row) : r.indented.count '\n' = r.text.toList.count '\n' := by
  have hspaces : (List.replicate (2 * (r.indent - 1)) ' ').count '\n' = 0 := by
    rw [List.count_replicate]
    rfl
  rw [Row.indented, List.count_append, hspaces, Nat.zero_add]

theorem Row.mem_indented_iff (r : Row) : '\n' ∈ r.indented ↔ '\n' ∈ r.text.toList := by
  rw [← List.count_pos_iff, ← List.count_pos_iff, r.count_indented]

/-- Rows are written one after the other, each on a line of its own. -/
theorem toList_render (rows : List Row) :
    (render rows false).toList = (rows.map Row.indented).flatMap (· ++ ['\n']) := by
  show (String.join (rows.map Row.line)).toList = _
  rw [String.toList_join, List.flatMap_map, List.flatMap_map]
  exact List.flatMap_congr fun r _ => r.toList_line

theorem length_lines_render (rows : List Row) :
    (Archive.lines (render rows false).toList).length =
      rows.length + (rows.map fun r => r.text.toList.count '\n').sum := by
  rw [toList_render, Archive.length_lines_flatMap, List.length_map, List.map_map]
  congr 2
  exact List.map_congr_left fun r _ => r.count_indented

theorem lines_render_iff (rows : List Row) :
    Archive.lines (render rows false).toList = rows.map (fun r => r.indented ++ ['\n']) ↔
      ∀ r ∈ rows, '\n' ∉ r.text.toList := by
  have hlines := Archive.lines_flatMap_iff (rows.map Row.indented)
  rw [List.map_map, List.forall_mem_map] at hlines
  rw [toList_render]
  refine hlines.trans ?_
  simp only [Row.mem_indented_iff]

/-! ### Words -/

/-- The words of a file; there are none if there is an error in it. -/
def Entry.words (e : Entry) : List String :=
  match Syntax.parse e.name e.data with
  | .ok file => file.words
  | .error _ => []

/-- **Line breaks in the labels of a file come from its words**, also if it has an error. -/
theorem Entry.allLabels_outline {e : Entry} {ws : List String} (hname : '\n' ∉ e.name.toList)
    (h : e.words ⊆ ws) : e.outline.AllLabels (BreaksOnlyIn ws) := by
  delta Entry.words at h
  cases hparse : Syntax.parse e.name e.data with
  | ok file =>
    rw [hparse] at h
    rw [Entry.outline_of_parse hparse]
    exact file.allLabels_outline hname h
  | error error =>
    delta Entry.outline
    rw [hparse]
    have herror := Syntax.not_mem_text_of_parse hname hparse
    have hlabel := Syntax.not_mem_quoted hname (by decide : '\n' ∉ " (error: ".toList) herror
    exact ⟨.of_not_mem (Syntax.not_mem_append hlabel (by decide)), trivial⟩

/-- The name of a file that is read from an archive is on one line. -/
theorem Archive.not_mem_name {blob ending : String} {e : Entry}
    (h : e ∈ (Archive.parse blob).matching ending) : '\n' ∉ e.name.toList := by
  have hfile : e ∈ (Archive.ofLines (Archive.lines blob.toList)).files := by
    rw [← Archive.ofChars_eq_ofLines]
    exact (List.mem_filter.mp h).1
  exact ((Archive.isWellFormed_ofLines _).isName_of_mem e hfile).not_mem_break

theorem allLabels_of_forestOf {ending blob : String} {f : Forest}
    (h : forestOf ending blob = .ok f) :
    Forest.AllLabels (BreaksOnlyIn (((Archive.parse blob).matching ending).flatMap Entry.words))
      f := by
  obtain ⟨-, rfl⟩ := (forestOf_eq_ok_iff ending blob f).mp h
  rw [rootsIn_eq_map]
  refine Forest.allLabels_map fun e he => Entry.allLabels_outline (Archive.not_mem_name he) ?_
  exact fun w hw => List.mem_flatMap.mpr ⟨e, he, hw⟩

/-! ### Literals -/

/-- Whether a token is written between quotes: a string or a rune. -/
def Parse.Lexeme.isQuoted (l : Parse.Lexeme) : Bool :=
  match l.kind with
  | .token t _ => t = .runeLiteral
  | .rule n => Syntax.isLiteral n

/-- Whether there is no error in a file, and a string or a rune in its text is the given one and has
a line break. -/
def Entry.HasBroken (e : Entry) (literal : List Char) : Prop :=
  (∃ file, Syntax.parse e.name e.data = .ok file) ∧
    ∃ tree, Syntax.readingOf e.data.toList = some tree ∧
      ∃ l ∈ tree.tokens, l.isQuoted ∧ l.text = literal ∧ '\n' ∈ literal

/-- Of the tokens that are words, only runes may have line breaks. -/
theorem mayHave_break : ∀ t : Grammar.Terminal, Syntax.carriesText t → t ≠ .runeLiteral →
    t.pattern.mayHave '\n' = false := by
  intro t
  cases t <;> decide

theorem Parse.Lexeme.isQuoted_of_mem {l : Parse.Lexeme} (hsound : l.IsSound)
    (hword : l.kind.isWord) (hbreak : '\n' ∈ l.text) : l.isQuoted := by
  unfold Parse.Lexeme.isQuoted
  cases hkind : l.kind with
  | rule n =>
    rw [hkind] at hword
    exact hword
  | token t role =>
    rw [hkind] at hword
    by_cases ht : t = .runeLiteral
    · exact decide_eq_true ht
    · have hnot := Parse.not_mem_of_isSpelled (mayHave_break t hword ht) (hsound.2 t role hkind)
      exact absurd hbreak hnot

/-- A word with a line break in it is a literal of the text. -/
theorem Entry.hasBroken_of_mem_words {e : Entry} {w : String} (hw : w ∈ e.words)
    (hbreak : '\n' ∈ w.toList) : e.HasBroken w.toList := by
  delta Entry.words at hw
  cases hparse : Syntax.parse e.name e.data with
  | error error =>
    rw [hparse] at hw
    cases hw
  | ok file =>
    rw [hparse] at hw
    rcases Syntax.exists_token_of_mem_words hparse hw with rfl | ⟨tree, hread, l, hl, h⟩
    · exact absurd hbreak (by decide)
    · obtain ⟨hsound, hword, htext, -⟩ := h
      have hquoted := l.isQuoted_of_mem hsound hword (htext ▸ hbreak)
      exact ⟨⟨file, hparse⟩, tree, hread, l, hl, hquoted, htext, hbreak⟩

/-- **Rows are written one on a line, but for the line breaks in literals.** The rows of an archive
after any steps are written as they should be, each behind its indent and with a line break after it.
There is one more line for each line break inside a row, so the rows are the lines exactly if there
are none. A row has a line break inside exactly if it shows a string or a rune with a line break, as
this stands in the text of a file without errors. So the messages about errors have none. -/
theorem lines_render_run {ending blob : String} {f : Forest} (h : forestOf ending blob = .ok f)
    (steps : List Forest.Step) :
    (render (Forest.rows (f.run steps)) false).toList =
      (Forest.rows (f.run steps)).flatMap (fun r => r.indented ++ ['\n']) ∧
    (Archive.lines (render (Forest.rows (f.run steps)) false).toList).length =
      (Forest.rows (f.run steps)).length
        + ((Forest.rows (f.run steps)).map fun r => r.text.toList.count '\n').sum ∧
    (Archive.lines (render (Forest.rows (f.run steps)) false).toList =
        (Forest.rows (f.run steps)).map (fun r => r.indented ++ ['\n']) ↔
      ∀ r ∈ Forest.rows (f.run steps), '\n' ∉ r.text.toList) ∧
    ∀ r ∈ Forest.rows (f.run steps), ('\n' ∈ r.text.toList ↔
      ∃ e ∈ (Archive.parse blob).matching ending, ∃ literal, e.HasBroken literal ∧
        literal <:+: r.text.toList) := by
  refine ⟨?_, length_lines_render _, lines_render_iff _, ?_⟩
  · rw [toList_render, List.flatMap_map]
  · intro r hr
    have hlabels := Forest.allLabels_run (allLabels_of_forestOf h) steps
    constructor
    · intro hbreak
      obtain ⟨w, hw, hbreak, hinfix⟩ := Forest.breaks_rows hlabels r hr hbreak
      obtain ⟨e, he, hw⟩ := List.mem_flatMap.mp hw
      exact ⟨e, he, w.toList, Entry.hasBroken_of_mem_words hw hbreak, hinfix⟩
    · rintro ⟨e, -, literal, ⟨-, tree, -, l, -, -, -, hbreak⟩, hinfix⟩
      exact hinfix.subset hbreak

theorem lines_render_spannedBlob : ∃ f, forestOf ".go" spannedBlob = .ok f ∧
    (Archive.lines (render (Forest.rows (f.run [])) false).toList).length =
      (Forest.rows (f.run [])).length + 1 ∧
    ∃ r ∈ Forest.rows (f.run []), ∃ e ∈ (Archive.parse spannedBlob).matching ".go",
      ∃ literal, e.HasBroken literal ∧ literal <:+: r.text.toList := by
  obtain ⟨f, hf, hrows⟩ := exists_forestOf_spannedBlob
  have hrun : Forest.rows (f.run []) = Syntax.spannedRows := hrows
  obtain ⟨-, hlength, -, hbroken⟩ := lines_render_run hf []
  refine ⟨f, hf, ?_, ⟨"    Import: `a\nb`", 3, false, 3⟩, ?_, ?_⟩
  · rw [hlength, hrun]
    decide
  · rw [hrun]
    decide
  · rw [hrun] at hbroken
    exact (hbroken _ (by decide)).mp (by decide)

/-- The path of an import may go over two lines, and then there are more lines than rows. -/
theorem lines_ne_rows_spannedBlob : ∃ f, forestOf ".go" spannedBlob = .ok f ∧
    (Forest.rows f).length = 10 ∧
    (Archive.lines (render (Forest.rows f) false).toList).length = 11 ∧
    ∃ r ∈ Forest.rows f, r.text = "    Import: `a\nb`" := by
  obtain ⟨f, hf, hrows⟩ := exists_forestOf_spannedBlob
  refine ⟨f, hf, ?_, ?_, ⟨"    Import: `a\nb`", 3, false, 3⟩, ?_, rfl⟩
  · rw [hrows]
    rfl
  · rw [hrows, length_lines_render]
    decide
  · rw [hrows]
    decide

end GoOutline
