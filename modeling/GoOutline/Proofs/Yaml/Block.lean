import GoOutline.Proofs.Yaml.Gaps
import Mathlib.Data.List.DropRight

/-!
# Scalars on lines of their own are read back

The lines of a text are indented by two columns, and signs before them say what is done with the
line breaks at the end. A text that has more than line breaks is split into the line breaks before
its first line, its lines, and the line breaks after the last one.

* `IsBody`: the part of a text from its first line to its last.
* `blockBreaks_append`, `blockFrom_line`: empty lines, and one line that is not empty.
* `blockFrom_literalChars`: all lines from the first to the last.
* `readBlock_literalChars`: a text that can be written on lines of its own.
-/

namespace GoOutline.Yaml

/-! ### How lines are written -/

theorem literalChars_cons_break {b : Char} (h : isBreak b = true) (isLineStart : Bool)
    (text : List Char) : literalChars isLineStart (b :: text) = b :: literalChars true text :=
  if_pos h

theorem literalChars_cons_other {c : Char} (h : isBreak c = false) (isLineStart : Bool)
    (text : List Char) : literalChars isLineStart (c :: text)
      = (if isLineStart then lineIndent else []) ++ c :: literalChars false text :=
  if_neg (ne_true_of_eq_false h)

theorem literalChars_line {line : List Char} (h : ∀ c ∈ line, isBreak c = false)
    (text : List Char) : literalChars false (line ++ text) = line ++ literalChars false text := by
  induction line with
  | nil => rfl
  | cons c line ih =>
    obtain ⟨hc, hline⟩ := List.forall_mem_cons.mp h
    rw [List.cons_append, literalChars_cons_other hc, ih hline]
    rfl

theorem literalChars_breaks {breaks : List Char} (h : ∀ b ∈ breaks, isBreak b = true)
    (text : List Char) : literalChars true (breaks ++ text) = breaks ++ literalChars true text := by
  induction breaks with
  | nil => rfl
  | cons b breaks ih =>
    obtain ⟨hb, hbreaks⟩ := List.forall_mem_cons.mp h
    rw [List.cons_append, literalChars_cons_break hb, ih hbreaks]
    rfl

/-- Line breaks at the end are written as they are. -/
theorem literalChars_append_breaks (isLineStart : Bool) (text : List Char) {breaks : List Char}
    (h : ∀ b ∈ breaks, isBreak b = true) :
    literalChars isLineStart (text ++ breaks) = literalChars isLineStart text ++ breaks := by
  induction text generalizing isLineStart with
  | nil =>
    cases breaks with
    | nil => rfl
    | cons b breaks =>
      obtain ⟨hb, hbreaks⟩ := List.forall_mem_cons.mp h
      have hrest := literalChars_breaks hbreaks []
      rw [List.append_nil] at hrest
      rw [List.nil_append, literalChars_cons_break hb, hrest]
      exact congrArg (b :: ·) (List.append_nil breaks)
  | cons c text ih =>
    cases hc : isBreak c with
    | false =>
      rw [List.cons_append, literalChars_cons_other hc, literalChars_cons_other hc, ih,
        List.append_assoc, List.cons_append]
    | true =>
      rw [List.cons_append, literalChars_cons_break hc, literalChars_cons_break hc, ih,
        List.cons_append]

theorem length_le_literalChars (isLineStart : Bool) (text : List Char) :
    text.length ≤ (literalChars isLineStart text).length := by
  induction text generalizing isLineStart with
  | nil => exact Nat.zero_le _
  | cons c text ih =>
    cases hc : isBreak c with
    | false =>
      have hrest := ih false
      rw [literalChars_cons_other hc, List.length_append, List.length_cons, List.length_cons]
      omega
    | true =>
      rw [literalChars_cons_break hc]
      exact Nat.succ_le_succ (ih true)

/-! ### Empty lines -/

section

variable {fuel deepest indent : Nat} {seen : List Char} {c : Cursor}

/-- Empty lines are read one by one. -/
theorem blockBreaks_append (fuel : Nat) {breaks after : List Char}
    (hbreaks : ∀ b ∈ breaks, IsLineBreak b) (hrest : c.rest = breaks ++ after)
    (hcolumn : c.column = 0) :
    ∃ c' : Cursor, c'.rest = after ∧ c'.column = 0 ∧
      blockBreaks (some indent) (fuel + breaks.length) deepest seen c
        = blockBreaks (some indent) fuel deepest (seen ++ breaks) c' := by
  induction breaks generalizing seen c with
  | nil => exact ⟨c, hrest, hcolumn, by rw [List.append_nil]; rfl⟩
  | cons b breaks ih =>
    obtain ⟨hb, hbreaks⟩ := List.forall_mem_cons.mp hbreaks
    have hskip := hb.skipBreak hrest
    obtain ⟨c', hrest', hcolumn', hread⟩ := @ih (seen ++ [b]) _ hbreaks
      (show c.skipBreak.rest = breaks ++ after by rw [hskip]; rfl) (by rw [hskip])
    refine ⟨c', hrest', hcolumn', ?_⟩
    have hspaces : c.rest.takeWhile (· == ' ') = [] := by
      rw [hrest]
      rcases hb with rfl | rfl | rfl <;> rfl
    have htab : c.isAt '\t' = false := by
      rw [Cursor.isAt, hrest]
      rcases hb with rfl | rfl | rfl <;> rfl
    rw [List.length_cons, ← Nat.add_assoc, blockBreaks]
    simp only [hspaces, List.length_nil, Nat.zero_min, Cursor.skip_zero, htab, hcolumn]
    rw [hrest]
    simp only [List.cons_append, List.head?_cons, Option.any_some, hb.isBreak, hb.breakText,
      Bool.false_and, Bool.false_eq_true, if_false, if_true, Nat.max_zero, hread,
      List.append_assoc, List.nil_append]

/-- At the end of the text there is no further line. -/
theorem blockBreaks_nil (hrest : c.rest = []) (hcolumn : c.column = 0) :
    blockBreaks (some indent) (fuel + 1) deepest seen c = some (deepest, seen, c) := by
  rw [blockBreaks]
  simp [hrest, hcolumn, Cursor.isAt]

/-- The indent of a line is passed over. -/
theorem blockBreaks_indent {line : List Char} (hline : line.head?.all (!isBreak ·))
    (hrest : c.rest = lineIndent ++ line) (hcolumn : c.column = 0) :
    blockBreaks (some 2) (fuel + 1) deepest seen c = some (max deepest 2, seen, c.skip 2) := by
  have hspaces : min (c.rest.takeWhile (· == ' ')).length (2 - c.column) = 2 := by
    rw [hrest, hcolumn]
    exact Nat.min_eq_right (Nat.le_add_left 2 _)
  have hskip : (c.skip 2).rest = line := by rw [Cursor.skip_rest, hrest]; rfl
  have hbreak : line.head?.any isBreak = false := by
    cases line with
    | nil => rfl
    | cons d line => simpa using hline
  rw [blockBreaks]
  simp only [hspaces, hskip, hbreak]
  simp [hcolumn]

section

variable {breaks : List Char} (hbreaks : ∀ b ∈ breaks, IsLineBreak b) (hcolumn : c.column = 0)
  (hfuel : breaks.length < fuel)

include hbreaks hcolumn hfuel

/-- The empty lines at the end of the text. -/
theorem blockBreaks_last (hrest : c.rest = breaks) :
    ∃ (d : Nat) (c' : Cursor), c'.rest = [] ∧
      blockBreaks (some indent) fuel deepest [] c = some (d, breaks, c') := by
  obtain ⟨more, rfl⟩ := Nat.exists_eq_add_of_lt hfuel
  obtain ⟨c', hrest', hcolumn', hread⟩ := blockBreaks_append (more + 1) hbreaks
    (hrest.trans (List.append_nil breaks).symm) hcolumn
  refine ⟨deepest, c', hrest', ?_⟩
  rw [Nat.add_assoc, Nat.add_comm, hread, blockBreaks_nil hrest' hcolumn']
  rfl

/-- The empty lines before a line, and its indent. -/
theorem blockBreaks_line {line : List Char} (hline : line.head?.all (!isBreak ·))
    (hrest : c.rest = breaks ++ (lineIndent ++ line)) :
    ∃ (d : Nat) (c' : Cursor), (c'.rest = line ∧ c'.column = 2) ∧
      blockBreaks (some 2) fuel deepest [] c = some (d, breaks, c') := by
  obtain ⟨more, rfl⟩ := Nat.exists_eq_add_of_lt hfuel
  obtain ⟨c', hrest', hcolumn', hread⟩ :=
    blockBreaks_append (more + 1) hbreaks hrest hcolumn
  refine ⟨max deepest 2, c'.skip 2, ⟨?_, by rw [Cursor.skip_column, hcolumn']⟩, ?_⟩
  · rw [Cursor.skip_rest, hrest']
    rfl
  · rw [Nat.add_assoc, Nat.add_comm, hread, blockBreaks_indent hline hrest' hcolumn']
    rfl

end

end

/-! ### Lines -/

/-- A text from its first line to its last: there is no line break at the start or at the end. -/
structure IsBody (text : List Char) : Prop where
  nonempty : text ≠ []
  head : text.head?.all (!isBreak ·)
  last : text.getLast?.all (!isBreak ·)

theorem IsBody.literalChars {text : List Char} (h : IsBody text) :
    literalChars true text = lineIndent ++ literalChars false text := by
  obtain ⟨c, text, rfl⟩ := List.exists_cons_of_ne_nil h.nonempty
  have hc : isBreak c = false := by simpa using h.head
  rw [literalChars_cons_other hc, literalChars_cons_other hc]
  rfl

theorem IsBody.head_literalChars {text : List Char} (h : IsBody text) (after : List Char) :
    (Yaml.literalChars false text ++ after).head?.all (!isBreak ·) := by
  obtain ⟨c, text, rfl⟩ := List.exists_cons_of_ne_nil h.nonempty
  have hc : isBreak c = false := by simpa using h.head
  simp [literalChars_cons_other hc, hc]

/-- What follows a line and the breaks after it is again such a text. -/
theorem IsBody.of_append {line breaks rest : List Char} (h : IsBody (line ++ (breaks ++ rest)))
    (hnonempty : breaks ≠ []) (hbreaks : ∀ b ∈ breaks, isBreak b = true)
    (hhead : rest.head?.all (!isBreak ·)) : IsBody rest := by
  have hlast := h.last
  rw [List.getLast?_append, List.getLast?_append] at hlast
  refine ⟨?_, hhead, ?_⟩
  · rintro rfl
    rw [List.getLast?_eq_some_getLast hnonempty] at hlast
    have hbreak := hbreaks _ (List.getLast_mem hnonempty)
    exact absurd hlast (by simp [hbreak])
  · cases hrest : rest.getLast? with
    | none => rfl
    | some c =>
      rw [hrest] at hlast
      exact hlast

section

variable {fuel : Nat} {seen first more line breaks : List Char} {wasBlank : Bool} {c : Cursor}

theorem blockFrom_nil (hrest : c.rest = []) :
    blockFrom false 2 (fuel + 1) seen wasBlank first more c = some (seen, first, more, c) := by
  rw [blockFrom, hrest]
  simp

/-- One line, and the line breaks after it. -/
theorem blockFrom_line {b : Char} {after : List Char} {p : Cursor → Prop}
    (hline : ∀ c ∈ line, isBreak c = false) (hb : IsLineBreak b)
    (hrest : c.rest = line ++ b :: after) (hcolumn : c.column = 2)
    (hbreaks : ∀ c : Cursor, c.rest = after → c.column = 0 → ∃ (d : Nat) (c' : Cursor), p c' ∧
      blockBreaks (some 2) (after.length + 1) 0 [] c = some (d, breaks, c')) :
    ∃ (startsBlank : Bool) (c' : Cursor), p c' ∧
      blockFrom false 2 (fuel + 1) seen wasBlank first more c
        = blockFrom false 2 fuel (seen ++ (first ++ more) ++ line) startsBlank [b] breaks c' := by
  have htake : c.rest.takeWhile (!isBreak ·) = line := by
    rw [hrest, List.takeWhile_append_of_pos (fun c hc => by simpa using hline c hc),
      List.takeWhile_cons_of_neg (by simpa using hb.isBreak), List.append_nil]
  have hskip : (c.skip line.length).rest = b :: after := Cursor.skip_append hrest
  have hbreak := hb.skipBreak hskip
  obtain ⟨d, c', hp, hread⟩ :=
    hbreaks (c.skip line.length).skipBreak (by rw [hbreak]) (by rw [hbreak])
  have hlength : (c.skip line.length).skipBreak.rest.length = after.length := by rw [hbreak]
  refine ⟨c.rest.head?.any isBlank, c', hp, ?_⟩
  rw [blockFrom, if_pos (by simp [hrest, hcolumn])]
  simp only [htake, hskip, hb.breakText, hlength, hread, Option.bind_eq_bind, Option.bind_some]
  rfl

end

/-- The lines of a text, with empty lines between them. -/
theorem blockFrom_literalChars {b : Char} {breaks : List Char} (hb : IsLineBreak b)
    (hbreaks : ∀ b ∈ breaks, IsLineBreak b) (text : List Char) :
    ∀ {fuel : Nat} {seen first more : List Char} {wasBlank : Bool} {c : Cursor},
      IsBody text → (∀ c ∈ text, isPrintable c = true) →
        c.rest = literalChars false text ++ b :: breaks → c.column = 2 → text.length < fuel →
          ∃ c' : Cursor, c'.rest = [] ∧ blockFrom false 2 fuel seen wasBlank first more c
            = some (seen ++ (first ++ more) ++ text, [b], breaks, c') := by
  induction text using runs_induction isBreak with
  | last line hline =>
    intro fuel seen first more wasBlank c hbody _ hrest hcolumn hfuel
    have hpos := List.length_pos_iff.mpr hbody.nonempty
    obtain ⟨fuel, rfl⟩ : ∃ n, fuel = n + 2 := Nat.exists_eq_add_of_le' (by omega)
    have hchars : literalChars false line = line := by
      rw [← List.append_nil line, literalChars_line hline]
      rfl
    rw [hchars] at hrest
    obtain ⟨startsBlank, c', hend, hread⟩ := blockFrom_line hline hb hrest hcolumn
      fun c hc hcolumn => blockBreaks_last hbreaks hcolumn (Nat.lt_succ_self _) hc
    exact ⟨c', hend, hread.trans (blockFrom_nil hend)⟩
  | step line gap rest hline hgap hnonempty hhead ih =>
    intro fuel seen first more wasBlank c hbody hprintable hrest hcolumn hfuel
    obtain ⟨fuel, rfl⟩ := Nat.exists_eq_add_one_of_ne_zero (Nat.ne_zero_of_lt hfuel)
    have hbody' := hbody.of_append hnonempty hgap hhead
    have hlines : ∀ b ∈ gap, IsLineBreak b := fun b hb =>
      isLineBreak_of_isPrintable (hprintable b (by simp [hb])) (hgap b hb)
    obtain ⟨g, gap, rfl⟩ := List.exists_cons_of_ne_nil hnonempty
    obtain ⟨hg, hgap⟩ := List.forall_mem_cons.mp hlines
    have hchars : literalChars false (line ++ (g :: gap ++ rest))
        = line ++ g :: (gap ++ (lineIndent ++ literalChars false rest)) := by
      rw [literalChars_line hline, List.cons_append, literalChars_cons_break hg.isBreak,
        literalChars_breaks fun b hb => (hgap b hb).isBreak, hbody'.literalChars]
    have hrest' : c.rest
        = line ++ g :: (gap ++ (lineIndent ++ (literalChars false rest ++ b :: breaks))) := by
      rw [hrest, hchars]
      simp
    obtain ⟨startsBlank, c', ⟨hafter, hcolumn'⟩, hread⟩ := blockFrom_line hline hg hrest' hcolumn
      fun c hc hcolumn =>
        blockBreaks_line hgap hcolumn (by rw [List.length_append]; omega)
          (hbody'.head_literalChars _) hc
    have hlength : rest.length < fuel := by
      simp only [List.length_append, List.length_cons] at hfuel
      omega
    obtain ⟨c'', hend, hread'⟩ := ih hbody' (fun c hc => hprintable c (by simp [hc])) hafter
      hcolumn' hlength
    refine ⟨c'', hend, ?_⟩
    rw [hread, hread']
    simp

/-! ### The signs before the lines -/

namespace Chomping

/-- The sign of a way to treat the line breaks at the end. -/
def sign : Chomping → List Char
  | strip => ['-']
  | clip => []
  | keep => ['+']

/-- What is left of a text and the line breaks after it. -/
def apply (text first more : List Char) : Chomping → List Char
  | strip => text
  | clip => text ++ first
  | keep => text ++ first ++ more

end Chomping

/-- The sign of an indent that must be told. -/
def indentSign (isTold : Bool) : List Char := if isTold then ['2'] else []

theorem blockHeader_signs {isTold : Bool} {chomping : Chomping} {lines : List Char} {c : Cursor}
    (hrest : c.rest = indentSign isTold ++ chomping.sign ++ '\n' :: lines) :
    ∃ c' : Cursor, c'.rest = '\n' :: lines ∧
      blockHeader c = some (chomping, if isTold then some 2 else none, c') := by
  obtain ⟨rest, index, line, column⟩ := c
  subst hrest
  cases isTold <;> cases chomping <;> exact ⟨_, rfl, rfl⟩

theorem restOfLine_newline {lines : List Char} {c : Cursor} (hrest : c.rest = '\n' :: lines) :
    restOfLine c = some ⟨lines, c.index + 1, c.line + 1, 0⟩ := by
  obtain ⟨rest, index, line, column⟩ := c
  subst hrest
  rfl

/-- After the signs come empty lines, and then the lines of the text. -/
theorem readBlock_signs {isTold : Bool} {chomping : Chomping} {lines : List Char} {c : Cursor}
    (hrest : c.rest = '|' :: (indentSign isTold ++ chomping.sign ++ '\n' :: lines)) :
    ∃ start : Cursor, start.rest = lines ∧ start.column = 0 ∧
      ∀ {deepest : Nat} {breaks text first more : List Char} {next last : Cursor},
        blockBreaks (if isTold then some 2 else none) (lines.length + 1) 0 [] start
            = some (deepest, breaks, next) → (isTold = false → deepest = 2) →
          blockFrom false 2 (next.rest.length + 1) [] false [] breaks next
              = some (text, first, more, last) →
            readBlock false 0 c = some (chomping.apply text first more, last) := by
  have hskip : (c.skip 1).rest = indentSign isTold ++ chomping.sign ++ '\n' :: lines := by
    rw [Cursor.skip_rest, hrest]
    rfl
  obtain ⟨c', hline, hheader⟩ := blockHeader_signs hskip
  refine ⟨⟨lines, c'.index + 1, c'.line + 1, 0⟩, rfl, rfl, ?_⟩
  intro deepest breaks text first more next last hbreaks hdeepest hfrom
  have hgiven : (if isTold then some 2 else none).map (fun n => (max 0 0 : Int).toNat + n)
      = if isTold then some 2 else none := by
    cases isTold <;> rfl
  have hindent :
      (if isTold then some 2 else none).getD (max (max deepest (0 + 1 : Int).toNat) 1) = 2 := by
    cases isTold with
    | true => rfl
    | false => rw [hdeepest rfl]; rfl
  rw [readBlock, hheader]
  simp only [Option.bind_eq_bind, Option.bind_some, restOfLine_newline hline, hgiven, hbreaks,
    hindent, hfrom]
  cases chomping <;> rfl

/-- Where the indent is not told it is that of the first line. -/
theorem blockBreaks_untold {fuel : Nat} {seen line : List Char} {c : Cursor} {d : Char}
    (hd : isGap d = false) (hrest : c.rest = lineIndent ++ d :: line) (hcolumn : c.column = 0) :
    blockBreaks none (fuel + 1) 0 seen c = some (2, seen, c.skip 2) := by
  rw [isGap, isBlank, Bool.or_eq_false_iff, Bool.or_eq_false_iff] at hd
  obtain ⟨⟨hspace, htab⟩, hbreak⟩ := hd
  have hspaces : (c.rest.takeWhile (· == ' ')).length = 2 := by
    rw [hrest]
    simp [lineIndent, hspace]
  have hskip : (c.skip 2).rest = d :: line := by rw [Cursor.skip_rest, hrest]; rfl
  have hat : (c.skip 2).isAt '\t' = false := by rwa [Cursor.isAt, hskip]
  rw [blockBreaks]
  simp only [hspaces, hat, hskip, List.head?_cons, Option.any_some, hbreak, Cursor.skip_column,
    hcolumn]
  rfl

/-! ### Whole texts -/

/-- A text with lines: the line breaks before the first line, the lines, and the line breaks after
the last one. -/
structure Lines where
  lead : List Char
  body : List Char
  trail : List Char
  isLineBreak_lead : ∀ b ∈ lead, IsLineBreak b
  isBody : IsBody body
  isPrintable_body : ∀ c ∈ body, isPrintable c = true
  isLineBreak_trail : ∀ b ∈ trail, IsLineBreak b

/-- The text itself. -/
def Lines.text (l : Lines) : List Char := l.lead ++ (l.body ++ l.trail)

/-- A text has only line breaks, or it has lines. -/
theorem breaks_or_lines {text : List Char} (hprintable : ∀ c ∈ text, isPrintable c = true) :
    (∀ c ∈ text, IsLineBreak c) ∨ ∃ l : Lines, l.text = text := by
  have hhead := all_head?_dropWhile isBreak text
  have htext := List.takeWhile_append_dropWhile (p := isBreak) (l := text)
  have hlead : ∀ b ∈ text.takeWhile isBreak, isBreak b = true := fun b => List.mem_takeWhile_imp
  generalize text.takeWhile isBreak = lead at *
  generalize text.dropWhile isBreak = rest at *
  subst htext
  have hlead' : ∀ b ∈ lead, IsLineBreak b := fun b hb =>
    isLineBreak_of_isPrintable (hprintable b (List.mem_append_left rest hb)) (hlead b hb)
  cases rest with
  | nil => exact .inl (by simpa using hlead')
  | cons d rest =>
    have hd : isBreak d = false := by simpa using hhead
    have hrest : (d :: rest).rdropWhile isBreak ++ (d :: rest).rtakeWhile isBreak = d :: rest :=
      List.rdropWhile_append_rtakeWhile
    have hbody : ¬ ∀ c ∈ d :: rest, isBreak c = true := fun h => by
      simpa [hd] using h d List.mem_cons_self
    have hnonempty := mt List.rdropWhile_eq_nil_iff.mp hbody
    have hlast := List.rdropWhile_last_not isBreak (d :: rest) hnonempty
    have hfirst : ((d :: rest).rdropWhile isBreak).head? = some d := by
      rw [← List.head?_append_of_ne_nil _ hnonempty, hrest, List.head?_cons]
    have hmem : ∀ c ∈ d :: rest, isPrintable c = true := fun c hc =>
      hprintable c (List.mem_append_right lead hc)
    refine .inr ⟨⟨lead, (d :: rest).rdropWhile isBreak, (d :: rest).rtakeWhile isBreak, hlead',
      ⟨hnonempty, by simpa [hfirst] using hd, ?_⟩, fun c hc => hmem c ?_, fun b hb => ?_⟩,
      by rw [Lines.text, hrest]⟩
    · rw [List.getLast?_eq_some_getLast hnonempty]
      simpa using hlast
    · exact (List.rdropWhile_prefix isBreak _).mem hc
    · exact isLineBreak_of_isPrintable (hmem b ((List.rtakeWhile_suffix isBreak _).mem hb))
        (List.mem_rtakeWhile_imp hb)

/-- How the line breaks after the last line are treated. -/
def chompingOf (trail : List Char) : Chomping :=
  if trail.length = 0 then .strip else if trail.length = 1 then .clip else .keep

theorem literalHints_breaks {text : List Char} (hnonempty : text ≠ [])
    (h : ∀ c ∈ text, isBreak c = true) :
    literalHints text = indentSign true ++ Chomping.keep.sign := by
  have hhead : (text.head?.any fun c => c == ' ' || isBreak c) = true := by
    obtain ⟨c, text, rfl⟩ := List.exists_cons_of_ne_nil hnonempty
    simp [h c List.mem_cons_self]
  have hreverse : ∀ c ∈ text.reverse, isBreak c = true := by simpa using h
  rw [literalHints, if_pos hhead]
  cases hr : text.reverse with
  | nil => simp [hnonempty] at hr
  | cons c more =>
    rw [hr] at hreverse
    obtain ⟨hc, hmore⟩ := List.forall_mem_cons.mp hreverse
    cases more with
    | nil => simp only [hc]; rfl
    | cons d more => simp only [hc, hmore d List.mem_cons_self]; rfl

theorem literalHints_body {front trail : List Char} {d : Char} (hd : isBreak d = false)
    (htrail : ∀ b ∈ trail, isBreak b = true) :
    literalHints (front ++ d :: trail)
      = indentSign ((front ++ d :: trail).head?.any fun c => c == ' ' || isBreak c)
        ++ (chompingOf trail).sign := by
  have hreverse : (front ++ d :: trail).reverse = trail.reverse ++ d :: front.reverse := by simp
  have htrail' : ∀ b ∈ trail.reverse, isBreak b = true := by simpa using htrail
  rw [literalHints, hreverse, indentSign, chompingOf, ← List.length_reverse]
  congr 1
  cases htrail : trail.reverse with
  | nil => cases front.reverse <;> simp [hd, Chomping.sign]
  | cons b more =>
    rw [htrail] at htrail'
    obtain ⟨hb, hmore⟩ := List.forall_mem_cons.mp htrail'
    cases more with
    | nil => simp [hb, hd, Chomping.sign]
    | cons b' more => simp [hb, hmore b' List.mem_cons_self, Chomping.sign]

/-- The end of the last line is the first line break after it, or one that is added. -/
theorem exists_line_end {trail : List Char} (h : ∀ b ∈ trail, IsLineBreak b) :
    ∃ b more, IsLineBreak b ∧ (∀ b ∈ more, IsLineBreak b) ∧
      trail ++ (if trail = [] then ['\n'] else []) = b :: more ∧
        ∀ text, (chompingOf trail).apply text [b] more = text ++ trail := by
  cases trail with
  | nil => exact ⟨'\n', [], .inl rfl, by simp, rfl, fun text => (List.append_nil text).symm⟩
  | cons b more =>
    obtain ⟨hb, hmore⟩ := List.forall_mem_cons.mp h
    refine ⟨b, more, hb, hmore, by simp, fun text => ?_⟩
    cases more with
    | nil => rfl
    | cons b' more => simp [chompingOf, Chomping.apply]

/-- A text of line breaks only. -/
theorem readBlock_breaks {text : List Char} {c : Cursor} (hnonempty : text ≠ [])
    (h : ∀ b ∈ text, IsLineBreak b)
    (hrest : c.rest = '|' :: (literalHints text ++ '\n' :: text)) :
    ∃ c' : Cursor, c'.rest = [] ∧ readBlock false 0 c = some (text, c') := by
  rw [literalHints_breaks hnonempty fun b hb => (h b hb).isBreak] at hrest
  obtain ⟨start, hstart, hcolumn, hread⟩ := readBlock_signs hrest
  obtain ⟨d, next, hnext, hbreaks⟩ : ∃ (d : Nat) (next : Cursor), next.rest = [] ∧
      blockBreaks (some 2) (text.length + 1) 0 [] start = some (d, text, next) :=
    blockBreaks_last h hcolumn (Nat.lt_succ_self _) hstart
  exact ⟨next, hnext, hread hbreaks (fun h => absurd h (by decide)) (blockFrom_nil hnext)⟩

namespace Lines

variable (l : Lines)

/-- Whether the indent must be told: the text begins with a space or a line break. -/
def isTold : Bool := l.text.head?.any fun c => c == ' ' || isBreak c

theorem literalHints_text :
    literalHints l.text = indentSign l.isTold ++ (chompingOf l.trail).sign := by
  have hlast := l.isBody.last
  rw [List.getLast?_eq_some_getLast l.isBody.nonempty] at hlast
  have htext : l.text
      = (l.lead ++ l.body.dropLast) ++ l.body.getLast l.isBody.nonempty :: l.trail := by
    rw [text, List.append_cons, List.append_assoc l.lead, List.dropLast_concat_getLast,
      List.append_assoc]
  rw [isTold, htext]
  exact literalHints_body (by simpa using hlast) fun b hb => (l.isLineBreak_trail b hb).isBreak

theorem literalChars_text : literalChars true l.text
    = l.lead ++ (lineIndent ++ (literalChars false l.body ++ l.trail)) := by
  rw [text, literalChars_breaks fun b hb => (l.isLineBreak_lead b hb).isBreak,
    literalChars_append_breaks true l.body fun b hb => (l.isLineBreak_trail b hb).isBreak,
    l.isBody.literalChars, List.append_assoc]

/-- The end of the last line is written only where there are no line breaks after it. -/
theorem line_end : (if l.text.getLast?.any isBreak then [] else ['\n'])
    = if l.trail = [] then ['\n'] else [] := by
  rw [text, List.getLast?_append, List.getLast?_append]
  cases htrail : l.trail.getLast? with
  | none =>
    have hlast := l.isBody.last
    rw [List.getLast?_eq_some_getLast l.isBody.nonempty] at hlast ⊢
    rw [if_pos (List.getLast?_eq_none_iff.mp htrail), if_neg (by simpa using hlast)]
  | some b =>
    have hb := (l.isLineBreak_trail b (List.mem_of_getLast? htrail)).isBreak
    have hnonempty : l.trail ≠ [] := fun h => by simp [h] at htrail
    rw [if_neg hnonempty, if_pos (by simpa using hb)]

/-- The line breaks before the first line, and its indent. -/
theorem blockBreaks_text {start : Cursor} {after : List Char}
    (hrest : start.rest = l.lead ++ (lineIndent ++ (literalChars false l.body ++ after)))
    (hcolumn : start.column = 0) :
    ∃ (deepest : Nat) (next : Cursor), next.rest = literalChars false l.body ++ after ∧
      next.column = 2 ∧ (l.isTold = false → deepest = 2) ∧
        blockBreaks (if l.isTold then some 2 else none) (start.rest.length + 1) 0 [] start
          = some (deepest, l.lead, next) := by
  cases htold : l.isTold with
  | true =>
    have hfuel : l.lead.length < start.rest.length + 1 := by
      rw [hrest, List.length_append]
      omega
    obtain ⟨deepest, next, ⟨hnext, hcolumn'⟩, hread⟩ := blockBreaks_line l.isLineBreak_lead hcolumn
      hfuel (l.isBody.head_literalChars after) hrest
    exact ⟨deepest, next, hnext, hcolumn', fun h => absurd h (by decide), hread⟩
  | false =>
    -- Neither a line break nor a space comes first, so the text begins with its first line.
    rw [isTold, text] at htold
    have hlead : l.lead = [] := by
      cases hlead : l.lead with
      | nil => rfl
      | cons b lead =>
        have hb := (l.isLineBreak_lead b (hlead ▸ List.mem_cons_self)).isBreak
        simp [hlead, hb] at htold
    obtain ⟨d, line, hbody⟩ := List.exists_cons_of_ne_nil l.isBody.nonempty
    rw [hlead, hbody] at htold
    have hd : d ≠ ' ' ∧ isBreak d = false := by simpa using htold
    have hgap := isGap_of_isPrintable (l.isPrintable_body d (hbody ▸ List.mem_cons_self)) hd.1 hd.2
    have hchars : literalChars false l.body = d :: literalChars false line := by
      rw [hbody, literalChars_cons_other hd.2]
      rfl
    rw [hlead, hchars, List.nil_append, List.cons_append] at hrest
    refine ⟨2, start.skip 2, ?_, by rw [Cursor.skip_column, hcolumn], fun _ => rfl, ?_⟩
    · rw [Cursor.skip_rest, hrest, hchars]
      rfl
    · rw [hlead]
      exact blockBreaks_untold hgap hrest hcolumn

end Lines

/-- **A text on lines of its own is read back.** -/
theorem readBlock_literalChars {text : List Char} {c : Cursor} (hnonempty : text ≠ [])
    (hprintable : ∀ c ∈ text, isPrintable c = true)
    (hrest : c.rest = '|' :: (literalHints text ++ '\n' :: (literalChars true text ++
      if text.getLast?.any isBreak then [] else ['\n']))) :
    ∃ c' : Cursor, c'.rest = [] ∧ readBlock false 0 c = some (text, c') := by
  rcases breaks_or_lines hprintable with hall | ⟨l, rfl⟩
  · have hlast : text.getLast?.any isBreak = true := by
      rw [List.getLast?_eq_some_getLast hnonempty]
      exact (hall _ (List.getLast_mem hnonempty)).isBreak
    have hchars : literalChars true text = text :=
      literalChars_append_breaks true [] fun b hb => (hall b hb).isBreak
    rw [hchars, if_pos hlast, List.append_nil] at hrest
    exact readBlock_breaks hnonempty hall hrest
  · obtain ⟨b, more, hb, hmore, hends, hchomp⟩ := exists_line_end l.isLineBreak_trail
    rw [l.literalHints_text, l.literalChars_text, l.line_end] at hrest
    obtain ⟨start, hstart, hcolumn, hread⟩ := readBlock_signs hrest
    have hstart' : start.rest
        = l.lead ++ (lineIndent ++ (literalChars false l.body ++ b :: more)) := by
      rw [hstart, ← hends]
      simp
    obtain ⟨deepest, next, hnext, hcolumn', hdeepest, hbreaks⟩ := l.blockBreaks_text hstart' hcolumn
    have hfuel : l.body.length < next.rest.length + 1 := by
      have hlength := length_le_literalChars false l.body
      rw [hnext, List.length_append]
      omega
    obtain ⟨c', hend, hfrom⟩ := blockFrom_literalChars hb hmore l.body l.isBody l.isPrintable_body
      hnext hcolumn' hfuel
    rw [hstart] at hbreaks
    refine ⟨c', hend, ?_⟩
    rw [hread hbreaks hdeepest hfrom, hchomp, Lines.text]
    simp

end GoOutline.Yaml
