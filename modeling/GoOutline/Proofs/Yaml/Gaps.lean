import GoOutline.Yaml.Scalar
import GoOutline.Yaml.Write
import Mathlib.Data.List.TakeWhile

/-!
# Words and gaps

A scalar is read word by word. What stands between two words is read at once, and it may stand for
something else than what is written.

* `runs_induction`: induction along the words of a text and the gaps between them.
* `IsLineBreak`: the line breaks that are written as they are.
* `readGap_blanks`, `readGap_breaks`: gaps on one line and gaps over several lines.
* `spaces_or_breaks`: the gaps in a text in which no space stands beside a line break.
-/

namespace GoOutline.Yaml

/-! ### Runs -/

theorem all_head?_dropWhile (p : Char → Bool) (text : List Char) :
    (text.dropWhile p).head?.all (!p ·) := by
  have h := List.head?_dropWhile_not p text
  cases hhead : (text.dropWhile p).head? with
  | none => rfl
  | some c =>
    rw [hhead] at h
    simpa using h

/-- The words of a text have no character of a class, and the gaps between them have no others. -/
theorem runs_induction (p : Char → Bool) {motive : List Char → Prop}
    (last : ∀ word, (∀ c ∈ word, p c = false) → motive word)
    (step : ∀ word gap rest, (∀ c ∈ word, p c = false) → (∀ c ∈ gap, p c = true) → gap ≠ [] →
      rest.head?.all (!p ·) → motive rest → motive (word ++ (gap ++ rest)))
    (text : List Char) : motive text := by
  induction hlength : text.length using Nat.strongRecOn generalizing text with
  | ind n ih =>
    have hword : ∀ c ∈ text.takeWhile (!p ·), p c = false := fun c hc => by
      simpa using List.mem_takeWhile_imp hc
    have htext := List.takeWhile_append_dropWhile (p := (!p ·)) (l := text)
    have hhead := all_head?_dropWhile (!p ·) text
    generalize text.takeWhile (!p ·) = word at *
    generalize text.dropWhile (!p ·) = more at *
    cases more with
    | nil =>
      rw [← htext, List.append_nil]
      exact last word hword
    | cons b more =>
      have hb : p b = true := by simpa using hhead
      have hgap := List.takeWhile_cons_of_pos (l := more) hb
      have hmore := List.takeWhile_append_dropWhile (p := p) (l := b :: more)
      rw [← htext, ← hmore]
      refine step _ _ _ hword (fun c hc => List.mem_takeWhile_imp hc) ?_
        (all_head?_dropWhile p (b :: more)) (ih _ ?_ _ rfl)
      · rw [hgap]
        exact List.cons_ne_nil _ _
      · have hshorter := congrArg List.length hmore
        rw [hgap, List.length_append, List.length_cons] at hshorter
        rw [← hlength, ← htext, List.length_append]
        omega

/-! ### Cursors -/

namespace Cursor

variable (c : Cursor) (m n : Nat)

@[simp] theorem skip_rest : (c.skip n).rest = c.rest.drop n := rfl

@[simp] theorem skip_column : (c.skip n).column = c.column + n := rfl

@[simp] theorem skip_zero : c.skip 0 = c := rfl

theorem skip_skip : (c.skip m).skip n = c.skip (m + n) := by
  simp only [skip, List.drop_drop, Nat.add_assoc]

/-- What comes after a word. -/
theorem skip_append {c : Cursor} {word after : List Char} (h : c.rest = word ++ after) :
    (c.skip word.length).rest = after := by
  rw [skip_rest, h, List.drop_left]

theorem isAtMark_of_column {c : Cursor} (h : 0 < c.column) (ch : Char) : c.isAtMark ch = false := by
  rw [isAtMark, beq_false_of_ne (Nat.ne_of_gt h)]
  rfl

theorem isAtDocumentMark_of_column {c : Cursor} (h : 0 < c.column) :
    c.isAtDocumentMark = false := by
  rw [isAtDocumentMark, isAtMark_of_column h, isAtMark_of_column h]
  rfl

end Cursor

/-! ### Line breaks -/

/-- The line breaks that need not be escaped. -/
def IsLineBreak (c : Char) : Prop := c = '\n' ∨ c = '\u2028' ∨ c = '\u2029'

theorem isLineBreak_of_isPrintable {c : Char} (h : isPrintable c) (hbreak : isBreak c) :
    IsLineBreak c := by
  simp only [isBreak, Bool.or_eq_true, beq_iff_eq] at hbreak
  rcases hbreak with (((rfl | rfl) | rfl) | rfl) | rfl
  · exact .inl rfl
  · exact absurd h (by decide)
  · exact absurd h (by decide)
  · exact .inr (.inl rfl)
  · exact .inr (.inr rfl)

namespace IsLineBreak

variable {b : Char} {rest : List Char}

theorem isBreak (h : IsLineBreak b) : isBreak b = true := by
  rcases h with rfl | rfl | rfl <;> decide

theorem isBlank (h : IsLineBreak b) : isBlank b = false := by
  rcases h with rfl | rfl | rfl <;> decide

theorem breakText (h : IsLineBreak b) : breakText (b :: rest) = [b] := by
  rcases h with rfl | rfl | rfl <;> rfl

theorem skipBreak (h : IsLineBreak b) {c : Cursor} (hrest : c.rest = b :: rest) :
    c.skipBreak = ⟨rest, c.index + 1, c.line + 1, 0⟩ := by
  rw [Cursor.skipBreak, hrest]
  rcases h with rfl | rfl | rfl <;> rfl

end IsLineBreak

/-! ### Gaps -/

section

variable {fuel : Nat} {after : List Char} {c : Cursor} (limit : Nat)

/-- Whether a gap has ended: neither a blank nor a line break comes next. -/
def EndsGap (after : List Char) : Prop := after.head?.all (!isGap ·)

theorem readGap_of_ends (h : EndsGap after) (hrest : c.rest = after) (gap : Gap) :
    readGap limit fuel gap c = some (gap, c) := by
  cases fuel with
  | zero => rfl
  | succ fuel =>
    rw [readGap, hrest]
    cases after with
    | nil => rfl
    | cons d after =>
      have hd : isBlank d = false ∧ isBreak d = false := by simpa [EndsGap, isGap] using h
      simp only [hd.1, hd.2, Bool.false_eq_true, if_false]

/-- Blanks on one line stand for themselves. -/
theorem readGap_blanks {blanks : List Char} (hblanks : ∀ b ∈ blanks, isBlank b = true)
    (hafter : EndsGap after) (hrest : c.rest = blanks ++ after) (hfuel : blanks.length ≤ fuel)
    (seen : List Char) :
    readGap limit fuel (.blanks seen) c
      = some (.blanks (seen ++ blanks), c.skip blanks.length) := by
  induction blanks generalizing fuel c seen with
  | nil =>
    rw [List.append_nil, List.length_nil, Cursor.skip_zero]
    exact readGap_of_ends limit hafter hrest _
  | cons b blanks ih =>
    obtain ⟨fuel, rfl⟩ := Nat.exists_eq_add_one_of_ne_zero (Nat.ne_zero_of_lt hfuel)
    have hb : isBlank b = true := hblanks b List.mem_cons_self
    have hskip : (c.skip 1).rest = blanks ++ after := by rw [Cursor.skip_rest, hrest]; rfl
    rw [readGap, hrest]
    simp only [List.cons_append, hb, if_true, Gap.isBroken, Bool.false_and, Bool.false_eq_true,
      if_false]
    have hread := ih (fun d hd => hblanks d (List.mem_cons_of_mem b hd)) hskip
      (Nat.le_of_succ_le_succ hfuel) (seen ++ [b])
    rw [Gap.addBlank, hread, Cursor.skip_skip, List.append_assoc, Nat.add_comm 1]
    rfl

/-- After a line break blanks do not count. -/
theorem readGap_indent {blanks : List Char} (hblanks : ∀ b ∈ blanks, b = ' ')
    (hafter : EndsGap after) (hrest : c.rest = blanks ++ after) (hfuel : blanks.length ≤ fuel)
    (first more : List Char) :
    readGap limit fuel (.broken first more) c
      = some (.broken first more, c.skip blanks.length) := by
  induction blanks generalizing fuel c with
  | nil => exact readGap_of_ends limit hafter hrest _
  | cons b blanks ih =>
    obtain ⟨fuel, rfl⟩ := Nat.exists_eq_add_one_of_ne_zero (Nat.ne_zero_of_lt hfuel)
    obtain rfl : b = ' ' := hblanks b List.mem_cons_self
    have hskip : (c.skip 1).rest = blanks ++ after := by rw [Cursor.skip_rest, hrest]; rfl
    have hread := ih (fun d hd => hblanks d (List.mem_cons_of_mem ' ' hd)) hskip
      (Nat.le_of_succ_le_succ hfuel)
    rw [readGap, hrest]
    show (if _ then none else readGap limit fuel (.broken first more) (c.skip 1)) = _
    rw [if_neg (by simp), hread, Cursor.skip_skip, Nat.add_comm 1]
    rfl

/-- Several line breaks, and the indent of the line after them. -/
theorem readGap_breaks {breaks blanks : List Char} (hbreaks : ∀ b ∈ breaks, IsLineBreak b)
    (hblanks : ∀ b ∈ blanks, b = ' ') (hafter : EndsGap after)
    (hrest : c.rest = breaks ++ (blanks ++ after)) (hfuel : breaks.length + blanks.length ≤ fuel)
    (first more : List Char) :
    ∃ c' : Cursor, c'.rest = after ∧ blanks.length ≤ c'.column ∧
      readGap limit fuel (.broken first more) c = some (.broken first (more ++ breaks), c') := by
  induction breaks generalizing fuel c more with
  | nil =>
    refine ⟨c.skip blanks.length, ?_, Nat.le_add_left _ _, ?_⟩
    · rw [Cursor.skip_rest, hrest, List.nil_append, List.drop_left]
    · rw [List.append_nil]
      exact readGap_indent limit hblanks hafter hrest (by simpa using hfuel) first more
  | cons b breaks ih =>
    rw [List.length_cons] at hfuel
    obtain ⟨fuel, rfl⟩ := Nat.exists_eq_add_one_of_ne_zero (n := fuel) (by omega)
    have hb : IsLineBreak b := hbreaks b List.mem_cons_self
    have hskip := hb.skipBreak hrest
    have hrest' : c.skipBreak.rest = breaks ++ (blanks ++ after) := by rw [hskip]; rfl
    have hfuel' : breaks.length + blanks.length ≤ fuel := by omega
    obtain ⟨c', hend, hcolumn, hread⟩ :=
      ih (fun d hd => hbreaks d (List.mem_cons_of_mem b hd)) hrest' hfuel' (more ++ [b])
    refine ⟨c', hend, hcolumn, ?_⟩
    rw [readGap, hrest]
    simp only [List.cons_append, hb.isBlank, hb.isBreak, hb.breakText, Bool.false_eq_true, if_false,
      if_true, Gap.addBreak, hread, List.append_assoc, List.nil_append]

/-- A gap that begins with a line break. -/
theorem readGap_lines {b : Char} {breaks blanks : List Char} (hb : IsLineBreak b)
    (hbreaks : ∀ b ∈ breaks, IsLineBreak b) (hblanks : ∀ b ∈ blanks, b = ' ')
    (hafter : EndsGap after) (hrest : c.rest = b :: (breaks ++ (blanks ++ after)))
    (hfuel : breaks.length + blanks.length < fuel) (seen : List Char) :
    ∃ c' : Cursor, c'.rest = after ∧ blanks.length ≤ c'.column ∧
      readGap limit fuel (.blanks seen) c = some (.broken [b] breaks, c') := by
  obtain ⟨fuel, rfl⟩ := Nat.exists_eq_add_one_of_ne_zero (Nat.ne_zero_of_lt hfuel)
  have hskip : c.skipBreak.rest = breaks ++ (blanks ++ after) := by rw [hb.skipBreak hrest]
  obtain ⟨c', hrest', hcolumn, hread⟩ := readGap_breaks limit hbreaks hblanks hafter
    hskip (Nat.le_of_lt_succ hfuel) [b] []
  refine ⟨c', hrest', hcolumn, ?_⟩
  rw [readGap, hrest]
  simp only [hb.isBlank, hb.isBreak, hb.breakText, Bool.false_eq_true, if_false, if_true,
    Gap.addBreak, hread, List.nil_append]

end

/-! ### Characters side by side -/

section

variable {isFirst isSecond : Char → Bool} {text more : List Char}

theorem hasPair_cons {c : Char} (h : hasPair isFirst isSecond (c :: text) = false) :
    hasPair isFirst isSecond text = false := by
  cases text with
  | nil => rfl
  | cons d text =>
    rw [hasPair, Bool.or_eq_false_iff] at h
    exact h.2

theorem hasPair_right (h : hasPair isFirst isSecond (text ++ more) = false) :
    hasPair isFirst isSecond more = false := by
  induction text with
  | nil => exact h
  | cons c text ih => exact ih (hasPair_cons h)

theorem hasPair_left (h : hasPair isFirst isSecond (text ++ more) = false) :
    hasPair isFirst isSecond text = false := by
  induction text with
  | nil => rfl
  | cons c text ih =>
    have htext := ih (hasPair_cons h)
    cases text with
    | nil => rfl
    | cons d text =>
      rw [List.cons_append, List.cons_append, hasPair, Bool.or_eq_false_iff] at h
      rw [hasPair, h.1, htext]
      rfl

end

theorem eq_space_of_isPrintable {c : Char} (h : isPrintable c) (hblank : isBlank c) : c = ' ' := by
  rw [isBlank, Bool.or_eq_true, beq_iff_eq, beq_iff_eq] at hblank
  rcases hblank with rfl | rfl
  · rfl
  · exact absurd h (by decide)

theorem isGap_of_isPrintable {c : Char} (h : isPrintable c = true) (hspace : c ≠ ' ')
    (hbreak : isBreak c = false) : isGap c = false := by
  rw [isGap, hbreak, Bool.or_false, Bool.eq_false_iff]
  exact fun hblank => hspace (eq_space_of_isPrintable h hblank)

/-- Where no space stands beside a line break, a gap has only spaces or only line breaks. -/
theorem spaces_or_breaks {gap : List Char} (hprintable : ∀ c ∈ gap, isPrintable c = true)
    (hgap : ∀ c ∈ gap, isGap c = true) (hbefore : hasSpaceBreak gap = false)
    (hafter : hasBreakSpace gap = false) :
    (∀ c ∈ gap, c = ' ') ∨ ∀ c ∈ gap, IsLineBreak c := by
  induction gap with
  | nil => exact .inl (by simp)
  | cons c gap ih =>
    have hrest := ih (fun d hd => hprintable d (List.mem_cons_of_mem c hd))
      (fun d hd => hgap d (List.mem_cons_of_mem c hd)) (hasPair_cons hbefore) (hasPair_cons hafter)
    have hc : c = ' ' ∨ IsLineBreak c := by
      have hprintable := hprintable c List.mem_cons_self
      have hgap := hgap c List.mem_cons_self
      rw [isGap, Bool.or_eq_true] at hgap
      exact hgap.imp (eq_space_of_isPrintable hprintable) (isLineBreak_of_isPrintable hprintable)
    cases gap with
    | nil => exact hc.imp (fun h => by simpa using h) (fun h => by simpa using h)
    | cons d gap =>
      rw [hasSpaceBreak, hasPair, Bool.or_eq_false_iff] at hbefore
      rw [hasBreakSpace, hasPair, Bool.or_eq_false_iff] at hafter
      rcases hc with rfl | hc <;> rcases hrest with hrest | hrest
      · exact .inl (List.forall_mem_cons.mpr ⟨rfl, hrest⟩)
      · have hd := (hrest d List.mem_cons_self).isBreak
        rw [hd] at hbefore
        exact absurd hbefore.1 (by decide)
      · obtain rfl : d = ' ' := hrest d List.mem_cons_self
        rw [hc.isBreak] at hafter
        exact absurd hafter.1 (by decide)
      · exact .inr (List.forall_mem_cons.mpr ⟨hc, hrest⟩)

end GoOutline.Yaml
