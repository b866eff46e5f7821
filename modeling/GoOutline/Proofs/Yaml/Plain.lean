import GoOutline.Proofs.Yaml.Gaps

/-!
# Plain scalars are read back

A text without quotes ends where its line does. Nothing inside it may end it before: no colon at the
end of a word, and no number sign at the start of one.

* `plainWord_append`: a word is read up to its end.
* `plainFrom_append`: the words of a line are read with the spaces between them.
* `readPlain_append`: a text that can be written without quotes.
-/

namespace GoOutline.Yaml

/-! ### Texts without quotes -/

theorem endsWord_append_newline (text : List Char) : endsWord (text ++ ['\n']) = endsWord text := by
  cases text <;> rfl

theorem endsWord_spaces {spaces : List Char} (h : ∀ c ∈ spaces, c = ' ') (hnonempty : spaces ≠ [])
    (rest : List Char) : endsWord (spaces ++ rest) := by
  obtain ⟨g, spaces, rfl⟩ := List.exists_cons_of_ne_nil hnonempty
  obtain rfl : g = ' ' := h g List.mem_cons_self
  rfl

theorem endsGap_append {text : List Char} (hnonempty : text ≠ []) (h : EndsGap text)
    (more : List Char) : EndsGap (text ++ more) := by
  obtain ⟨c, text, rfl⟩ := List.exists_cons_of_ne_nil hnonempty
  exact h

/-- What stands after a character has no indicator either. -/
theorem hasIndicator_of_append {isWordStart : Bool} {text more : List Char} {g : Char}
    (h : hasIndicator isWordStart (text ++ g :: more) = false) :
    hasIndicator (isGap g) more = false := by
  induction text generalizing isWordStart with
  | nil =>
    rw [List.nil_append, hasIndicator, Bool.or_eq_false_iff] at h
    exact h.2
  | cons c text ih =>
    rw [List.cons_append, hasIndicator, Bool.or_eq_false_iff] at h
    exact ih h.2

theorem hasIndicator_of_gap {isWordStart : Bool} {word gap rest : List Char} (hnonempty : gap ≠ [])
    (hgap : ∀ c ∈ gap, isGap c = true)
    (h : hasIndicator isWordStart (word ++ (gap ++ rest)) = false) :
    hasIndicator true rest = false := by
  have hlast := hgap _ (List.getLast_mem hnonempty)
  rw [← List.dropLast_concat_getLast hnonempty, List.append_assoc, ← List.append_assoc] at h
  rw [← hlast]
  exact hasIndicator_of_append h

/-- What a text without quotes must be, from the start of one of its words on. -/
structure IsPlainText (text : List Char) : Prop where
  nonempty : text ≠ []
  spaces : ∀ c ∈ text, isGap c = true → c = ' '
  head : text.head? ≠ some ' '
  last : text.getLast? ≠ some ' '
  indicator : hasIndicator true text = false

theorem isPlainText_of_allowsPlain {text : List Char} (h : allowsPlain text)
    (hnonempty : text ≠ []) : IsPlainText text := by
  simp only [allowsPlain, Bool.and_eq_true, List.all_eq_true, Bool.not_eq_true', bne_iff_ne,
    List.any_eq_false] at h
  obtain ⟨⟨⟨⟨⟨hprintable, hbreak⟩, hhead⟩, hlast⟩, -⟩, hindicator⟩ := h
  refine ⟨hnonempty, fun c hc hgap => ?_, hhead, hlast, hindicator⟩
  rw [isGap, Bool.or_eq_true] at hgap
  exact hgap.elim (eq_space_of_isPrintable (hprintable c hc)) fun h => absurd h (hbreak c hc)

namespace IsPlainText

variable {word gap rest : List Char}

theorem word_ne_nil (h : IsPlainText (word ++ (gap ++ rest))) (hnonempty : gap ≠ [])
    (hgap : ∀ c ∈ gap, c = ' ') : word ≠ [] := by
  rintro rfl
  obtain ⟨g, gap, rfl⟩ := List.exists_cons_of_ne_nil hnonempty
  exact h.head (congrArg some (hgap g List.mem_cons_self))

/-- A text without quotes is not taken for a comment. -/
theorem mark {text : List Char} (h : IsPlainText text) (after : List Char) :
    (text ++ after).head? ≠ some '#' := by
  obtain ⟨c, text, rfl⟩ := List.exists_cons_of_ne_nil h.nonempty
  rintro heq
  obtain rfl : c = '#' := Option.some.inj heq
  exact absurd h.indicator (by simp [hasIndicator])

/-- What follows a gap is again such a text. -/
theorem of_append (h : IsPlainText (word ++ (gap ++ rest))) (hnonempty : gap ≠ [])
    (hgap : ∀ c ∈ gap, c = ' ') (hhead : EndsGap rest) : IsPlainText rest := by
  have hrest : rest ≠ [] := by
    rintro rfl
    refine h.last ?_
    rw [List.append_nil, List.getLast?_append, List.getLast?_eq_some_getLast hnonempty,
      hgap _ (List.getLast_mem hnonempty)]
    rfl
  refine ⟨hrest, fun c hc => h.spaces c (by simp [hc]), fun heq => ?_, fun heq => ?_, ?_⟩
  · rw [EndsGap, heq] at hhead
    exact absurd hhead (by decide)
  · refine h.last ?_
    rw [List.getLast?_append, List.getLast?_append, heq]
    rfl
  · exact hasIndicator_of_gap hnonempty (fun c hc => hgap c hc ▸ rfl) h.indicator

end IsPlainText

/-! ### Words -/

theorem plainWord_append {isWordStart : Bool} {word after : List Char}
    (hword : ∀ c ∈ word, isGap c = false) (hafter : endsWord after)
    (h : hasIndicator isWordStart (word ++ after) = false) :
    plainWord false (word ++ (after ++ ['\n'])) = some word := by
  induction word generalizing isWordStart with
  | nil =>
    rw [← endsWord_append_newline] at hafter
    cases htext : after ++ ['\n'] with
    | nil => rfl
    | cons g more =>
      rw [htext] at hafter
      exact if_pos hafter
  | cons c word ih =>
    obtain ⟨hc, hword⟩ := List.forall_mem_cons.mp hword
    rw [List.cons_append, hasIndicator, Bool.or_eq_false_iff, Bool.or_eq_false_iff] at h
    have hcolon : (c == ':' && endsWord (word ++ (after ++ ['\n']))) = false := by
      rw [← List.append_assoc, endsWord_append_newline]
      exact h.1.1
    rw [List.cons_append, plainWord, hc, hcolon, ih hword h.2]
    rfl

section

variable {fuel : Nat} {seen word : List Char} {gap : Gap} {c : Cursor}

theorem plainFrom_eq {after : List Char} (hword : plainWord false c.rest = some word)
    (hnonempty : word ≠ []) (hcolumn : 0 < c.column) (hmark : c.rest.head? ≠ some '#')
    (hrest : c.rest = word ++ after) (hafter : endsWord after) (hline : after ≠ []) :
    plainFrom false 1 (fuel + 1) seen gap c
      = (readGap 1 after.length (.blanks []) (c.skip word.length)).bind fun found =>
          if found.2.column < 1 then some ⟨seen ++ gap.text ++ word, found.1.isBroken, found.2⟩
          else plainFrom false 1 fuel (seen ++ gap.text ++ word) found.1 found.2 := by
  have hskip : (c.skip word.length).rest = after := Cursor.skip_append hrest
  have hempty : word.isEmpty = false := by simpa using hnonempty
  have hhead : after.head?.any isGap = true := by
    obtain ⟨g, after, rfl⟩ := List.exists_cons_of_ne_nil hline
    exact hafter
  rw [plainFrom, Cursor.isAtDocumentMark_of_column hcolumn, Cursor.isAt, beq_false_of_ne hmark]
  simp only [hword, Option.bind_eq_bind, Option.bind_some, hempty, hskip, hhead, Bool.or_false,
    Bool.false_eq_true, if_false, if_true, Bool.not_false, Bool.true_and, decide_eq_true_eq]

/-- The last word, and the end of the line. -/
theorem plainFrom_last (hword : ∀ c ∈ word, isGap c = false) (hplain : IsPlainText word)
    (hcolumn : 0 < c.column) (hrest : c.rest = word ++ ['\n']) :
    ∃ c' : Cursor, c'.rest = [] ∧
      plainFrom false 1 (fuel + 1) seen gap c = some ⟨seen ++ gap.text ++ word, true, c'⟩ := by
  have hread : plainWord false (word ++ ['\n']) = some word :=
    plainWord_append hword (show endsWord [] from rfl) (by simpa using hplain.indicator)
  have hskip : (c.skip word.length).rest = ['\n'] := Cursor.skip_append hrest
  have hgap : readGap 1 ['\n'].length (.blanks []) (c.skip word.length)
      = some (.broken ['\n'] [], (c.skip word.length).skipBreak) := by
    rw [List.length_singleton, readGap, hskip]
    rfl
  have hbreak := (show IsLineBreak '\n' from .inl rfl).skipBreak hskip
  refine ⟨(c.skip word.length).skipBreak, by rw [hbreak], ?_⟩
  rw [plainFrom_eq (hrest ▸ hread) hplain.nonempty hcolumn (hrest ▸ hplain.mark _) hrest rfl
    (List.cons_ne_nil _ _), hgap, hbreak]
  rfl

/-- A word and the spaces after it. -/
theorem plainFrom_word {spaces rest : List Char} (hword : ∀ c ∈ word, isGap c = false)
    (hspaces : ∀ c ∈ spaces, c = ' ') (hnonempty : spaces ≠ [])
    (hplain : IsPlainText (word ++ (spaces ++ rest))) (hends : EndsGap (rest ++ ['\n']))
    (hcolumn : 0 < c.column) (hrest : c.rest = word ++ (spaces ++ rest) ++ ['\n']) :
    ∃ c' : Cursor, c'.rest = rest ++ ['\n'] ∧ 0 < c'.column ∧
      plainFrom false 1 (fuel + 1) seen gap c
        = plainFrom false 1 fuel (seen ++ gap.text ++ word) (.blanks spaces) c' := by
  have hmark : c.rest.head? ≠ some '#' := hrest ▸ hplain.mark _
  have hread : plainWord false c.rest = some word := by
    rw [hrest, List.append_assoc]
    exact plainWord_append hword (endsWord_spaces hspaces hnonempty _) hplain.indicator
  rw [List.append_assoc, List.append_assoc] at hrest
  have hskip : (c.skip word.length).rest = spaces ++ (rest ++ ['\n']) := Cursor.skip_append hrest
  have hgap : readGap 1 (spaces ++ (rest ++ ['\n'])).length (.blanks []) (c.skip word.length)
      = some (.blanks spaces, (c.skip word.length).skip spaces.length) :=
    readGap_blanks 1 (fun c hc => hspaces c hc ▸ rfl) hends hskip (by simp) []
  have hcolumn' : 0 < ((c.skip word.length).skip spaces.length).column :=
    Nat.add_pos_left (Nat.add_pos_left hcolumn _) _
  refine ⟨_, ?_, hcolumn', ?_⟩
  · rw [Cursor.skip_rest, hskip, List.drop_left]
  · rw [plainFrom_eq hread (hplain.word_ne_nil hnonempty hspaces) hcolumn hmark hrest
      (endsWord_spaces hspaces hnonempty _) (by simp), hgap, Option.bind_some,
      if_neg (Nat.not_lt.mpr hcolumn')]

end

/-- A text without quotes is read on word by word. -/
theorem plainFrom_append (text : List Char) :
    ∀ {fuel : Nat} {seen : List Char} {gap : Gap} {c : Cursor},
      IsPlainText text → c.rest = text ++ ['\n'] → 0 < c.column → text.length < fuel →
        ∃ c' : Cursor, c'.rest = [] ∧
          plainFrom false 1 fuel seen gap c = some ⟨seen ++ gap.text ++ text, true, c'⟩ := by
  induction text using runs_induction isGap with
  | last word hword =>
    intro fuel seen gap c hplain hrest hcolumn hfuel
    obtain ⟨fuel, rfl⟩ := Nat.exists_eq_add_one_of_ne_zero (Nat.ne_zero_of_lt hfuel)
    exact plainFrom_last hword hplain hcolumn hrest
  | step word spaces rest hword hgap hnonempty hhead ih =>
    intro fuel seen gap c hplain hrest hcolumn hfuel
    obtain ⟨fuel, rfl⟩ := Nat.exists_eq_add_one_of_ne_zero (Nat.ne_zero_of_lt hfuel)
    have hspaces : ∀ c ∈ spaces, c = ' ' := fun c hc => hplain.spaces c (by simp [hc]) (hgap c hc)
    have hplain' := hplain.of_append hnonempty hspaces hhead
    obtain ⟨c', hrest', hcolumn', hfrom⟩ := plainFrom_word hword hspaces hnonempty hplain
      (endsGap_append hplain'.nonempty hhead _) hcolumn hrest
    have hlength : rest.length < fuel := by
      have hgap := List.length_pos_iff.mpr hnonempty
      simp only [List.length_append] at hfuel
      omega
    obtain ⟨c'', hend, hread⟩ := ih hplain' hrest' hcolumn' hlength
    refine ⟨c'', hend, ?_⟩
    rw [hfrom, hread, Gap.text, List.append_assoc, List.append_assoc, List.append_assoc]

/-- **A text without quotes is read back.** -/
theorem readPlain_append {text : List Char} {c : Cursor} (hplain : IsPlainText text)
    (hcolumn : 0 < c.column) (hrest : c.rest = text ++ ['\n']) :
    ∃ c' : Cursor, c'.rest = [] ∧ readPlain false 1 c = some ⟨text, true, c'⟩ :=
  plainFrom_append text hplain hrest hcolumn (by rw [hrest, List.length_append]; omega)

end GoOutline.Yaml
