import GoOutline.Proofs.Yaml.Gaps

/-!
# Scalars in quotes are read back

* `readSingle_singleChars`: a text in single quotes, in which quotes are doubled.
* `standsFor_doubleChars`: how a character is written between double quotes.
* `readDouble_doubleChars`: a text in double quotes.
-/

namespace GoOutline.Yaml

/-! ### Single quotes -/

/-- A character between single quotes. -/
def quoteChars (c : Char) : List Char := if c == '\'' then ['\'', '\''] else [c]

theorem singleChars_cons_break {b : Char} (h : isBreak b = true) (isLineStart : Bool)
    (text : List Char) : singleChars isLineStart (b :: text) = b :: singleChars true text :=
  if_pos h

theorem singleChars_cons_other {c : Char} (h : isBreak c = false) (isLineStart : Bool)
    (text : List Char) : singleChars isLineStart (c :: text)
      = (if isLineStart then lineIndent else []) ++ quoteChars c ++ singleChars false text :=
  if_neg (ne_true_of_eq_false h)

theorem singleChars_word {word : List Char} (h : ∀ c ∈ word, isBreak c = false) (text : List Char) :
    singleChars false (word ++ text) = word.flatMap quoteChars ++ singleChars false text := by
  induction word with
  | nil => rfl
  | cons c word ih =>
    obtain ⟨hc, hword⟩ := List.forall_mem_cons.mp h
    rw [List.cons_append, singleChars_cons_other hc, ih hword, List.flatMap_cons,
      List.append_assoc, List.append_assoc]
    rfl

/-- Line breaks are written as they are, and the line after them is indented. -/
theorem singleChars_lines {breaks text : List Char} (h : ∀ b ∈ breaks, isBreak b = true)
    (htext : text.head?.all (!isBreak ·)) :
    singleChars true (breaks ++ text) = breaks ++ (lineIndent ++ singleChars false text) := by
  induction breaks with
  | nil =>
    cases text with
    | nil => rfl
    | cons c text =>
      have hc : isBreak c = false := by simpa using htext
      rw [List.nil_append, singleChars_cons_other hc, singleChars_cons_other hc,
        List.append_assoc]
      rfl
  | cons b breaks ih =>
    obtain ⟨hb, hbreaks⟩ := List.forall_mem_cons.mp h
    rw [List.cons_append, singleChars_cons_break hb, ih hbreaks]
    rfl

theorem singleChars_breaks {breaks text : List Char} (h : ∀ b ∈ breaks, isBreak b = true)
    (hbreaks : breaks ≠ []) (htext : text.head?.all (!isBreak ·)) :
    singleChars false (breaks ++ text) = breaks ++ (lineIndent ++ singleChars false text) := by
  obtain ⟨b, bs, rfl⟩ := List.exists_cons_of_ne_nil hbreaks
  have hb := h b List.mem_cons_self
  rw [← singleChars_lines h htext, List.cons_append, singleChars_cons_break hb,
    singleChars_cons_break hb]

/-- A word is read back up to where no word begins. -/
theorem singleWord_flatMap {word after : List Char} (h : ∀ c ∈ word, isGap c = false)
    (hafter : singleWord after = ([], 0)) :
    singleWord (word.flatMap quoteChars ++ after) = (word, (word.flatMap quoteChars).length) := by
  induction word with
  | nil => exact hafter
  | cons c word ih =>
    have hword := ih fun d hd => h d (List.mem_cons_of_mem c hd)
    have hgap := h c List.mem_cons_self
    by_cases hquote : c = '\''
    · subst hquote
      have hchars : ('\'' :: word).flatMap quoteChars = '\'' :: '\'' :: word.flatMap quoteChars :=
        rfl
      rw [hchars, List.cons_append, List.cons_append, singleWord, hword]
      rfl
    · have hchars : (c :: word).flatMap quoteChars = c :: word.flatMap quoteChars := by
        rw [List.flatMap_cons, quoteChars, if_neg (by simpa using hquote)]
        rfl
      rw [hchars, List.cons_append, singleWord]
      · rw [hword, if_neg (by simp [hquote, hgap])]
        rfl
      · exact fun _ h _ => hquote h

theorem allowsSingle_iff (text : List Char) :
    allowsSingle text ↔ (∀ c ∈ text, isPrintable c = true) ∧ hasSpaceBreak text = false ∧
      hasBreakSpace text = false := by
  rw [allowsSingle, Bool.and_eq_true, Bool.and_eq_true, List.all_eq_true, Bool.not_eq_true',
    Bool.not_eq_true', and_assoc]

theorem singleWord_of_endsWord {after : List Char} (h : endsWord after) :
    singleWord after = ([], 0) := by
  cases after with
  | nil => rfl
  | cons c after =>
    have hc : isGap c = true := h
    rw [singleWord]
    · simp [hc]
    · rintro _ rfl
      exact absurd hc (by decide)

section

variable {fuel : Nat} {seen word : List Char} {c : Cursor}

/-- The last word, and the quote after it. -/
theorem singleFrom_last (hword : ∀ c ∈ word, isGap c = false) (hcolumn : 0 < c.column)
    (hrest : c.rest = word.flatMap quoteChars ++ ['\'', '\n']) :
    ∃ c' : Cursor, c'.rest = ['\n'] ∧ singleFrom (fuel + 1) seen c = some (seen ++ word, c') := by
  have hread := singleWord_flatMap hword (show singleWord ['\'', '\n'] = ([], 0) from rfl)
  have hskip : (c.skip (word.flatMap quoteChars).length).rest = ['\'', '\n'] :=
    Cursor.skip_append hrest
  refine ⟨(c.skip (word.flatMap quoteChars).length).skip 1, ?_, ?_⟩
  · rw [Cursor.skip_rest, hskip]
    rfl
  rw [singleFrom, Cursor.isAtDocumentMark_of_column hcolumn, hrest, hread]
  simp only [Cursor.isAt, hskip]
  rfl

/-- A word and the gap after it. -/
theorem singleFrom_word {after : List Char} {gap : Gap} {c' : Cursor}
    (hword : ∀ c ∈ word, isGap c = false) (hcolumn : 0 < c.column)
    (hrest : c.rest = word.flatMap quoteChars ++ after) (hafter : endsWord after)
    (hnonempty : after ≠ [])
    (hgap : readGap 0 after.length (.blanks []) (c.skip (word.flatMap quoteChars).length)
      = some (gap, c')) :
    singleFrom (fuel + 1) seen c = singleFrom fuel (seen ++ word ++ gap.text) c' := by
  have hread := singleWord_flatMap hword (singleWord_of_endsWord hafter)
  have hskip : (c.skip (word.flatMap quoteChars).length).rest = after := Cursor.skip_append hrest
  obtain ⟨b, more, rfl⟩ := List.exists_cons_of_ne_nil hnonempty
  have hquote : (b :: more).head? ≠ some '\'' := by
    rintro ⟨⟩
    exact absurd (show isGap '\'' = true from hafter) (by decide)
  rw [singleFrom, Cursor.isAtDocumentMark_of_column hcolumn, hrest, hread]
  simp only [Cursor.isAt, hskip, hgap, beq_false_of_ne hquote]
  rfl

end

theorem isBreak_of_not_isGap {c : Char} (h : isGap c = false) : isBreak c = false := by
  rw [isGap, Bool.or_eq_false_iff] at h
  exact h.2

/-- Spaces are written as they are in either kind of quotes. -/
theorem flatMap_spaces {f : Char → List Char} (hf : f ' ' = [' ']) {gap : List Char}
    (h : ∀ c ∈ gap, c = ' ') : gap.flatMap f = gap := by
  induction gap with
  | nil => rfl
  | cons c gap ih =>
    obtain ⟨rfl, hgap⟩ := List.forall_mem_cons.mp h
    rw [List.flatMap_cons, hf, ih hgap]
    rfl

/-- What follows a gap in single quotes is a word or the last quote. -/
theorem endsGap_singleChars {text : List Char} (h : text.head?.all (!isGap ·)) :
    EndsGap (singleChars false text ++ ['\'', '\n']) := by
  cases text with
  | nil => rfl
  | cons c text =>
    have hgap : isGap c = false := by simpa using h
    rw [singleChars_cons_other (isBreak_of_not_isGap hgap)]
    by_cases hquote : c = '\''
    · rw [hquote]
      rfl
    · have hchars : quoteChars c = [c] := if_neg (by simpa using hquote)
      rw [hchars]
      show (!isGap c) = true
      rw [hgap]
      rfl

theorem endsWord_singleChars {gap text more : List Char} (hnonempty : gap ≠ [])
    (h : ∀ c ∈ gap, isGap c = true) : endsWord (singleChars false (gap ++ text) ++ more) := by
  obtain ⟨g, gap, rfl⟩ := List.exists_cons_of_ne_nil hnonempty
  have hg : isGap g = true := h g List.mem_cons_self
  have hquote : ¬ (g == '\'') = true := by
    intro hquote
    rw [beq_iff_eq.mp hquote] at hg
    exact absurd hg (by decide)
  cases hbreak : isBreak g with
  | false =>
    rw [List.cons_append, singleChars_cons_other hbreak, quoteChars, if_neg hquote]
    exact hg
  | true =>
    rw [List.cons_append, singleChars_cons_break hbreak]
    exact hg

/-- A gap in single quotes stands for itself, on one line or over several. -/
theorem readGap_singleChars {gap text : List Char} {c : Cursor} (hnonempty : gap ≠ [])
    (hkind : (∀ c ∈ gap, c = ' ') ∨ ∀ c ∈ gap, IsLineBreak c) (hbreak : '\n' ∉ gap)
    (hhead : text.head?.all (!isGap ·))
    (hrest : c.rest = singleChars false (gap ++ text) ++ ['\'', '\n']) (hcolumn : 0 < c.column) :
    ∃ (g : Gap) (c' : Cursor), g.text = gap ∧ c'.rest = singleChars false text ++ ['\'', '\n'] ∧
      0 < c'.column ∧ readGap 0 c.rest.length (.blanks []) c = some (g, c') := by
  have hends := endsGap_singleChars hhead
  rcases hkind with hspaces | hbreaks
  · have hchars : singleChars false (gap ++ text) = gap ++ singleChars false text := by
      rw [singleChars_word (fun c hc => hspaces c hc ▸ rfl), flatMap_spaces rfl hspaces]
    rw [hchars, List.append_assoc] at hrest
    refine ⟨.blanks gap, c.skip gap.length, rfl, ?_, Nat.add_pos_left hcolumn _, ?_⟩
    · exact Cursor.skip_append hrest
    · exact readGap_blanks 0 (fun c hc => hspaces c hc ▸ rfl) hends hrest (by simp [hrest]) []
  · have hhead' : text.head?.all (!isBreak ·) := by
      cases text with
      | nil => rfl
      | cons d text =>
        have hd : isGap d = false := by simpa using hhead
        simpa using isBreak_of_not_isGap hd
    rw [singleChars_breaks (fun c hc => (hbreaks c hc).isBreak) hnonempty hhead'] at hrest
    obtain ⟨b, breaks, rfl⟩ := List.exists_cons_of_ne_nil hnonempty
    obtain ⟨hb, hbreaks⟩ := List.forall_mem_cons.mp hbreaks
    have hrest' : c.rest
        = b :: (breaks ++ (lineIndent ++ (singleChars false text ++ ['\'', '\n']))) := by
      simpa [lineIndent] using hrest
    have hfuel : breaks.length + lineIndent.length < c.rest.length := by
      rw [hrest', List.length_cons, List.length_append, List.length_append]
      omega
    have hindent : ∀ c ∈ lineIndent, c = ' ' := by simp [lineIndent]
    obtain ⟨c', hafter, hcolumn', hread⟩ :=
      readGap_lines 0 hb hbreaks hindent hends hrest' hfuel []
    refine ⟨_, c', ?_, hafter, Nat.lt_of_lt_of_le (by decide) hcolumn', hread⟩
    have hline : b ≠ '\n' := fun h => hbreak (h ▸ List.mem_cons_self)
    rw [Gap.text, if_neg (by simpa using hline)]
    rfl

/-- A text without spaces beside line breaks is read on word by word. -/
theorem singleFrom_singleChars (text : List Char) : ∀ {fuel : Nat} (seen : List Char) {c : Cursor},
    allowsSingle text → '\n' ∉ text → c.rest = singleChars false text ++ ['\'', '\n'] →
      0 < c.column → text.length < fuel →
        ∃ c' : Cursor, c'.rest = ['\n'] ∧ singleFrom fuel seen c = some (seen ++ text, c') := by
  induction text using runs_induction isGap with
  | last word hword =>
    intro fuel seen c _ _ hrest hcolumn hfuel
    obtain ⟨fuel, rfl⟩ := Nat.exists_eq_add_one_of_ne_zero (Nat.ne_zero_of_lt hfuel)
    have hchars := singleChars_word (fun c hc => isBreak_of_not_isGap (hword c hc)) []
    rw [List.append_nil] at hchars
    rw [hchars] at hrest
    exact singleFrom_last hword hcolumn (by simpa [singleChars] using hrest)
  | step word gap rest hword hgap hnonempty hhead ih =>
    intro fuel seen c hallows hbreak hrest hcolumn hfuel
    obtain ⟨fuel, rfl⟩ := Nat.exists_eq_add_one_of_ne_zero (Nat.ne_zero_of_lt hfuel)
    obtain ⟨hprintable, hbefore, hafter⟩ := (allowsSingle_iff _).mp hallows
    rw [singleChars_word fun c hc => isBreak_of_not_isGap (hword c hc), List.append_assoc] at hrest
    have hskip : (c.skip (word.flatMap quoteChars).length).rest
        = singleChars false (gap ++ rest) ++ ['\'', '\n'] := Cursor.skip_append hrest
    have hkind := spaces_or_breaks (fun c hc => hprintable c (by simp [hc])) hgap
      (hasPair_left (hasPair_right hbefore)) (hasPair_left (hasPair_right hafter))
    obtain ⟨g, c', htext, hrest', hcolumn', hread⟩ := readGap_singleChars hnonempty hkind
      (fun h => hbreak (by simp [h])) hhead hskip (Nat.add_pos_left hcolumn _)
    rw [hskip] at hread
    have hallows' : allowsSingle rest := (allowsSingle_iff rest).mpr
      ⟨fun c hc => hprintable c (by simp [hc]), hasPair_right (hasPair_right hbefore),
        hasPair_right (hasPair_right hafter)⟩
    have hlength : rest.length < fuel := by
      have hgap := List.length_pos_iff.mpr hnonempty
      simp only [List.length_append] at hfuel
      omega
    obtain ⟨c'', hend, hfrom⟩ := ih (seen ++ word ++ g.text) hallows'
      (fun h => hbreak (by simp [h])) hrest' hcolumn' hlength
    refine ⟨c'', hend, ?_⟩
    rw [singleFrom_word hword hcolumn hrest (endsWord_singleChars hnonempty hgap) (by simp) hread,
      hfrom, htext, List.append_assoc, List.append_assoc]

theorem length_le_singleChars (isLineStart : Bool) (text : List Char) :
    text.length ≤ (singleChars isLineStart text).length := by
  induction text generalizing isLineStart with
  | nil => exact Nat.zero_le _
  | cons c text ih =>
    cases hc : isBreak c with
    | false =>
      have hrest := ih false
      have hquote : 1 ≤ (quoteChars c).length := by
        rw [quoteChars]
        split <;> simp
      rw [singleChars_cons_other hc, List.length_append, List.length_append, List.length_cons]
      omega
    | true =>
      rw [singleChars_cons_break hc]
      exact Nat.succ_le_succ (ih true)

/-- **A text in single quotes is read back.** -/
theorem readSingle_singleChars {text : List Char} {c : Cursor} (hallows : allowsSingle text)
    (hbreak : '\n' ∉ text) (hrest : c.rest = '\'' :: (singleChars false text ++ ['\'', '\n'])) :
    ∃ c' : Cursor, c'.rest = ['\n'] ∧ readSingle c = some (text, c') := by
  have hlength := length_le_singleChars false text
  refine singleFrom_singleChars text [] hallows hbreak ?_ (Nat.succ_pos c.column) ?_
  · rw [Cursor.skip_rest, hrest]
    rfl
  · rw [hrest, List.length_cons, List.length_append]
    omega

/-! ### Escapes -/

theorem hexValue?_upperHexDigit : ∀ n < 16, hexValue? (upperHexDigit n) = some n := by decide

theorem length_upperHex (count n : Nat) : (upperHex count n).length = count := by
  induction count generalizing n with
  | zero => rfl
  | succ count ih => rw [upperHex, List.length_append, ih]; rfl

theorem isAllowed_upperHexDigit : ∀ n < 16, isAllowed (upperHexDigit n) = true := by decide

theorem isAllowed_upperHex (count n : Nat) : ∀ d ∈ upperHex count n, isAllowed d = true := by
  induction count generalizing n with
  | zero => exact fun d hd => absurd hd List.not_mem_nil
  | succ count ih =>
    have hdigit := isAllowed_upperHexDigit (n % 16) (Nat.mod_lt n (by decide))
    exact List.forall_mem_append.mpr ⟨ih (n / 16), by simpa using hdigit⟩

/-- A number that has enough digits is read back. -/
theorem hexNumber?_upperHex (count n : Nat) (h : n < Nat.pow 16 count) :
    hexNumber? (upperHex count n) = some n := by
  induction count generalizing n with
  | zero =>
    obtain rfl : n = 0 := Nat.lt_one_iff.mp h
    rfl
  | succ count ih =>
    have hdiv : n / 16 < Nat.pow 16 count := Nat.div_lt_of_lt_mul (Nat.mul_comm _ 16 ▸ h)
    have hlow := hexValue?_upperHexDigit (n % 16) (Nat.mod_lt n (by decide))
    have hhigh := ih (n / 16) hdiv
    rw [hexNumber?] at hhigh
    rw [upperHex, hexNumber?, List.foldlM_append, hhigh]
    show ((hexValue? (upperHexDigit (n % 16))).map (16 * (n / 16) + ·)).bind some = _
    rw [hlow]
    show some (16 * (n / 16) + n % 16) = some n
    rw [Nat.div_add_mod]

theorem numbered?_upperHex {count : Nat} {c : Char} (h : c.toNat < Nat.pow 16 count)
    (text : List Char) :
    numbered? count (upperHex count c.toNat ++ text) = some (c, count + 1) := by
  have htake : (upperHex count c.toNat ++ text).take count = upperHex count c.toNat :=
    List.take_left' (length_upperHex count c.toNat)
  rw [numbered?, if_neg (by rw [List.length_append, length_upperHex]; omega), htake,
    hexNumber?_upperHex count c.toNat h]
  show (if c.toNat.isValidChar then some (Char.ofNat c.toNat, count + 1) else none) = _
  rw [if_pos (show c.toNat.isValidChar from c.valid), Char.ofNat_toNat]

/-- What is written after the backslash for a character. -/
structure IsEscape (c : Char) (escape : List Char) : Prop where
  head : escape.head?.any (!isBreak ·)
  allowed : ∀ d ∈ escape, isAllowed d = true
  read : ∀ text, escape? (escape ++ text) = some (c, escape.length)

theorem isEscape_numbered {c mark : Char} {count : Nat}
    (hmark : isBreak mark = false ∧ isAllowed mark = true)
    (h : ∀ text, escape? (mark :: text) = numbered? count text) (hc : c.toNat < Nat.pow 16 count) :
    IsEscape c (mark :: upperHex count c.toNat) := by
  refine ⟨by simp [hmark.1], List.forall_mem_cons.mpr ⟨hmark.2, isAllowed_upperHex count _⟩,
    fun text => ?_⟩
  rw [List.cons_append, h, numbered?_upperHex hc, List.length_cons, length_upperHex]

/-- How a character can stand between double quotes: as itself, or after a backslash. -/
def StandsFor (c : Char) (chars : List Char) : Prop :=
  (chars = [c] ∧ c ≠ '"' ∧ c ≠ '\\' ∧ isPrintable c = true ∧ isBreak c = false) ∨
    ∃ escape, chars = '\\' :: escape ∧ IsEscape c escape

namespace StandsFor

variable {c d mark : Char} {chars others : List Char}

theorem ite {p : Prop} [Decidable p] (h : p → StandsFor c chars) (h' : ¬ p → StandsFor c others) :
    StandsFor c (if p then chars else others) := by
  by_cases hp : p
  · rw [if_pos hp]
    exact h hp
  · rw [if_neg hp]
    exact h' hp

/-- A character with a letter of its own. -/
theorem letter (hmark : isBreak mark = false ∧ isAllowed mark = true)
    (hread : ∀ text, escape? (mark :: text) = some (d, 1)) (h : c ≠ d → StandsFor c others) :
    StandsFor c (if c == d then ['\\', mark] else others) := by
  refine ite (fun hd => ?_) fun hd => h (by simpa using hd)
  obtain rfl : c = d := beq_iff_eq.mp hd
  exact .inr ⟨[mark], rfl, by simp [hmark.1], by simpa using hmark.2, hread⟩

end StandsFor

theorem standsFor_doubleChars (c : Char) : StandsFor c (doubleChars c) := by
  have hc : c.toNat < 16 ^ 8 := c.val.toNat_lt
  unfold doubleChars
  refine .letter (by decide) (fun _ => rfl) fun hquote => ?_
  refine .letter (by decide) (fun _ => rfl) fun hslash => ?_
  refine .ite (fun hplain => ?_) fun _ => ?_
  · rw [Bool.and_eq_true, Bool.not_eq_true'] at hplain
    exact .inl ⟨rfl, hquote, hslash, hplain⟩
  -- One step for each character that has a letter.
  iterate 12 refine .letter (by decide) (fun _ => rfl) fun _ => ?_
  refine .ite (fun hsmall => ?_) fun _ => .ite (fun hsmall => ?_) fun _ => ?_
  · exact .inr ⟨_, rfl, isEscape_numbered (by decide) (fun _ => rfl) (Nat.lt_succ_of_le hsmall)⟩
  · exact .inr ⟨_, rfl, isEscape_numbered (by decide) (fun _ => rfl) (Nat.lt_succ_of_le hsmall)⟩
  · exact .inr ⟨_, rfl, isEscape_numbered (by decide) (fun _ => rfl) hc⟩

/-- A character of a word is read back. -/
theorem doubleWord_doubleChars {c : Char} {fuel count : Nat} {word text : List Char}
    (hc : c ≠ ' ') (h : doubleWord fuel text = some (word, count, false)) :
    doubleWord (fuel + 1) (doubleChars c ++ text)
      = some (c :: word, count + (doubleChars c).length, false) := by
  rcases standsFor_doubleChars c with ⟨hchars, hquote, hslash, hprintable, hbreak⟩ |
    ⟨escape, hchars, hhead, -, hread⟩
  · have hgap := isGap_of_isPrintable hprintable hc hbreak
    rw [hchars, List.singleton_append, doubleWord, if_neg (by simp [hquote, hgap]),
      if_neg (by simpa using hslash), h]
    rfl
  · have hbreak : (escape ++ text).head?.any isBreak = false := by
      cases escape with
      | nil => exact absurd hhead (by decide)
      | cons d escape => simpa using hhead
    rw [hchars, List.cons_append, doubleWord, if_neg (by decide), if_pos (by decide), hbreak,
      if_neg (by decide), hread]
    simp only [Option.bind_eq_bind, Option.bind_some, List.drop_left, h, List.length_cons]
    rfl

theorem length_le_flatMap_doubleChars (text : List Char) :
    text.length ≤ (text.flatMap doubleChars).length := by
  induction text with
  | nil => exact Nat.le_refl 0
  | cons c text ih =>
    have hpos : 0 < (doubleChars c).length := by
      rcases standsFor_doubleChars c with ⟨hchars, -⟩ | ⟨escape, hchars, -⟩ <;> simp [hchars]
    rw [List.flatMap_cons, List.length_append, List.length_cons]
    omega

theorem doubleWord_eq_nil {after : List Char} (h : after.head?.any fun c => c == '"' || isGap c)
    (fuel : Nat) : doubleWord fuel after = some ([], 0, false) := by
  cases fuel with
  | zero => rfl
  | succ fuel =>
    cases after with
    | nil => rfl
    | cons c after => rw [doubleWord, if_pos (by simpa using h)]

/-- A word is read back up to where no word begins. -/
theorem doubleWord_flatMap {word after : List Char} {fuel : Nat} (hword : ∀ c ∈ word, c ≠ ' ')
    (hafter : after.head?.any fun c => c == '"' || isGap c) (hfuel : word.length ≤ fuel) :
    doubleWord fuel (word.flatMap doubleChars ++ after)
      = some (word, (word.flatMap doubleChars).length, false) := by
  induction word generalizing fuel with
  | nil => exact doubleWord_eq_nil hafter fuel
  | cons c word ih =>
    obtain ⟨fuel, rfl⟩ := Nat.exists_eq_add_one_of_ne_zero (Nat.ne_zero_of_lt hfuel)
    obtain ⟨hc, hword⟩ := List.forall_mem_cons.mp hword
    have hread := doubleWord_doubleChars hc (ih hword (Nat.le_of_succ_le_succ hfuel))
    rw [List.flatMap_cons, List.append_assoc, hread, List.length_append, Nat.add_comm]

theorem doubleWord_rest {word after : List Char} {c : Cursor} (hword : ∀ c ∈ word, c ≠ ' ')
    (hafter : after.head?.any fun c => c == '"' || isGap c)
    (hrest : c.rest = word.flatMap doubleChars ++ after) :
    doubleWord c.rest.length c.rest = some (word, (word.flatMap doubleChars).length, false) ∧
      (c.skip (word.flatMap doubleChars).length).rest = after := by
  have hlength := length_le_flatMap_doubleChars word
  refine ⟨?_, Cursor.skip_append hrest⟩
  rw [hrest]
  refine doubleWord_flatMap hword hafter ?_
  rw [List.length_append]
  omega

/-- What follows a gap in double quotes is a word or the last quote. -/
theorem endsGap_flatMap_doubleChars {text : List Char} (h : text.head?.all (· != ' ')) :
    EndsGap (text.flatMap doubleChars ++ ['"', '\n']) := by
  cases text with
  | nil => rfl
  | cons c text =>
    have hc : c ≠ ' ' := by simpa using h
    rcases standsFor_doubleChars c with ⟨hchars, -, -, hprintable, hbreak⟩ | ⟨escape, hchars, -⟩
    · have hgap := isGap_of_isPrintable hprintable hc hbreak
      rw [List.flatMap_cons, hchars]
      show (!isGap c) = true
      rw [hgap]
      rfl
    · rw [List.flatMap_cons, hchars]
      rfl

section

variable (fuel : Nat) (seen : List Char) {word : List Char} {c : Cursor}

/-- The last word, and the quote after it. -/
theorem doubleFrom_last (hword : ∀ c ∈ word, c ≠ ' ') (hcolumn : 0 < c.column)
    (hrest : c.rest = word.flatMap doubleChars ++ ['"', '\n']) :
    ∃ c' : Cursor, c'.rest = ['\n'] ∧ doubleFrom (fuel + 1) seen c = some (seen ++ word, c') := by
  obtain ⟨hread, hskip⟩ := doubleWord_rest hword rfl hrest
  refine ⟨(c.skip (word.flatMap doubleChars).length).skip 1, ?_, ?_⟩
  · rw [Cursor.skip_rest, hskip]
    rfl
  rw [doubleFrom, Cursor.isAtDocumentMark_of_column hcolumn, hread]
  simp only [Option.bind_eq_bind, Option.bind_some, Bool.false_eq_true, if_false, Cursor.isAt,
    hskip]
  rfl

/-- A word and the spaces after it. -/
theorem doubleFrom_word {gap after : List Char} (hword : ∀ c ∈ word, c ≠ ' ')
    (hgap : ∀ c ∈ gap, c = ' ') (hnonempty : gap ≠ []) (hafter : EndsGap after)
    (hcolumn : 0 < c.column) (hrest : c.rest = word.flatMap doubleChars ++ (gap ++ after)) :
    ∃ c' : Cursor, c'.rest = after ∧ 0 < c'.column ∧
      doubleFrom (fuel + 1) seen c = doubleFrom fuel (seen ++ word ++ gap) c' := by
  have hhead : (gap ++ after).head? = some ' ' := by
    obtain ⟨g, gap, rfl⟩ := List.exists_cons_of_ne_nil hnonempty
    rw [List.cons_append, List.head?_cons, hgap g List.mem_cons_self]
  obtain ⟨hread, hskip⟩ := doubleWord_rest hword (by rw [hhead]; rfl) hrest
  have hgaps : readGap 0 (gap ++ after).length (.blanks [])
      (c.skip (word.flatMap doubleChars).length)
      = some (.blanks gap, (c.skip (word.flatMap doubleChars).length).skip gap.length) :=
    readGap_blanks 0 (fun c hc => hgap c hc ▸ rfl) hafter hskip (by simp) []
  refine ⟨(c.skip (word.flatMap doubleChars).length).skip gap.length, ?_,
    Nat.add_pos_left (Nat.add_pos_left hcolumn _) _, ?_⟩
  · rw [Cursor.skip_rest, hskip, List.drop_left]
  · have hnonempty : (gap ++ after).isEmpty = false := by simp [hnonempty]
    rw [doubleFrom, Cursor.isAtDocumentMark_of_column hcolumn, hread]
    simp only [Option.bind_eq_bind, Option.bind_some, Bool.false_eq_true, if_false, Cursor.isAt,
      hskip, hhead, hnonempty, hgaps]
    rfl

end

/-- A text is read on word by word. -/
theorem doubleFrom_flatMap_doubleChars (text : List Char) :
    ∀ {fuel : Nat} (seen : List Char) {c : Cursor},
      c.rest = text.flatMap doubleChars ++ ['"', '\n'] → 0 < c.column → text.length < fuel →
        ∃ c' : Cursor, c'.rest = ['\n'] ∧ doubleFrom fuel seen c = some (seen ++ text, c') := by
  induction text using runs_induction (· == ' ') with
  | last word hword =>
    intro fuel seen c hrest hcolumn hfuel
    obtain ⟨fuel, rfl⟩ := Nat.exists_eq_add_one_of_ne_zero (Nat.ne_zero_of_lt hfuel)
    exact doubleFrom_last fuel seen (fun c hc => by simpa using hword c hc) hcolumn hrest
  | step word gap rest hword hgap hnonempty hhead ih =>
    intro fuel seen c hrest hcolumn hfuel
    obtain ⟨fuel, rfl⟩ := Nat.exists_eq_add_one_of_ne_zero (Nat.ne_zero_of_lt hfuel)
    have hspaces : ∀ c ∈ gap, c = ' ' := fun c hc => beq_iff_eq.mp (hgap c hc)
    rw [List.flatMap_append, List.flatMap_append, flatMap_spaces rfl hspaces,
      List.append_assoc, List.append_assoc] at hrest
    obtain ⟨c', hrest', hcolumn', hfrom⟩ := doubleFrom_word fuel seen
      (fun c hc => by simpa using hword c hc) hspaces hnonempty
      (endsGap_flatMap_doubleChars hhead) hcolumn hrest
    have hlength : rest.length < fuel := by
      have hgap := List.length_pos_iff.mpr hnonempty
      simp only [List.length_append] at hfuel
      omega
    obtain ⟨c'', hend, hread⟩ := ih (seen ++ word ++ gap) hrest' hcolumn' hlength
    refine ⟨c'', hend, ?_⟩
    rw [hfrom, hread, List.append_assoc, List.append_assoc]

/-- **A text in double quotes is read back.** -/
theorem readDouble_doubleChars {text : List Char} {c : Cursor}
    (hrest : c.rest = '"' :: (text.flatMap doubleChars ++ ['"', '\n'])) :
    ∃ c' : Cursor, c'.rest = ['\n'] ∧ readDouble c = some (text, c') := by
  have hlength := length_le_flatMap_doubleChars text
  refine doubleFrom_flatMap_doubleChars text [] ?_ (Nat.succ_pos c.column) ?_
  · rw [Cursor.skip_rest, hrest]
    rfl
  · rw [hrest, List.length_cons, List.length_append]
    omega

end GoOutline.Yaml
