import GoOutline.Proofs.Yaml.Block
import GoOutline.Proofs.Yaml.Plain
import GoOutline.Proofs.Yaml.Quoted
import GoOutline.Yaml.Node

/-!
# A field that has been written is read back

A mapping with one field is cut into six tokens, whatever its text is. The scanner is followed from
token to token: the name becomes a key when the colon after it is reached, the text is read in the
style in which it has been written, and the block ends with the text.

* `IsFieldName`: the names of fields.
* `fetch_scalarChars`: the token of a text, in any style.
* `scan_writeField`, `document?_writeField`: the tokens and the document.
-/

namespace GoOutline.Yaml

/-! ### Characters that may stand in a text -/

theorem isAllowed_of_isPrintable {c : Char} (h : isPrintable c = true) : isAllowed c = true := by
  simp only [isPrintable, isAllowed, Bool.or_eq_true, Bool.and_eq_true] at h ⊢
  rcases h with (h | h) | h
  · simp [h]
  · simp [h]
  · simp [h]

theorem isAllowed_lineStart (isLineStart : Bool) :
    (if isLineStart then lineIndent else []).all isAllowed = true := by
  cases isLineStart <;> rfl

theorem isAllowed_singleChars {isLineStart : Bool} {text : List Char}
    (h : ∀ c ∈ text, isPrintable c = true) :
    (singleChars isLineStart text).all isAllowed = true := by
  induction text generalizing isLineStart with
  | nil => exact isAllowed_lineStart isLineStart
  | cons c text ih =>
    obtain ⟨hc, htext⟩ := List.forall_mem_cons.mp h
    have hc := isAllowed_of_isPrintable hc
    cases hbreak : isBreak c with
    | false =>
      have hquote : (quoteChars c).all isAllowed = true := by
        rw [quoteChars]
        split
        · rfl
        · simp [hc]
      rw [singleChars_cons_other hbreak, List.all_append, List.all_append, isAllowed_lineStart,
        hquote, ih htext]
      rfl
    | true =>
      rw [singleChars_cons_break hbreak, List.all_cons, hc, ih htext]
      rfl

theorem isAllowed_literalChars {isLineStart : Bool} {text : List Char}
    (h : ∀ c ∈ text, isPrintable c = true) :
    (literalChars isLineStart text).all isAllowed = true := by
  induction text generalizing isLineStart with
  | nil => rfl
  | cons c text ih =>
    obtain ⟨hc, htext⟩ := List.forall_mem_cons.mp h
    have hc := isAllowed_of_isPrintable hc
    cases hbreak : isBreak c with
    | false =>
      rw [literalChars_cons_other hbreak, List.all_append, isAllowed_lineStart, List.all_cons, hc,
        ih htext]
      rfl
    | true =>
      rw [literalChars_cons_break hbreak, List.all_cons, hc, ih htext]
      rfl

theorem isAllowed_doubleChars (c : Char) : (doubleChars c).all isAllowed = true := by
  rcases standsFor_doubleChars c with ⟨hchars, -, -, hprintable, -⟩ | ⟨escape, hchars, hescape⟩
  · simp [hchars, isAllowed_of_isPrintable hprintable]
  · rw [hchars, List.all_cons, List.all_eq_true.mpr hescape.allowed]
    rfl

theorem isAllowed_literalHints (text : List Char) :
    (literalHints text).all isAllowed = true := by
  rw [literalHints, List.all_append, Bool.and_eq_true]
  constructor
  · split <;> rfl
  · split
    · rfl
    · split <;> rfl
    · split
      · rfl
      · split <;> rfl

/-! ### Styles -/

/-- What is known of a text that is written in a style. -/
def Style.Suits (text : List Char) : Style → Prop
  | plain => allowsPlain text ∧ text ≠ []
  | single => allowsSingle text ∧ '\n' ∉ text
  | double => True
  | literal => (∀ c ∈ text, isPrintable c = true) ∧ text ≠ []

theorem suits_styleOf (text : List Char) : (styleOf text).Suits text := by
  rw [styleOf]
  split
  next hline =>
    have hmem : '\n' ∈ text := by simpa using hline
    split
    next hallows =>
      simp only [allowsLiteral, Bool.and_eq_true, List.all_eq_true] at hallows
      exact ⟨hallows.1.1, List.ne_nil_of_mem hmem⟩
    next => trivial
  next hline =>
    have hmem : '\n' ∉ text := by simpa using hline
    split
    next hplain =>
      rw [Bool.and_eq_true] at hplain
      refine ⟨hplain.1, ?_⟩
      -- An empty text looks like a missing value.
      rintro rfl
      exact absurd hplain.2 (by decide)
    next =>
      split
      next hsingle => exact ⟨hsingle, hmem⟩
      next => trivial

theorem scalarChars_ne_nil (text : List Char) : scalarChars text ≠ [] := by
  rw [scalarChars]
  split <;> simp

theorem isAllowed_scalarChars (text : List Char) : (scalarChars text).all isAllowed = true := by
  have h := suits_styleOf text
  rw [scalarChars]
  cases hstyle : styleOf text <;> rw [hstyle] at h
  case plain =>
    have hprintable : ∀ c ∈ text, isPrintable c = true := by
      simp only [allowsPlain, Style.Suits, Bool.and_eq_true, List.all_eq_true] at h
      exact h.1.1.1.1.1.1
    have hallowed : text.all isAllowed = true :=
      List.all_eq_true.mpr fun c hc => isAllowed_of_isPrintable (hprintable c hc)
    rw [List.all_append, hallowed]
    rfl
  case single =>
    have hprintable := ((allowsSingle_iff text).mp h.1).1
    rw [List.all_append, List.all_cons, isAllowed_singleChars hprintable]
    rfl
  case double =>
    have hallowed : (text.flatMap doubleChars).all isAllowed = true := by
      rw [List.all_flatMap]
      exact List.all_eq_true.mpr fun c _ => isAllowed_doubleChars c
    rw [List.all_append, List.all_cons, hallowed]
    rfl
  case literal =>
    rw [List.all_append, List.all_append, List.all_append, List.all_cons,
      isAllowed_literalHints, isAllowed_literalChars h.1]
    split <;> rfl

/-! ### From token to token -/

namespace Scanner

variable {s : Scanner} {fuel : Nat}

/-- Whether a token, or the end of the text, comes next. -/
def StartsToken (rest : List Char) : Prop :=
  rest.head?.all fun c => !isGap c && c != '#' && c != byteOrderMark

theorem StartsToken.ne {rest : List Char} (h : StartsToken rest) {c : Char}
    (hc : c = '#' ∨ c = byteOrderMark) : (rest.head? == some c) = false := by
  cases rest with
  | nil => rfl
  | cons d rest =>
    have hd : (isGap d = false ∧ d ≠ '#') ∧ d ≠ byteOrderMark := by simpa [StartsToken] using h
    rcases hc with rfl | rfl
    · simpa using hd.1.2
    · simpa using hd.2

theorem StartsToken.any_eq_false {rest : List Char} (h : StartsToken rest) {p : Char → Bool}
    (hp : ∀ c, p c = true → isGap c = true) : rest.head?.any p = false := by
  cases rest with
  | nil => rfl
  | cons d rest =>
    have hd : (isGap d = false ∧ d ≠ '#') ∧ d ≠ byteOrderMark := by simpa [StartsToken] using h
    exact Bool.eq_false_iff.mpr fun hpd => absurd (hp d hpd) (by simp [hd.1.1])

/-- Spaces before a token are passed over. -/
theorem toNextToken_spaces (spaces : List Char) {rest : List Char}
    (hrest : s.cursor.rest = spaces ++ rest) (hspaces : ∀ c ∈ spaces, c = ' ')
    (hstarts : StartsToken rest) :
    s.toNextToken (fuel + 1) = { s with cursor := s.cursor.skip spaces.length } := by
  have hmark : s.cursor.isAt byteOrderMark = false := by
    rw [Cursor.isAt, hrest]
    cases spaces with
    | nil => exact hstarts.ne (.inr rfl)
    | cons c spaces =>
      obtain rfl : c = ' ' := hspaces c List.mem_cons_self
      rfl
  have hblanks : s.cursor.rest.takeWhile
      (fun c => c == ' ' || (c == '\t' && (s.inFlow || !s.allowsKey))) = spaces := by
    have hnone := hstarts.any_eq_false
      (p := fun c => c == ' ' || (c == '\t' && (s.inFlow || !s.allowsKey))) fun c hc => by
        simp only [Bool.or_eq_true, Bool.and_eq_true, beq_iff_eq] at hc
        rcases hc with rfl | ⟨rfl, -⟩ <;> rfl
    rw [hrest, List.takeWhile_append_of_pos fun c hc => by rw [hspaces c hc]; rfl]
    cases rest with
    | nil => exact List.append_nil spaces
    | cons d rest =>
      rw [List.takeWhile_cons_of_neg (by simpa using hnone), List.append_nil]
  have hskip : (s.cursor.skip spaces.length).rest = rest := Cursor.skip_append hrest
  have hcomment : (s.cursor.skip spaces.length).isAt '#' = false := by
    rw [Cursor.isAt, hskip]
    exact hstarts.ne (.inl rfl)
  have hbreak : rest.head?.any isBreak = false :=
    hstarts.any_eq_false fun c hc => by rw [isGap, hc, Bool.or_true]
  rw [toNextToken]
  simp only [hmark, Bool.and_false, Bool.false_eq_true, if_false, Cursor.skipWhile, hblanks,
    hcomment, hskip, hbreak]

/-- After the last token there is at most the end of its line. -/
theorem toNextToken_end (hrest : s.cursor.rest = [] ∨ s.cursor.rest = ['\n']) :
    ∃ (c : Cursor) (allowsKey : Bool), c.rest = [] ∧
      s.toNextToken (s.cursor.rest.length + 1) = { s with cursor := c, allowsKey } := by
  rcases hrest with hrest | hrest
  · refine ⟨s.cursor, s.allowsKey, hrest, ?_⟩
    exact toNextToken_spaces [] hrest (by simp) rfl
  have hmark : s.cursor.isAt byteOrderMark = false := by rw [Cursor.isAt, hrest]; rfl
  have hblanks : s.cursor.rest.takeWhile
      (fun c => c == ' ' || (c == '\t' && (s.inFlow || !s.allowsKey))) = [] := by rw [hrest]; rfl
  have hcomment : s.cursor.isAt '#' = false := by rw [Cursor.isAt, hrest]; rfl
  have hbreak : s.cursor.rest.head?.any isBreak = true := by rw [hrest]; rfl
  have hlength : s.cursor.rest.length = 1 := by rw [hrest]; rfl
  have hskip : s.cursor.skipBreak.rest = [] := by
    rw [(show IsLineBreak '\n' from .inl rfl).skipBreak hrest]
  refine ⟨s.cursor.skipBreak, s.allowsKey || !s.inFlow, hskip, ?_⟩
  rw [hlength, toNextToken]
  simp only [hmark, Bool.and_false, Bool.false_eq_true, if_false, Cursor.skipWhile, hblanks,
    List.length_nil, Cursor.skip_zero, hcomment, hbreak, if_true]
  exact toNextToken_spaces (s := { s with cursor := _, allowsKey := _ }) [] hskip (by simp) rfl

theorem closeBlocks_of_le {column : Int} (h : ∀ indent ∈ s.indents, indent ≤ column) :
    s.closeBlocks column = s := by
  have hnone : s.indents.takeWhile (column < ·) = [] := by
    cases hindents : s.indents with
    | nil => rfl
    | cons indent indents =>
      have hle := h indent (hindents ▸ List.mem_cons_self)
      exact List.takeWhile_cons_of_neg (by simpa using hle)
  rw [closeBlocks]
  split
  · rfl
  · simp only [hnone, List.map_nil, List.append_nil, List.length_nil, List.drop_zero]

theorem dropStale_of_refreshed (hcandidate : refreshed s.cursor s.candidate = some s.candidate)
    (houter : s.outer = []) : s.dropStale = some s := by
  obtain ⟨cursor, tokens, indents, candidate, outer, allowsKey⟩ := s
  obtain rfl : outer = [] := houter
  rw [dropStale, hcandidate]
  rfl

/-- The scanner goes to the next token and fetches it. -/
theorem run_fetch {s' : Scanner} (hnext : s.toNextToken (s.cursor.rest.length + 1) = s')
    (hcandidate : refreshed s'.cursor s'.candidate = some s'.candidate) (houter : s'.outer = [])
    (hindents : ∀ indent ∈ s'.indents, indent ≤ (s'.cursor.column : Int))
    (hrest : s'.cursor.rest ≠ []) : run (fuel + 1) s = s'.fetch.bind (run fuel) := by
  rw [run, hnext, dropStale_of_refreshed hcandidate houter]
  simp only [Option.bind_eq_bind, Option.bind_some, closeBlocks_of_le hindents]
  rw [if_neg (by simpa using hrest)]

/-- At the end of the text the block that is open ends. -/
theorem run_finish {s' : Scanner} (hnext : s.toNextToken (s.cursor.rest.length + 1) = s')
    (hcandidate : s'.candidate = none) (houter : s'.outer = []) (hindents : s'.indents = [0])
    (hrest : s'.cursor.rest = []) : run (fuel + 1) s = some (s'.tokens ++ [.blockEnd]) := by
  have hclose : s'.closeBlocks s'.cursor.column = s' := closeBlocks_of_le (by simp [hindents])
  rw [run, hnext, dropStale_of_refreshed (by rw [hcandidate]; rfl) houter]
  simp only [Option.bind_eq_bind, Option.bind_some, hclose]
  rw [if_pos (by simp [hrest])]
  obtain ⟨cursor, tokens, indents, candidate, outer, allowsKey⟩ := s'
  subst hcandidate houter hindents
  rfl

/-! ### Fetching a scalar -/

theorem isAt_of_rest {c : Cursor} {d : Char} {rest : List Char} (hrest : c.rest = d :: rest)
    (ch : Char) : c.isAt ch = (d == ch) := by
  rw [Cursor.isAt, hrest]
  rfl

theorem isAtMark_of_ne {c : Cursor} {d ch : Char} {rest : List Char} (hrest : c.rest = d :: rest)
    (h : d ≠ ch) : c.isAtMark ch = false := by
  rw [Cursor.isAtMark, hrest]
  split
  next heq =>
    obtain ⟨rfl, -⟩ := List.cons.inj heq
    simp [h]
  next => simp

/-- A scalar without quotes begins with a character that means nothing else here. -/
theorem fetch_plain {d : Char} {rest : List Char} (hrest : s.cursor.rest = d :: rest)
    (hmark : s.cursor.isAtDocumentMark = false) (hflow : s.inFlow = false) (hgap : isGap d = false)
    (hd : d ∉ indicators ∨ (d = '-' ∨ d = '?' ∨ d = ':') ∧ endsWord rest = false) :
    s.fetch = s.fetchPlain := by
  rw [Cursor.isAtDocumentMark, Bool.or_eq_false_iff] at hmark
  rw [fetch]
  simp only [hmark, hflow, isAt_of_rest hrest]
  rcases hd with hd | ⟨hd, hends⟩
  · have hne : ∀ ch ∈ indicators, (d == ch) = false := fun ch hch =>
      beq_false_of_ne fun h => hd (h ▸ hch)
    have hstarts : startsPlain false s.cursor.rest = true := by
      rw [hrest, startsPlain, hgap, show indicators.contains d = false by simpa using hd]
      rfl
    simp (disch := decide) only [hne, hstarts, Bool.and_false, Bool.false_and, Bool.false_eq_true,
      if_false, if_true]
  · have hblank : rest.head?.any isBlank = false := by
      cases rest with
      | nil => rfl
      | cons c rest =>
        rw [endsWord, isGap, Bool.or_eq_false_iff] at hends
        exact hends.1
    rcases hd with rfl | rfl | rfl <;> simp [hrest, startsPlain, hends, hblank]

theorem mem_indicators :
    ∀ d ∈ indicators, (d = '-' ∨ d = '?' ∨ d = ':') ∨ d ∈ openingIndicators := by
  have hall : (indicators.all fun d =>
      (d = '-' ∨ d = '?' ∨ d = ':') ∨ d ∈ openingIndicators) = true := by decide
  simpa only [List.all_eq_true, decide_eq_true_eq] using hall

/-- How a text without quotes begins. -/
theorem plain_head {d : Char} {rest : List Char} (h : allowsPlain (d :: rest)) :
    isGap d = false ∧ d ≠ '#' ∧ d ≠ byteOrderMark ∧
      (d ∉ indicators ∨ (d = '-' ∨ d = '?' ∨ d = ':') ∧ endsWord (rest ++ ['\n']) = false) := by
  simp only [allowsPlain, Bool.and_eq_true, List.all_eq_true, Bool.not_eq_true', List.any_eq_false,
    bne_iff_ne, List.head?_cons, ne_eq, Option.some.injEq, opensBadly, hasIndicator,
    Bool.or_eq_false_iff, Bool.and_eq_false_iff] at h
  obtain ⟨⟨⟨⟨⟨hprintable, hbreak⟩, hspace⟩, -⟩, ⟨⟨hopening, hsign⟩, -⟩, -⟩, ⟨hcolon, -⟩, -⟩ := h
  have hd := hprintable d List.mem_cons_self
  have hopening : d ∉ openingIndicators := by simpa using hopening
  have hbreak := Bool.eq_false_iff.mpr (hbreak d List.mem_cons_self)
  refine ⟨isGap_of_isPrintable hd hspace hbreak, ?_, ?_, ?_⟩
  · rintro rfl
    exact hopening (by decide)
  · rintro rfl
    exact absurd hd (by decide)
  · rw [endsWord_append_newline]
    by_cases hmem : d ∈ indicators
    · refine .inr ((mem_indicators d hmem).elim (fun h => ⟨h, ?_⟩) fun h => absurd h hopening)
      rcases h with rfl | rfl | rfl
      · simpa using hsign
      · simpa using hsign
      · simpa using hcolon
    · exact .inl hmem

theorem startsToken_scalarChars (text : List Char) : StartsToken (scalarChars text) := by
  have h := suits_styleOf text
  rw [scalarChars]
  cases hstyle : styleOf text <;> rw [hstyle] at h
  case plain =>
    obtain ⟨d, rest, rfl⟩ := List.exists_cons_of_ne_nil h.2
    obtain ⟨hgap, hcomment, hmark, -⟩ := plain_head h.1
    simp [StartsToken, hgap, hcomment, hmark]
  all_goals rfl

/-- The scanner after the name of a field and the colon. -/
def inField (name : List Char) (c : Cursor) : Scanner :=
  { cursor := c, tokens := [.mappingStart, .key, .scalar name, .value], indents := [0],
    allowsKey := false }

/-- The scanner after the text of a field. -/
def afterField (name text : List Char) (allowsKey : Bool) (c : Cursor) : Scanner :=
  { cursor := c, tokens := [.mappingStart, .key, .scalar name, .value, .scalar text],
    indents := [0], allowsKey }

/-- Whatever reads a text in quotes, it becomes the text of the field. -/
theorem fetchPart_inField (name : List Char) {read : Cursor → Option (List Char × Cursor)}
    {text : List Char} {c c' : Cursor} (hread : read c = some (text, c')) :
    ((inField name c).fetchPart fun c => (read c).map fun part => (.scalar part.1, part.2))
      = some (afterField name text false c') := by
  show ((read c).map _).bind _ = _
  rw [hread]
  rfl

/-- A text is fetched in the style in which it has been written. -/
theorem fetch_scalarChars (name : List Char) {text : List Char} {c : Cursor}
    (hcolumn : 0 < c.column) (hrest : c.rest = scalarChars text) :
    ∃ (allowsKey : Bool) (c' : Cursor), (c'.rest = [] ∨ c'.rest = ['\n']) ∧
      (inField name c).fetch = some (afterField name text allowsKey c') := by
  have h := suits_styleOf text
  have hmark := Cursor.isAtMark_of_column hcolumn
  rw [scalarChars] at hrest
  cases hstyle : styleOf text <;> rw [hstyle] at h hrest
  case plain =>
    obtain ⟨c', hend, hread⟩ := readPlain_append (isPlainText_of_allowsPlain h.1 h.2) hcolumn hrest
    obtain ⟨d, rest, rfl⟩ := List.exists_cons_of_ne_nil h.2
    obtain ⟨hgap, -, -, hd⟩ := plain_head h.1
    have hfetch : (inField name c).fetch = (inField name c).fetchPlain :=
      fetch_plain hrest (Cursor.isAtDocumentMark_of_column hcolumn) rfl hgap hd
    refine ⟨true, c', .inl hend, ?_⟩
    rw [hfetch]
    show (readPlain false 1 c).bind _ = _
    rw [hread]
    rfl
  case single =>
    obtain ⟨c', hend, hread⟩ := readSingle_singleChars h.1 h.2 hrest
    have hfetch : (inField name c).fetch
        = (inField name c).fetchPart fun c =>
          (readSingle c).map fun read => (.scalar read.1, read.2) := by
      simp [fetch, inField, isAt_of_rest hrest, hmark, inFlow]
    exact ⟨false, c', .inr hend, hfetch.trans (fetchPart_inField name hread)⟩
  case double =>
    obtain ⟨c', hend, hread⟩ := readDouble_doubleChars hrest
    have hfetch : (inField name c).fetch
        = (inField name c).fetchPart fun c =>
          (readDouble c).map fun read => (.scalar read.1, read.2) := by
      simp [fetch, inField, isAt_of_rest hrest, hmark, inFlow]
    exact ⟨false, c', .inr hend, hfetch.trans (fetchPart_inField name hread)⟩
  case literal =>
    have hrest' : c.rest = '|' :: (literalHints text ++ '\n' :: (literalChars true text ++
        if text.getLast?.any isBreak then [] else ['\n'])) := by
      rw [hrest]
      simp
    obtain ⟨c', hend, hread⟩ := readBlock_literalChars h.2 h.1 hrest'
    have hfetch : (inField name c).fetch = (inField name c).fetchBlockScalar false := by
      simp [fetch, inField, isAt_of_rest hrest', hmark, inFlow]
    refine ⟨true, c', .inl hend, ?_⟩
    rw [hfetch]
    show (readBlock false 0 c).bind _ = _
    rw [hread]
    rfl

/-- The text of a field is the last token but one. -/
theorem run_inField (name : List Char) {text : List Char} {c : Cursor}
    (hrest : c.rest = ' ' :: scalarChars text) (fuel : Nat) :
    run (fuel + 2) (inField name c)
      = some [.mappingStart, .key, .scalar name, .value, .scalar text, .blockEnd] := by
  have hstarts := startsToken_scalarChars text
  have hskip : (c.skip 1).rest = scalarChars text := by rw [Cursor.skip_rest, hrest]; rfl
  have hnonempty := scalarChars_ne_nil text
  obtain ⟨allowsKey, c', hend, hfetch⟩ := fetch_scalarChars name (Nat.succ_pos c.column) hskip
  obtain ⟨c'', allowsKey', hend', hlast⟩ :=
    toNextToken_end (show (afterField name text allowsKey c').cursor.rest = [] ∨ _ from hend)
  have hnext : (inField name c).toNextToken (c.rest.length + 1) = inField name (c.skip 1) :=
    toNextToken_spaces [' '] hrest (by simp) hstarts
  have hindents : ∀ indent ∈ (inField name (c.skip 1)).indents,
      indent ≤ ((c.skip 1).column : Int) := by
    simp only [inField, List.mem_singleton, forall_eq, Cursor.skip_column]
    omega
  rw [run_fetch hnext rfl rfl hindents (by rwa [← hskip] at hnonempty), hfetch]
  exact run_finish hlast rfl rfl rfl hend'

end Scanner

/-! ### Names of fields -/

/-- The names that are written without quotes: a letter, and then letters, digits and lines. A key
may not be too far from its colon. -/
structure IsFieldName (name : List Char) : Prop where
  head : name.head?.any Char.isAlpha
  chars : ∀ c ∈ name, isWordChar c = true
  length : name.length ≤ 1024

theorem not_isGap_of_isWordChar {c : Char} (h : isWordChar c = true) : isGap c = false := by
  rw [Bool.eq_false_iff]
  intro hgap
  simp only [isGap, isBlank, isBreak, Bool.or_eq_true, beq_iff_eq] at hgap
  rcases hgap with (rfl | rfl) | (((rfl | rfl) | rfl) | rfl) | rfl <;> exact absurd h (by decide)

theorem not_mem_indicators_of_isAlpha {c : Char} (h : c.isAlpha = true) :
    ∀ d ∈ byteOrderMark :: '.' :: Scanner.indicators, c ≠ d := by
  rintro d hd rfl
  have hnone : (byteOrderMark :: '.' :: Scanner.indicators).all (!·.isAlpha) = true := by decide
  have hc := List.all_eq_true.mp hnone c hd
  rw [h] at hc
  exact absurd hc (by decide)

theorem isAllowed_of_isWordChar {c : Char} (h : isWordChar c = true) : isAllowed c = true := by
  have hrange : 32 ≤ c.toNat ∧ c.toNat ≤ 126 := by
    rw [isWordChar, Bool.or_eq_true, Bool.or_eq_true, beq_iff_eq, beq_iff_eq] at h
    rcases h with (h | rfl) | rfl
    · have hkinds : (c.isUpper || c.isLower || c.isDigit) = true := h
      rw [Bool.or_eq_true, Bool.or_eq_true] at hkinds
      have hranges : (65 ≤ c.toNat ∧ c.toNat ≤ 90 ∨ 97 ≤ c.toNat ∧ c.toNat ≤ 122) ∨
          48 ≤ c.toNat ∧ c.toNat ≤ 57 := by
        refine hkinds.imp (Or.imp (fun hupper => ?_) fun hlower => ?_) fun hdigit => ?_
        · exact of_decide_eq_true hupper
        · have hbounds := Bool.and_eq_true_iff.mp hlower
          exact ⟨of_decide_eq_true hbounds.1, of_decide_eq_true hbounds.2⟩
        · have hbounds := Bool.and_eq_true_iff.mp hdigit
          exact ⟨of_decide_eq_true hbounds.1, of_decide_eq_true hbounds.2⟩
      omega
    · decide
    · decide
  have hle : ' ' ≤ c ∧ c ≤ '~' := hrange
  simp [isAllowed, hle]

theorem plainWord_name {name : List Char} (h : ∀ c ∈ name, isWordChar c = true) (tail : List Char) :
    plainWord false (name ++ ':' :: ' ' :: tail) = some name := by
  induction name with
  | nil => rfl
  | cons c name ih =>
    obtain ⟨hc, hname⟩ := List.forall_mem_cons.mp h
    have hcolon : (c == ':') = false := beq_false_of_ne fun h => by
      rw [h] at hc
      exact absurd hc (by decide)
    rw [List.cons_append, plainWord, not_isGap_of_isWordChar hc, hcolon, ih hname]
    rfl

namespace Scanner

section

variable {name tail : List Char} (hname : IsFieldName name)

include hname

/-- A name is read up to the colon. -/
theorem readPlain_name {c : Cursor} (hrest : c.rest = name ++ ':' :: ' ' :: tail)
    (hmark : c.isAtDocumentMark = false) (hcomment : c.isAt '#' = false) :
    readPlain false 0 c = some ⟨name, false, c.skip name.length⟩ := by
  have hword : plainWord false c.rest = some name := by rw [hrest, plainWord_name hname.chars]
  have hskip : (c.skip name.length).rest = ':' :: ' ' :: tail := Cursor.skip_append hrest
  have hempty : name.isEmpty = false := by
    cases name with
    | nil => exact absurd hname.head (by decide)
    | cons d name => rfl
  rw [readPlain, plainFrom, hmark, hcomment]
  simp only [hword, Option.bind_eq_bind, Option.bind_some, hempty, hskip]
  rfl

/-- The scanner after the name of a field. -/
def afterName (name : List Char) (c : Cursor) : Scanner :=
  { cursor := c.skip name.length, tokens := [.scalar name], candidate := some ⟨false, 0, c⟩,
    allowsKey := false }

/-- A name may become a key. -/
theorem run_name {c : Cursor} (hrest : c.rest = name ++ ':' :: ' ' :: tail) (hcolumn : c.column = 0)
    (fuel : Nat) : run (fuel + 1) { cursor := c } = run fuel (afterName name c) := by
  obtain ⟨d, more, rfl⟩ : ∃ d more, name = d :: more := by
    cases name with
    | nil => exact absurd hname.head (by decide)
    | cons d more => exact ⟨d, more, rfl⟩
  have hd := not_mem_indicators_of_isAlpha (show d.isAlpha = true from hname.head)
  have hgap := not_isGap_of_isWordChar (hname.chars d List.mem_cons_self)
  have hmark : c.isAtDocumentMark = false := by
    rw [Cursor.isAtDocumentMark, isAtMark_of_ne hrest (hd '-' (by decide)),
      isAtMark_of_ne hrest (hd '.' (by decide))]
    rfl
  have hcomment : c.isAt '#' = false := by
    rw [isAt_of_rest hrest, beq_false_of_ne (hd '#' (by decide))]
  have hstarts : StartsToken c.rest := by
    rw [hrest]
    simp [StartsToken, hgap, hd '#' (by decide), hd byteOrderMark (by decide)]
  have hfetch : ({ cursor := c } : Scanner).fetch = ({ cursor := c } : Scanner).fetchPlain :=
    fetch_plain hrest hmark rfl hgap (.inl fun hmem => hd d (by simp [hmem]) rfl)
  have hnext : ({ cursor := c } : Scanner).toNextToken (c.rest.length + 1) = { cursor := c } :=
    toNextToken_spaces [] rfl (by simp) hstarts
  have hsave : ({ cursor := c } : Scanner).saveKey
      = some { cursor := c, candidate := some ⟨false, 0, c⟩ } := by
    rw [saveKey, if_pos rfl]
    show some (Scanner.mk c [] [] (some ⟨(-1 : Int) == (c.column : Int), 0, c⟩) [] true) = _
    rw [hcolumn]
    rfl
  rw [run_fetch hnext rfl rfl (by simp) (by simp [hrest]), hfetch, fetchPlain, hsave]
  show ((readPlain false 0 c).bind _).bind _ = _
  rw [readPlain_name hname hrest hmark hcomment]
  rfl

end

/-- A name is a key if a colon follows it. -/
theorem run_colon {name tail : List Char} {c : Cursor} (hlength : name.length ≤ 1024)
    (hrest : c.rest = name ++ ':' :: ' ' :: tail) (hcolumn : c.column = 0) (fuel : Nat) :
    run (fuel + 1) (afterName name c) = run fuel (inField name (c.skip (name.length + 1))) := by
  have hskip : (c.skip name.length).rest = ':' :: ' ' :: tail := Cursor.skip_append hrest
  have hcursor : (afterName name c).cursor.rest = ':' :: ' ' :: tail := hskip
  have hnext : (afterName name c).toNextToken ((afterName name c).cursor.rest.length + 1)
      = afterName name c :=
    toNextToken_spaces [] hcursor (by simp) rfl
  have hcandidate : refreshed (c.skip name.length) (some ⟨false, 0, c⟩)
      = some (some ⟨false, 0, c⟩) := by
    have hstale : isStale (c.skip name.length) ⟨false, 0, c⟩ = false := by
      have hindex : ¬ c.index + 1024 < c.index + name.length := by omega
      show (decide (c.line < c.line) || decide (c.index + 1024 < c.index + name.length)) = false
      rw [decide_eq_false hindex, decide_eq_false (Nat.lt_irrefl c.line)]
      rfl
    rw [refreshed, hstale]
    rfl
  have hfetch : (afterName name c).fetch = (afterName name c).fetchValue := by
    have hmark : ∀ ch, ':' ≠ ch → (afterName name c).cursor.isAtMark ch = false :=
      fun ch => isAtMark_of_ne hcursor
    simp [fetch, isAt_of_rest hcursor, hmark, hcursor, endsWord, isGap, isBlank]
  rw [run_fetch hnext hcandidate rfl (by simp [afterName]) (by simp [hcursor]), hfetch]
  obtain ⟨rest, index, line, column⟩ := c
  obtain rfl : column = 0 := hcolumn
  rw [← Cursor.skip_skip]
  rfl

end Scanner

/-- **A field is cut into its tokens.** -/
theorem scan_writeField {name : List Char} (hname : IsFieldName name) (text : List Char) :
    scan (writeField name text)
      = some [.mappingStart, .key, .scalar name, .value, .scalar text, .blockEnd] := by
  have hrest : writeField name text = name ++ ':' :: ' ' :: scalarChars text := by
    rw [writeField, List.append_assoc]
    rfl
  have hallowed : (writeField name text).all isAllowed = true := by
    have hallowed : name.all isAllowed = true :=
      List.all_eq_true.mpr fun c hc => isAllowed_of_isWordChar (hname.chars c hc)
    rw [writeField, List.all_append, List.all_append, hallowed, isAllowed_scalarChars]
    rfl
  obtain ⟨fuel, hfuel⟩ : ∃ fuel, (writeField name text).length + 1 = fuel + 2 + 1 + 1 := by
    have hpos := List.length_pos_iff.mpr (scalarChars_ne_nil text)
    refine ⟨name.length + ((scalarChars text).length - 1), ?_⟩
    rw [hrest, List.length_append, List.length_cons, List.length_cons]
    omega
  rw [scan, if_pos hallowed, hfuel, Scanner.run_name hname hrest rfl,
    Scanner.run_colon hname.length hrest rfl]
  refine Scanner.run_inField name ?_ fuel
  rw [Cursor.skip_rest]
  show (writeField name text).drop (name.length + 1) = _
  rw [hrest, List.drop_append]
  simp

/-- **A field that has been written is the only one in the document.** -/
theorem document?_writeField {name : List Char} (hname : IsFieldName name) (text : List Char) :
    document? (writeField name text) = some (.mapping [(.scalar name, .scalar text)]) := by
  rw [document?, scan_writeField hname text]
  rfl

end GoOutline.Yaml
