import GoOutline.Token.Literal
import GoOutline.Proofs.Token.Boundary

/-!
# Inside a string

* `IsQuoted`, `IsQuoted.step`: the rest of a string, and the ways in which it goes on.
* `IsQuoted.hasTokens`, `rawTokens_eq`: the tokens of a string do not depend on the text after it.
* `of_quotedTokens`, `of_rawTokens`: they are spelled as they should be, and are all of the text up to
  there.
-/

namespace GoOutline.Token

open GoOutline.Grammar

/-! ### The longest beginning -/

namespace Pattern

theorem longest?_nothing (text : List Char) : nothing.longest? text = none := by
  cases text <;> rfl

theorem of_longest? {p : Pattern} {cs w : List Char} (h : p.longest? cs = some w) :
    p.accepts w ∧ w <+: cs := by
  induction cs generalizing p w with
  | nil =>
    rw [longest?] at h
    split at h
    · next hdone => cases h; exact ⟨hdone, List.prefix_rfl⟩
    · cases h
  | cons c cs ih =>
    rw [longest?] at h
    split at h
    · cases h
    split at h
    · next v hv =>
      cases h
      obtain ⟨haccepts, hprefix⟩ := ih hv
      exact ⟨haccepts, List.cons_prefix_cons.mpr ⟨rfl, hprefix⟩⟩
    · split at h
      · next hdone => cases h; exact ⟨hdone, List.nil_prefix⟩
      · cases h

/-- What is matched ends before a character that the pattern does not have. -/
theorem longest?_append {p : Pattern} {x : Char} (hp : p.mayHave x = false) {cs : List Char}
    (hx : x ∈ cs) (rest : List Char) : p.longest? (cs ++ rest) = p.longest? cs := by
  induction cs generalizing p with
  | nil => cases hx
  | cons c cs ih =>
    have hafter : (p.after c).longest? (cs ++ rest) = (p.after c).longest? cs := by
      rcases List.mem_cons.mp hx with rfl | hx
      · rw [after_eq_nothing hp, longest?_nothing, longest?_nothing]
      · exact ih (mayHave_after c hp) hx
    rw [List.cons_append, longest?, longest?, hafter]

end Pattern

/-! ### Escapes -/

theorem mayHave_after_stringEscape {x : Char} (hx : isQuotedText x = false) (c : Char) :
    (stringEscape.after c).mayHave x = false := by
  have hfirst : ((Pattern.noneOf "xuU").after c).mayHave x = false := by
    rw [Pattern.noneOf, Pattern.after]
    split <;> rfl
  have hspecial : x = '"' ∨ x = '\n' ∨ x = '\\' := by
    simp only [isQuotedText, Bool.and_eq_false_iff, bne_eq_false_iff_eq] at hx
    tauto
  refine Pattern.mayHave_orElse hfirst (Pattern.mayHave_after c ?_)
  rcases hspecial with rfl | rfl | rfl <;> decide

theorem longest?_escape (c : Char) (text : List Char) :
    Terminal.escape.pattern.longest? ('\\' :: c :: text) =
      ((stringEscape.after c).longest? text).map fun w => '\\' :: c :: w := by
  have hafter : Terminal.escape.pattern.after '\\' = stringEscape := by decide
  rw [Pattern.longest?, hafter, Pattern.longest?]
  cases (stringEscape.after c).longest? text <;> rfl

/-! ### Strings and what follows them -/

/-- Whether some characters are a string after its first quote, up to the last one. -/
def IsQuoted (part : List Char) : Prop := closeQuoted? part = some ⟨part, []⟩

theorem closeQuoted?_append_text {run : List Char} (hrun : ∀ c ∈ run, isQuotedText c = true)
    (rest : List Char) : closeQuoted? (run ++ rest) = (closeQuoted? rest).map (.after run) := by
  induction run with
  | nil => exact Option.map_id'.symm
  | cons c run ih =>
    obtain ⟨hc, hrun⟩ := List.forall_mem_cons.mp hrun
    simp only [isQuotedText, Bool.and_eq_true, bne_iff_ne] at hc
    rw [List.cons_append, closeQuoted?.eq_5, ih hrun, Option.map_map]
    · rfl
    · rintro rfl
      exact hc.1.1 rfl
    · rintro _ _ rfl _
      exact hc.2 rfl
    · rintro rfl
      exact hc.1.2 rfl

/-- If a string goes on after some characters, so it does without them. -/
theorem isQuoted_of_map_after {run part : List Char} {o : Option Split}
    (h : o.map (Split.after run) = some ⟨run ++ part, []⟩) : o = some ⟨part, []⟩ := by
  obtain ⟨⟨q, rest⟩, rfl, hq⟩ := Option.map_eq_some_iff.mp h
  obtain ⟨hpart, rfl⟩ := Split.mk.inj hq
  obtain rfl := List.append_cancel_left hpart
  rfl

theorem IsQuoted.ne_nil {part : List Char} (h : IsQuoted part) : part ≠ [] :=
  (isOf_of_closeQuoted? h).1

/-- The ways in which a string may go on. -/
inductive IsQuoted.Step : List Char → Prop
  | close : Step ['"']
  | text {run part : List Char} (hne : run ≠ []) (hrun : ∀ c ∈ run, isQuotedText c = true)
      (hpart : IsQuoted part) (hstop : ∀ c ∈ part.head?, isQuotedText c = false) :
      Step (run ++ part)
  | escape (c : Char) {part : List Char} (hpart : IsQuoted part) : Step ('\\' :: c :: part)
  | comment {space part : List Char} {s : Split} (hspace : ∀ c ∈ space, isBlank c = true)
      (hs : comment? part = some s) (hpart : IsQuoted s.rest) :
      Step ('\n' :: (space ++ part))

theorem IsQuoted.step_of_text {c : Char} (hc : isQuotedText c) {rest : List Char}
    (h : IsQuoted (c :: rest)) : IsQuoted.Step (c :: rest) := by
  have hsplit : (c :: rest).takeWhile isQuotedText ++ (c :: rest).dropWhile isQuotedText =
      c :: rest := List.takeWhile_append_dropWhile
  have hrun : ∀ d ∈ (c :: rest).takeWhile isQuotedText, isQuotedText d = true :=
    List.all_eq_true.mp List.all_takeWhile
  have hpart : IsQuoted ((c :: rest).dropWhile isQuotedText) := by
    unfold IsQuoted at h
    rw [← hsplit, closeQuoted?_append_text hrun] at h
    exact isQuoted_of_map_after h
  rw [← hsplit]
  refine .text ?_ hrun hpart fun d hd => ?_
  · rw [List.takeWhile_cons_of_pos hc]
    rintro ⟨⟩
  · have := List.head?_dropWhile_not isQuotedText (c :: rest)
    rw [hd] at this
    simpa using this

theorem IsQuoted.step {part : List Char} (h : IsQuoted part) : IsQuoted.Step part := by
  have hquoted := h
  unfold IsQuoted at h
  fun_cases closeQuoted? part with
  | case1 => rw [closeQuoted?] at h; cases h
  | case2 rest =>
    rw [closeQuoted?] at h
    cases h
    exact .close
  | case3 c rest =>
    rw [closeQuoted?] at h
    exact .escape c (isQuoted_of_map_after h)
  | case4 rest s hs =>
    have hblank : ∀ c ∈ rest.takeWhile isBlank, isBlank c = true :=
      List.all_eq_true.mp List.all_takeWhile
    have hsplit : rest.takeWhile isBlank ++ rest.dropWhile isBlank = rest :=
      List.takeWhile_append_dropWhile
    have hrest : IsQuoted s.rest := by
      rw [closeQuoted?] at h
      split at h
      · next s' hs' =>
        cases hs'.symm.trans hs
        refine isQuoted_of_map_after (h.trans ?_)
        rw [List.cons_append, List.cons_append, List.append_assoc, (isOf_of_comment? hs).2, hsplit]
      · next hs' => cases hs'.symm.trans hs
    rw [← hsplit]
    exact .comment hblank hs hrest
  | case5 rest hs =>
    rw [closeQuoted?] at h
    split at h
    · next s' hs' => cases hs'.symm.trans hs
    · cases h
  | case6 c rest hquote hescape hbreak =>
    refine hquoted.step_of_text ?_
    have hback : c ≠ '\\' := by
      rintro rfl
      cases rest with
      | nil => rw [closeQuoted?.eq_5 _ _ hquote hescape hbreak, closeQuoted?] at h; cases h
      | cons d rest => exact hescape d rest rfl rfl
    have hne : c ≠ '"' ∧ c ≠ '\n' := ⟨fun hc => hquote hc, fun hc => hbreak hc⟩
    simp [isQuotedText, hback, hne]

theorem IsQuoted.mem {part : List Char} (h : IsQuoted part) : '"' ∈ part := by
  induction hn : part.length using Nat.strong_induction_on generalizing part with
  | h n ih =>
    cases h.step with
    | close => exact List.mem_singleton_self _
    | @text run part hne hrun hpart hstop =>
      have := List.length_pos_iff.mpr hne
      have hmem := ih part.length (by rw [← hn, List.length_append]; omega) hpart rfl
      exact List.mem_append_right run hmem
    | @escape c part hpart =>
      have hmem := ih part.length (by rw [← hn, List.length_cons, List.length_cons]; omega) hpart rfl
      simp [hmem]
    | @comment space part s hspace hs hpart =>
      have hlength := (isOf_of_comment? hs).length_lt
      have hmem := ih s.rest.length (by rw [← hn, List.length_cons, List.length_append]; omega)
        hpart rfl
      have hsub : s.rest ⊆ part := by
        rw [← (isOf_of_comment? hs).2]
        exact List.subset_append_right _ _
      simp [hsub hmem]

/-- What the tokens of a string come to, whatever the text after it. -/
def HasTokens (part : List Char) : Prop :=
  ∃ o : Option (List Scanned), ∀ fuel rest, part.length ≤ fuel →
    quotedTokens fuel (part ++ rest) = o.map (·, rest)

theorem hasTokens_of_token {part : List Char} {s : Scanned}
    (hs : ∀ rest, quotedToken? (s.space ++ (s.text ++ (part ++ rest))) = some s)
    (hclose : s.token ≠ .closingQuote) (hne : s.text ≠ []) (h : HasTokens part) :
    HasTokens (s.space ++ (s.text ++ part)) := by
  obtain ⟨o, ho⟩ := h
  refine ⟨o.map (s :: ·), fun fuel rest hfuel => ?_⟩
  have hpos := List.length_pos_iff.mpr hne
  rw [List.length_append, List.length_append] at hfuel
  obtain ⟨fuel, rfl⟩ : ∃ n, fuel = n + 1 := ⟨fuel - 1, by omega⟩
  have hdrop : (s.space ++ (s.text ++ (part ++ rest))).drop (s.space.length + s.text.length) =
      part ++ rest := by
    rw [← List.append_assoc, ← List.length_append]
    exact List.drop_left
  rw [List.append_assoc, List.append_assoc, quotedTokens, hs rest]
  simp only [Option.bind_eq_bind, Option.bind_some, if_neg hclose, hdrop]
  rw [ho fuel rest (by omega)]
  cases o <;> rfl

theorem hasTokens_of_none {part : List Char} (hne : part ≠ [])
    (hs : ∀ rest, quotedToken? (part ++ rest) = none) : HasTokens part := by
  refine ⟨none, fun fuel rest hfuel => ?_⟩
  have hpos := List.length_pos_iff.mpr hne
  obtain ⟨fuel, rfl⟩ : ∃ n, fuel = n + 1 := ⟨fuel - 1, by omega⟩
  rw [quotedTokens, hs rest]
  rfl

theorem quotedToken?_text {run part : List Char} (hne : run ≠ [])
    (hrun : ∀ c ∈ run, isQuotedText c = true) (hpart : part ≠ [])
    (hstop : ∀ c ∈ part.head?, isQuotedText c = false) :
    quotedToken? (run ++ part) = some ⟨.quotedText, [], run⟩ := by
  obtain ⟨c, run, rfl⟩ := List.exists_cons_of_ne_nil hne
  obtain ⟨d, part, rfl⟩ := List.exists_cons_of_ne_nil hpart
  have htake : (c :: run ++ d :: part).takeWhile isQuotedText = c :: run := by
    rw [List.takeWhile_append_of_pos hrun, List.takeWhile_cons_of_neg (by simp [hstop d rfl]),
      List.append_nil]
  have hc := hrun c List.mem_cons_self
  simp only [isQuotedText, Bool.and_eq_true, bne_iff_ne] at hc
  rw [List.cons_append, quotedToken?, if_neg hc.1.1, if_neg hc.2, if_neg hc.1.2,
    ← List.cons_append, htake]

theorem quotedToken?_comment {space part : List Char} {s : Split}
    (hspace : ∀ c ∈ space, isBlank c = true) (hs : comment? part = some s) :
    quotedToken? ('\n' :: (space ++ part)) = some ⟨.comment, '\n' :: space, s.part⟩ := by
  have hstop : part.takeWhile isBlank = [] ∧ part.dropWhile isBlank = part := by
    cases part with
    | nil => exact ⟨rfl, rfl⟩
    | cons d part =>
      obtain rfl : d = '/' := by simpa using head?_of_comment? hs
      exact ⟨rfl, rfl⟩
  rw [quotedToken?, if_neg (by decide), if_neg (by decide), if_pos rfl,
    List.takeWhile_append_of_pos hspace, List.dropWhile_append_of_pos hspace, hstop.1, hstop.2,
    List.append_nil, hs]
  rfl

/-- What an escape in a string comes to, whatever the text after the string. -/
theorem quotedToken?_escape {c : Char} {part : List Char} (hpart : IsQuoted part)
    (rest : List Char) : quotedToken? ('\\' :: c :: part ++ rest) =
      ((stringEscape.after c).longest? part).map fun w => ⟨.escape, [], '\\' :: c :: w⟩ := by
  rw [List.cons_append, List.cons_append, quotedToken?, if_neg (by decide), if_pos rfl,
    longest?_escape, Pattern.longest?_append (mayHave_after_stringEscape rfl c) hpart.mem,
    Option.map_map]
  rfl

theorem isQuoted_of_append_escape {c : Char} {w part : List Char}
    (hw : (stringEscape.after c).accepts w) (h : IsQuoted (w ++ part)) : IsQuoted part := by
  have hplain : ∀ x ∈ w, isQuotedText x = true := by
    intro x hx
    by_contra hspecial
    rw [Bool.not_eq_true] at hspecial
    exact Pattern.not_mem_of_accepts (mayHave_after_stringEscape hspecial c) hw hx
  unfold IsQuoted at h
  rw [closeQuoted?_append_text hplain] at h
  exact isQuoted_of_map_after h

/-- The tokens of a string do not depend on the text after it. -/
theorem IsQuoted.hasTokens {part : List Char} (h : IsQuoted part) : HasTokens part := by
  induction hn : part.length using Nat.strong_induction_on generalizing part with
  | h n ih =>
    cases h.step with
    | close =>
      refine ⟨some [⟨.closingQuote, [], ['"']⟩], fun fuel rest hfuel => ?_⟩
      obtain ⟨fuel, rfl⟩ : ∃ n, fuel = n + 1 := ⟨fuel - 1, by simp at hfuel; omega⟩
      rfl
    | @text run part hne hrun hpart hstop =>
      have := List.length_pos_iff.mpr hne
      have hmore := ih part.length (by rw [← hn, List.length_append]; omega) hpart rfl
      refine hasTokens_of_token (s := ⟨.quotedText, [], run⟩) (fun rest => ?_) (by simp) hne
        hmore
      obtain ⟨d, part, rfl⟩ := List.exists_cons_of_ne_nil hpart.ne_nil
      exact quotedToken?_text hne hrun (List.cons_ne_nil _ _) hstop
    | @escape c part hpart =>
      have hlong := quotedToken?_escape (c := c) hpart
      cases hw : (stringEscape.after c).longest? part with
      | none => exact hasTokens_of_none (List.cons_ne_nil _ _) fun rest => by rw [hlong, hw]; rfl
      | some w =>
        obtain ⟨haccepts, part, rfl⟩ := Pattern.of_longest? hw
        have hrest := isQuoted_of_append_escape haccepts hpart
        have hmore := ih part.length (by rw [← hn]; simp; omega) hrest rfl
        refine hasTokens_of_token (s := ⟨.escape, [], '\\' :: c :: w⟩) (fun rest => ?_) (by simp)
          (List.cons_ne_nil _ _) hmore
        have := hlong rest
        rw [hw] at this
        simpa using this
    | @comment space part s hspace hs hpart =>
      obtain ⟨hne, hwhole⟩ := isOf_of_comment? hs
      have hlength := (isOf_of_comment? hs).length_lt
      have hmore := ih s.rest.length (by rw [← hn, List.length_cons, List.length_append]; omega)
        hpart rfl
      rw [← hwhole]
      refine hasTokens_of_token (s := ⟨.comment, '\n' :: space, s.part⟩) (fun rest => ?_)
        (by simp) hne hmore
      refine quotedToken?_comment hspace (s := ⟨s.part, s.rest ++ rest⟩) ?_
      refine comment?_append hs _ fun hline c hc => hline c ?_
      obtain ⟨d, more, hd⟩ := List.exists_cons_of_ne_nil hpart.ne_nil
      rw [hd] at hc ⊢
      exact hc

/-! ### The tokens are the text -/

/-- The tokens that come inside a string. -/
def isStringToken (t : Terminal) : Bool :=
  t matches .quotedText | .escape | .comment | .closingQuote | .rawText | .backquote

/-- A token of a string as it should be. -/
structure Scanned.IsPart (s : Scanned) : Prop where
  token : isStringToken s.token
  space : ∀ c ∈ s.space, isBlank c = true
  text : s.token.pattern.accepts s.text

/-- The characters of some tokens. -/
def charsOf (parts : List Scanned) : List Char := parts.flatMap fun s => s.space ++ s.text

theorem accepts_quotedText {run : List Char} (hne : run ≠ [])
    (hrun : ∀ c ∈ run, isQuotedText c = true) : Terminal.quotedText.pattern.accepts run := by
  obtain ⟨c, run, rfl⟩ := List.exists_cons_of_ne_nil hne
  have hclass : ∀ d, isQuotedText d = true → (CharClass.except "\"\n\\".toList).has d := by
    intro d hd
    simp only [isQuotedText, Bool.and_eq_true, bne_iff_ne] at hd
    show (! ['"', '\n', '\\'].contains d) = true
    simp [hd]
  refine Pattern.accepts_seq_iff.mpr ⟨[c], run, rfl, ?_, ?_⟩
  · exact Pattern.accepts_char_iff.mpr ⟨c, rfl, hclass c (hrun c List.mem_cons_self)⟩
  · exact Pattern.accepts_many_char_iff.mpr fun d hd =>
      hclass d (hrun d (List.mem_cons_of_mem c hd))

theorem of_quotedToken? {text : List Char} {s : Scanned} (h : quotedToken? text = some s) :
    s.IsPart ∧ ∃ rest, text = s.space ++ s.text ++ rest := by
  cases text with
  | nil => cases h
  | cons c text =>
    rw [quotedToken?] at h
    split at h
    · next hc =>
      cases h
      exact ⟨⟨rfl, by simp, by rw [hc]; decide⟩, text, rfl⟩
    split at h
    · obtain ⟨w, hw, rfl⟩ := Option.map_eq_some_iff.mp h
      obtain ⟨haccepts, rest, hrest⟩ := Pattern.of_longest? hw
      exact ⟨⟨rfl, by simp, haccepts⟩, rest, hrest.symm⟩
    split at h
    · next hc =>
      obtain ⟨q, hq, rfl⟩ := Option.map_eq_some_iff.mp h
      have hpart := comment?_append_of_prefix hq List.nil_prefix
      rw [List.append_nil] at hpart
      refine ⟨⟨rfl, ?_, accepts_commentText_iff.mpr hpart⟩, q.rest, ?_⟩
      · intro d hd
        rcases List.mem_cons.mp hd with rfl | hd
        · rw [hc]; decide
        · exact List.all_eq_true.mp List.all_takeWhile d hd
      · show c :: text = c :: text.takeWhile isBlank ++ q.part ++ q.rest
        rw [List.append_assoc, (isOf_of_comment? hq).2, List.cons_append,
          List.takeWhile_append_dropWhile]
    · next hquote hback hbreak =>
      cases h
      have hc : isQuotedText c = true := by simp [isQuotedText, hquote, hback, hbreak]
      refine ⟨⟨rfl, by simp, ?_⟩, (c :: text).dropWhile isQuotedText, ?_⟩
      · exact accepts_quotedText (by rw [List.takeWhile_cons_of_pos hc]; rintro ⟨⟩)
          (List.all_eq_true.mp List.all_takeWhile)
      · exact List.takeWhile_append_dropWhile.symm

theorem of_quotedTokens {fuel : Nat} {text rest : List Char} {parts : List Scanned}
    (h : quotedTokens fuel text = some (parts, rest)) :
    text = charsOf parts ++ rest ∧ ∀ s ∈ parts, s.IsPart := by
  induction fuel generalizing text parts with
  | zero => cases h
  | succ fuel ih =>
    rw [quotedTokens] at h
    obtain ⟨s, hs, h⟩ := Option.bind_eq_some_iff.mp h
    obtain ⟨hpart, more, rfl⟩ := of_quotedToken? hs
    have hdrop : (s.space ++ s.text ++ more).drop (s.space.length + s.text.length) = more := by
      rw [← List.length_append]
      exact List.drop_left
    rw [hdrop] at h
    split at h
    · cases h
      exact ⟨by simp [charsOf], by simpa using hpart⟩
    · obtain ⟨⟨parts, rest⟩, hmore, h⟩ := Option.bind_eq_some_iff.mp h
      cases h
      obtain ⟨rfl, hall⟩ := ih hmore
      exact ⟨by simp [charsOf], by simpa using ⟨hpart, hall⟩⟩

theorem exists_append_of_upTo? {c : Char} {text : List Char} {s : Split}
    (h : upTo? c text = some s) : ∃ cs, s.part = cs ++ [c] ∧ c ∉ cs := by
  fun_induction upTo? c text generalizing s with
  | case1 => cases h
  | case2 => cases h; exact ⟨[], rfl, List.not_mem_nil⟩
  | case3 d tail hd ih =>
    obtain ⟨q, hq, rfl⟩ := Option.map_eq_some_iff.mp h
    obtain ⟨cs, hcs, hnot⟩ := ih hq
    refine ⟨d :: cs, by rw [Split.after, hcs]; rfl, ?_⟩
    simp [hnot, Ne.symm hd]

/-- The tokens of a raw string do not depend on the text after it. -/
theorem rawTokens_eq {text : List Char} {s : Split} (h : upTo? '`' text = some s) :
    ∃ parts, ∀ rest, rawTokens (s.part ++ rest) = some (parts, rest) := by
  obtain ⟨cs, hpart, hnot⟩ := exists_append_of_upTo? h
  refine ⟨[⟨.rawText, [], cs⟩, ⟨.backquote, [], ['`']⟩], fun rest => ?_⟩
  have hcs : ∀ c ∈ cs, decide (c ≠ '`') = true := by
    intro c hc
    exact decide_eq_true fun heq => hnot (heq ▸ hc)
  rw [hpart, List.append_assoc, List.singleton_append, rawTokens,
    List.dropWhile_append_of_pos hcs, List.takeWhile_append_of_pos hcs]
  simp

theorem of_rawTokens {text rest : List Char} {parts : List Scanned}
    (h : rawTokens text = some (parts, rest)) :
    text = charsOf parts ++ rest ∧ ∀ s ∈ parts, s.IsPart := by
  unfold rawTokens at h
  split at h
  · cases h
  · next c more hdrop =>
    cases h
    obtain rfl : c = '`' := by
      have := List.head?_dropWhile_not (· ≠ '`') text
      rw [hdrop] at this
      simpa using this
    refine ⟨?_, ?_⟩
    · have hsplit := List.takeWhile_append_dropWhile (p := (· ≠ '`')) (l := text)
      rw [hdrop] at hsplit
      simpa [charsOf] using hsplit.symm
    · have hraw : Scanned.IsPart ⟨.rawText, [], text.takeWhile (· ≠ '`')⟩ := by
        refine ⟨rfl, by simp, Pattern.accepts_many_char_iff.mpr fun d hd => ?_⟩
        have hne := List.all_eq_true.mp List.all_takeWhile d hd
        show (! ['`'].contains d) = true
        simpa using hne
      have hback : Scanned.IsPart ⟨.backquote, [], ['`']⟩ := ⟨rfl, by simp, by decide⟩
      exact List.forall_mem_cons.mpr ⟨hraw, List.forall_mem_singleton.mpr hback⟩

end GoOutline.Token
