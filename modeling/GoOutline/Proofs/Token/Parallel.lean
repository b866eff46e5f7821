import GoOutline.Proofs.Token.Boundary

/-!
# A text with a comment and with a space

The tokens of a text stay the same if one of its comments is replaced by a space.

* `IsBlanked`, `Parallel`: two texts that go on alike, the one with a comment and the other with a space
  for it.
* `BlankedAfter`: the same after a token; if the token opens a string, from the end of it on.
* `NextAlike`, `nextToken_blank`: the next token is the comment that was replaced, or the same in both.
* `found_scan_skip`: what is skipped before a token.
* `found_scan_blank`: a scan finds the comment that was replaced, or the same token in both texts.
-/

namespace GoOutline.Token

open GoOutline.Grammar

/-! ### Plain characters -/

/-- Where nothing opens, each character is a piece. -/
theorem pieces_append_of_plain {cs : List Char} (h : ∀ x ∈ boundaries, x ∉ cs) (rest : List Char) :
    pieces (cs ++ rest) = cs.map .char ++ pieces rest := by
  induction cs with
  | nil => rfl
  | cons c cs ih =>
    have hc : ∀ x ∈ boundaries, x ≠ c := fun x hx hxc => h x hx (hxc ▸ List.mem_cons_self)
    have hopens : opensLiteral c = false := by
      simp [opensLiteral, (hc '"' (by decide)).symm, (hc '`' (by decide)).symm,
        (hc '\'' (by decide)).symm]
    rw [List.cons_append, pieces_cons (comment?_eq_none_of_ne (hc '/' (by decide)).symm _) hopens,
      ih fun x hx hmem => h x hx (List.mem_cons_of_mem c hmem)]
    rfl

theorem not_isBlank_of_opensLiteral {c : Char} (h : isBlank c) : opensLiteral c = false := by
  by_contra hopens
  simp only [Bool.not_eq_false, opensLiteral, Bool.or_eq_true, beq_iff_eq] at hopens
  rcases hopens with (rfl | rfl) | rfl <;> cases h

/-- White space before a comment is cut into characters. -/
theorem pieces_dropWhile {p : Char → Bool} (hp : ∀ d, p d → isBlank d) {text c : List Char}
    {before after : List Piece} (h : pieces text = before ++ .comment c :: after) :
    ∃ before', before = (text.takeWhile p).map .char ++ before' ∧
      pieces (text.dropWhile p) = before' ++ .comment c :: after := by
  have hcut : pieces text = (text.takeWhile p).map .char ++ pieces (text.dropWhile p) := by
    clear h
    induction text with
    | nil => rfl
    | cons d text ih =>
      cases hd : p d with
      | false =>
        rw [List.takeWhile_cons_of_neg (by simp [hd]), List.dropWhile_cons_of_neg (by simp [hd])]
        rfl
      | true =>
        have hblank := hp d hd
        rw [List.takeWhile_cons_of_pos hd, List.dropWhile_cons_of_pos hd, pieces_cons _
          (not_isBlank_of_opensLiteral hblank), ih]
        · rfl
        · exact comment?_eq_none_of_ne (by rintro rfl; cases hblank) text
  rw [hcut] at h
  exact exists_append_of_map_char h

theorem drop_length_takeWhile (p : Char → Bool) (text : List Char) :
    text.drop (text.takeWhile p).length = text.dropWhile p := by
  conv_lhs => enter [2]; rw [← List.takeWhile_append_dropWhile (p := p) (l := text)]
  exact List.drop_left

/-- What comes before the comment begins with the same character as the text. -/
theorem exists_cons_of_pieces {text c : List Char} {p : Piece} {before after : List Piece}
    (h : pieces text = p :: before ++ .comment c :: after) :
    ∃ d rest rest', text = d :: rest ∧ ∀ y, sourceOf (p :: before) ++ y = d :: (rest' ++ y) := by
  obtain ⟨d, cs, hcs⟩ : ∃ d cs, p.chars = d :: cs := by
    cases p with
    | char d => exact ⟨d, [], rfl⟩
    | comment e =>
      have he : .comment e ∈ pieces text := by simp [h]
      cases e with
      | nil => cases (isComment_of_mem_pieces he).head?
      | cons d e => exact ⟨d, e, rfl⟩
  have htext : text = d :: (cs ++ sourceOf (before ++ .comment c :: after)) := by
    rw [← sourceOf_pieces text, h, List.cons_append, sourceOf_cons, hcs, List.cons_append]
  refine ⟨d, _, cs ++ sourceOf before, htext, fun y => ?_⟩
  rw [sourceOf_cons, hcs, List.cons_append, List.cons_append]

/-- White space at the start of a text is the same if a comment farther on is replaced. -/
theorem takeWhile_blank {p : Char → Bool} {text c y : List Char}
    {before before' after : List Piece} (hbefore : before = (text.takeWhile p).map .char ++ before')
    (h : pieces (text.dropWhile p) = before' ++ .comment c :: after)
    (hstop : before' ≠ [] ∨ y.takeWhile p = []) :
    (sourceOf before ++ y).takeWhile p = text.takeWhile p ∧
      (sourceOf before ++ y).dropWhile p = sourceOf before' ++ y := by
  have hpos : ∀ d ∈ text.takeWhile p, p d = true := List.all_eq_true.mp List.all_takeWhile
  have hhere : (sourceOf before' ++ y).takeWhile p = [] ∧
      (sourceOf before' ++ y).dropWhile p = sourceOf before' ++ y := by
    cases before' with
    | nil =>
      have hy := hstop.resolve_left (by simp)
      have happend := List.takeWhile_append_dropWhile (p := p) (l := y)
      rw [hy] at happend
      exact ⟨hy, happend⟩
    | cons q before' =>
      obtain ⟨d, rest, rest', htext, hsource⟩ := exists_cons_of_pieces h
      have hnot : p d = false := by
        have := List.head?_dropWhile_not p text
        rw [htext] at this
        simpa using this
      rw [hsource]
      exact ⟨List.takeWhile_cons_of_neg (by simp [hnot]), List.dropWhile_cons_of_neg (by simp [hnot])⟩
  rw [hbefore, sourceOf_append, sourceOf_map_char, List.append_assoc,
    List.takeWhile_append_of_pos hpos, List.dropWhile_append_of_pos hpos, hhere.1, hhere.2]
  exact ⟨List.append_nil _, rfl⟩

/-! ### Texts in parallel -/

/-- The second text has a space in the place of the comment `c` of the first, before `after`. -/
def IsBlanked (c after text text' : List Char) : Prop :=
  ∃ ps qs, pieces text = ps ++ .comment c :: qs ∧ sourceOf qs = after ∧
    text' = sourceOf ps ++ ' ' :: after

theorem IsBlanked.of_pieces {c text : List Char} {ps qs : List Piece}
    (h : pieces text = ps ++ .comment c :: qs) :
    IsBlanked c (sourceOf qs) text (sourceOf ps ++ ' ' :: sourceOf qs) :=
  ⟨ps, qs, h, rfl, rfl⟩

/-- Two texts that go on alike: a comment is still to come that is a space in the second text, or both
are past it. -/
def Parallel (c after text text' : List Char) : Prop :=
  IsBlanked c after text text' ∨ text = text' ∧ text.length ≤ after.length

theorem Parallel.past {c after text part rest : List Char} (h : text.length ≤ after.length)
    (htext : text = part ++ rest) : Parallel c after rest rest := by
  refine .inr ⟨rfl, ?_⟩
  rw [htext, List.length_append] at h
  omega

/-- Splits a text after the string that a token opens. Most tokens open none. -/
def closing? (t : Terminal) (text : List Char) : Option Split :=
  match t with
  | .quote => closeQuoted? text
  | .backquote => upTo? '`' text
  | _ => some ⟨[], text⟩

/-- A comment after a token is a space in the second text; if the token opens a string, the comment
comes after the string. -/
def BlankedAfter (c after : List Char) (t : Terminal) (text text' : List Char) : Prop :=
  ∃ part rest rest', text = part ++ rest ∧ text' = part ++ rest' ∧
    closing? t text = some ⟨part, rest⟩ ∧ IsBlanked c after rest rest'

theorem closing?_of_ne {t : Terminal} (hquote : t ≠ .quote) (hback : t ≠ .backquote)
    (text : List Char) : closing? t text = some ⟨[], text⟩ := by
  unfold closing?
  split
  · exact absurd rfl hquote
  · exact absurd rfl hback
  · rfl

theorem IsBlanked.blankedAfter {c after : List Char} {t : Terminal} {text text' : List Char}
    (h : IsBlanked c after text text') (hquote : t ≠ .quote) (hback : t ≠ .backquote) :
    BlankedAfter c after t text text' :=
  ⟨[], text, text', rfl, rfl, closing?_of_ne hquote hback text, h⟩

theorem BlankedAfter.isBlanked {c after : List Char} {t : Terminal} {text text' : List Char}
    (h : BlankedAfter c after t text text') (hquote : t ≠ .quote) (hback : t ≠ .backquote) :
    IsBlanked c after text text' := by
  obtain ⟨part, rest, rest', -, rfl, hclosing, hblanked⟩ := h
  rw [closing?_of_ne hquote hback] at hclosing
  cases hclosing
  exact hblanked

theorem head_of_accepts_quote {c : Char} {w : List Char}
    (h : Terminal.quote.pattern.accepts (c :: w)) : c = '"' := by
  have := Pattern.accepts_text_iff.mp h
  exact (List.cons.inj this).1

theorem head_of_accepts_backquote {c : Char} {w : List Char}
    (h : Terminal.backquote.pattern.accepts (c :: w)) : c = '`' := by
  have := Pattern.accepts_text_iff.mp h
  exact (List.cons.inj this).1

/-- The token at the start of a string opens it. -/
theorem closing?_of_literal? {t : Terminal} (ht : isCodeToken t) {q : Char} (hq : q ≠ '\'')
    (haccepts : t.pattern.accepts [q]) {part rest : List Char} {s : Split}
    (hs : literal? (q :: rest) = some s) (hpart : s.part = q :: part) :
    closing? t rest = some ⟨part, s.rest⟩ := by
  have hall : (Terminal.all.all fun t => !isCodeToken t || (!t.pattern.accepts ['"'] || t == .quote) &&
      (!t.pattern.accepts ['`'] || t == .backquote)) = true := by decide
  have hquote := List.all_eq_true.mp hall t (mem_all t)
  rw [ht, Bool.not_true, Bool.false_or, Bool.and_eq_true, Bool.or_eq_true, Bool.or_eq_true,
    beq_iff_eq, beq_iff_eq] at hquote
  have hafter : ∀ {o : Option Split}, o.map (.after [q]) = some s → o = some ⟨part, s.rest⟩ := by
    intro o ho
    obtain ⟨r, hr, rfl⟩ := Option.map_eq_some_iff.mp ho
    rw [hr]
    have := (List.cons.inj hpart).2
    rw [← this]
    rfl
  unfold literal? at hs
  split at hs
  · next heq =>
    cases heq
    obtain rfl := hquote.1.resolve_left (by simp [haccepts])
    exact hafter hs
  · next heq =>
    cases heq
    obtain rfl := hquote.2.resolve_left (by simp [haccepts])
    exact hafter hs
  · next heq => exact absurd (List.cons.inj heq).1 hq
  · next heq => exact absurd (List.cons.inj heq).1 hq
  · cases hs

theorem space_of_nextToken {set : Nat} {space text : List Char} {s : Scanned}
    (h : nextToken set space text = some s) : s.space = space := by
  unfold nextToken at h
  split at h
  · obtain ⟨t, -, rfl⟩ := Option.map_eq_some_iff.mp h
    rfl
  · split at h
    · cases h
      rfl
    · obtain ⟨q, -, rfl⟩ := Option.map_eq_some_iff.mp h
      rfl

/-! ### The next token -/

/-- The next token of two texts is the same, and after it they go on alike. -/
def NextAlike (set : Nat) (c after space text text' : List Char) : Prop :=
  nextToken set space text' = nextToken set space text ∧
    ∀ found ∈ nextToken set space text, BlankedAfter c after found.token
      (text.drop found.text.length) (text'.drop found.text.length)

theorem ne_quotes_of_accepts {t : Terminal} {f : Char} {v : List Char}
    (h : t.pattern.accepts (f :: v)) (hquote : f ≠ '"') (hback : f ≠ '`') :
    t ≠ .quote ∧ t ≠ .backquote := by
  constructor
  · rintro rfl
    exact hquote (head_of_accepts_quote h)
  · rintro rfl
    exact hback (head_of_accepts_backquote h)

theorem nextToken_break {set : Nat} {rest c : List Char} {ps qs : List Piece}
    (hrest : pieces rest = ps ++ .comment c :: qs) (space : List Char) :
    NextAlike set c (sourceOf qs) space ('\n' :: rest)
      ('\n' :: (sourceOf ps ++ ' ' :: sourceOf qs)) := by
  have hblank : ∀ d, decide (d = '\n') = true → isBlank d := by
    intro d hd
    rw [of_decide_eq_true hd]
    decide
  obtain ⟨ps', hps, hmore⟩ := pieces_dropWhile hblank hrest
  have hstop : ps' ≠ [] ∨ (' ' :: sourceOf qs).takeWhile (· = '\n') = [] := .inr rfl
  obtain ⟨htake, hdrop⟩ := takeWhile_blank hps hmore hstop
  unfold NextAlike
  rw [nextToken, if_pos rfl, nextToken, if_pos rfl, htake]
  refine ⟨rfl, fun found hfound => ?_⟩
  cases hfound
  rw [List.length_cons, List.drop_succ_cons, List.drop_succ_cons]
  have hthere := drop_length_takeWhile (· = '\n') (sourceOf ps ++ ' ' :: sourceOf qs)
  rw [htake, hdrop] at hthere
  rw [hthere, drop_length_takeWhile]
  exact (IsBlanked.of_pieces hmore).blankedAfter (by simp) (by simp)

section

variable {set : Nat} (hset : IsCodeSet set)

include hset

theorem nextToken_of_comment? {c : Char} {text : List Char} {s : Split}
    (h : comment? (c :: text) = some s) (space : List Char) :
    nextToken set space (c :: text) = some ⟨.comment, space, s.part⟩ := by
  obtain rfl : c = '/' := by simpa using head?_of_comment? h
  rw [nextToken, if_neg (by decide), longest_of_comment? hset.isCode _ h]
  · rfl
  · exact mem_tokensIn.mpr ⟨hset.comment, by decide⟩

/-- A token ends before a space, a comment or a literal, if it is none itself. -/
theorem longest_append_boundary {f x : Char} (hf : f ≠ '\'') (hx : x ∈ boundaries)
    {part rest : List Char} (h : comment? (f :: (part ++ x :: rest)) = none) :
    longest (tokensIn set) [f] (part ++ x :: rest) = longest (tokensIn set) [f] part := by
  refine longest_append fun v hv hrest => matching_eq_none_iff.mpr fun t ht => ?_
  by_contra haccepts
  rw [Bool.not_eq_false] at haccepts
  obtain ⟨e, v, rfl⟩ := List.exists_cons_of_ne_nil hv
  obtain ⟨rfl, tail, rfl⟩ := List.cons_prefix_cons.mp hrest
  obtain rfl := eq_comment_of_accepts hset.isCode ht hf haccepts hx (by simp)
  have hcomment := comment?_append_ne_none (accepts_commentText_iff.mp haccepts) tail
  exact hcomment (by simpa using h)

/-- A token that is neither a comment nor a literal is cut into characters. -/
theorem not_mem_of_longest {f : Char} (hf : opensLiteral f = false) {text rest v : List Char}
    {t : Terminal} (h : longest (tokensIn set) [f] text = some (t, [f] ++ v)) (hv : v <+: rest)
    (hnone : comment? (f :: rest) = none) : ∀ x ∈ boundaries, x ∉ v := by
  intro x hx hmem
  obtain ⟨ht, haccepts⟩ := of_matching (of_longest h).1
  have hquote : f ≠ '\'' := by rintro rfl; cases hf
  obtain rfl := eq_comment_of_accepts hset.isCode ht hquote haccepts hx hmem
  obtain ⟨tail, rfl⟩ := hv
  exact comment?_append_ne_none (accepts_commentText_iff.mp haccepts) tail hnone

/-- The text after a token that was found, as the token itself is found. -/
theorem nextToken_literal {q : Char} {rest : List Char} {s : Split} {ps qs : List Piece}
    {c : List Char} (hq : opensLiteral q) (hs : literal? (q :: rest) = some s)
    (hrest : pieces s.rest = ps ++ .comment c :: qs) (space : List Char) :
    ∃ rest', s.part ++ (sourceOf ps ++ ' ' :: sourceOf qs) = q :: rest' ∧
      NextAlike set c (sourceOf qs) space (q :: rest) (q :: rest') := by
  obtain ⟨part, hpart⟩ := exists_cons_of_literal? hs
  have hwhole := (isOf_of_literal? hs).2
  rw [hpart, List.cons_append] at hwhole
  obtain ⟨-, rfl⟩ := List.cons.inj hwhole
  have hagain := literal?_append hs (sourceOf ps ++ ' ' :: sourceOf qs)
  have hblanked := IsBlanked.of_pieces hrest
  have hbreak : q ≠ '\n' := by rintro rfl; cases hq
  refine ⟨part ++ (sourceOf ps ++ ' ' :: sourceOf qs), by rw [hpart, List.cons_append], ?_⟩
  rw [hpart, List.cons_append] at hagain
  unfold NextAlike
  by_cases hrune : q = '\''
  · subst hrune
    rw [nextToken, nextToken, if_neg hbreak, if_neg hbreak, longest_of_literal? hset.isCode hs,
      longest_of_literal? hset.isCode hagain, hpart]
    refine ⟨rfl, fun found hfound => ?_⟩
    obtain ⟨w, hw, rfl⟩ := Option.map_eq_some_iff.mp hfound
    obtain ⟨t, ht, rfl⟩ := Option.map_eq_some_iff.mp hw
    have haccepts := (of_matching ht).2
    have hdrop : ∀ more, ('\'' :: (part ++ more)).drop ('\'' :: part).length = more := fun more =>
      List.drop_left
    rw [hdrop, hdrop]
    obtain ⟨hquote, hback⟩ := ne_quotes_of_accepts haccepts (by decide) (by decide)
    exact hblanked.blankedAfter hquote hback
  · have hquote : q = '"' ∨ q = '`' := by
      simpa [opensLiteral, hrune] using hq
    rw [nextToken, nextToken, if_neg hbreak, if_neg hbreak, longest_of_quote hset.isCode hquote,
      longest_of_quote hset.isCode hquote]
    refine ⟨rfl, fun found hfound => ?_⟩
    obtain ⟨w, hw, rfl⟩ := Option.map_eq_some_iff.mp hfound
    obtain ⟨t, ht, rfl⟩ := Option.map_eq_some_iff.mp hw
    obtain ⟨hmem, haccepts⟩ := of_matching ht
    refine ⟨part, s.rest, _, rfl, rfl, ?_, hblanked⟩
    exact closing?_of_literal? (hset.isCode t hmem) hrune haccepts hs hpart

theorem nextToken_plain {f : Char} (hf : opensLiteral f = false) (hbreak : f ≠ '\n')
    {rest c : List Char} {ps qs : List Piece} (hrest : pieces rest = ps ++ .comment c :: qs)
    (hnone : comment? (f :: rest) = none) (space : List Char) :
    NextAlike set c (sourceOf qs) space (f :: rest) (f :: (sourceOf ps ++ ' ' :: sourceOf qs)) := by
  have hsource : rest = sourceOf ps ++ (c ++ sourceOf qs) := by
    rw [← sourceOf_pieces rest, hrest]
    exact sourceOf_append ps _
  obtain ⟨c', hc⟩ : ∃ c', c = '/' :: c' := by
    have hmem : Piece.comment c ∈ pieces rest := by simp [hrest]
    cases c with
    | nil => cases (isComment_of_mem_pieces hmem).head?
    | cons d c => exact ⟨c, by simpa using (isComment_of_mem_pieces hmem).head?⟩
  have hquote : f ≠ '\'' := by rintro rfl; cases hf
  have hlong : longest (tokensIn set) [f] rest = longest (tokensIn set) [f] (sourceOf ps) := by
    rw [hsource, hc] at hnone ⊢
    exact longest_append_boundary hset hquote (by decide) hnone
  have hlong' : longest (tokensIn set) [f] (sourceOf ps ++ ' ' :: sourceOf qs) =
      longest (tokensIn set) [f] (sourceOf ps) :=
    longest_append_boundary hset hquote (by decide) (comment?_blank (hsource ▸ hnone))
  unfold NextAlike
  rw [nextToken, nextToken, if_neg hbreak, if_neg hbreak, hlong, hlong']
  refine ⟨rfl, fun found hfound => ?_⟩
  obtain ⟨⟨t, w⟩, hw, rfl⟩ := Option.map_eq_some_iff.mp hfound
  obtain ⟨hmatch, v, tail, rfl, htail⟩ := of_longest hw
  have hv : v <+: rest := by
    rw [hsource, htail, List.append_assoc]
    exact List.prefix_append v _
  have hplain := not_mem_of_longest hset hf hw hv hnone
  -- the characters of the token are pieces of their own
  obtain ⟨more, rfl⟩ := hv
  rw [pieces_append_of_plain hplain] at hrest
  obtain ⟨ps', rfl, hmore⟩ := exists_append_of_map_char hrest
  have hdrop : ∀ y, (f :: (v ++ y)).drop ([f] ++ v).length = y := fun y => List.drop_left
  rw [sourceOf_append, sourceOf_map_char, List.append_assoc, hdrop, hdrop]
  obtain ⟨hne, hback⟩ := ne_quotes_of_accepts (of_matching hmatch).2 (by rintro rfl; cases hf)
    (by rintro rfl; cases hf)
  exact (IsBlanked.of_pieces hmore).blankedAfter hne hback

/-- A comment before the one that is replaced stays as it is. -/
theorem nextToken_comment {f : Char} {rest : List Char} {s : Split} {ps qs : List Piece}
    {c : List Char} (hs : comment? (f :: rest) = some s)
    (hrest : pieces s.rest = ps ++ .comment c :: qs) (space : List Char) :
    ∃ rest', s.part ++ (sourceOf ps ++ ' ' :: sourceOf qs) = f :: rest' ∧
      NextAlike set c (sourceOf qs) space (f :: rest) (f :: rest') := by
  have hagain := comment?_append hs _ (head?_blank hrest)
  have hhere := nextToken_of_comment? hset hs space
  obtain ⟨part, hpart, -⟩ := exists_cons_of_comment? hs
  have hwhole := (isOf_of_comment? hs).2
  rw [hpart, List.cons_append] at hwhole
  obtain ⟨rfl, rfl⟩ := List.cons.inj hwhole
  rw [hpart, List.cons_append] at hagain
  refine ⟨part ++ (sourceOf ps ++ ' ' :: sourceOf qs), by rw [hpart, List.cons_append], ?_⟩
  unfold NextAlike
  rw [hhere, nextToken_of_comment? hset hagain space, hpart]
  refine ⟨rfl, fun found hfound => ?_⟩
  cases hfound
  have hdrop : ∀ y, ('/' :: (part ++ y)).drop ('/' :: part).length = y := fun y => List.drop_left
  rw [hdrop, hdrop]
  exact (IsBlanked.of_pieces hrest).blankedAfter (by simp) (by simp)

/-- The next token is the same if a comment farther on is replaced by a space. -/
theorem nextToken_blank {f : Char} (hf : isSkipped set f = false) {rest c : List Char}
    {ps qs : List Piece} (h : pieces (f :: rest) = ps ++ .comment c :: qs) (space : List Char) :
    (ps = [] ∧ nextToken set space (f :: rest) = some ⟨.comment, space, c⟩) ∨
      ∃ rest', sourceOf ps ++ ' ' :: sourceOf qs = f :: rest' ∧
        NextAlike set c (sourceOf qs) space (f :: rest) (f :: rest') := by
  cases hcomment : comment? (f :: rest) with
  | some s =>
    rw [pieces_of_comment? hcomment] at h
    cases ps with
    | nil =>
      obtain ⟨hs, -⟩ := List.cons.inj h
      cases hs
      exact .inl ⟨rfl, nextToken_of_comment? hset hcomment space⟩
    | cons p ps =>
      obtain ⟨rfl, hrest⟩ := List.cons.inj h
      rw [sourceOf_cons, Piece.chars, List.append_assoc]
      exact .inr (nextToken_comment hset hcomment hrest space)
  | none =>
    cases hopens : opensLiteral f with
    | true =>
      cases hs : literal? (f :: rest) with
      | none =>
        have hmem : .comment c ∈ pieces (f :: rest) := by simp [h]
        exact absurd hmem (not_mem_pieces_of_literal? hopens hs)
      | some s =>
        rw [pieces_of_literal? hopens hs] at h
        obtain ⟨ps', rfl, hrest⟩ := exists_append_of_map_char h
        rw [sourceOf_append, sourceOf_map_char, List.append_assoc]
        exact .inr (nextToken_literal hset hopens hs hrest space)
    | false =>
      rw [pieces_cons hcomment hopens] at h
      cases ps with
      | nil => cases h
      | cons p ps =>
        obtain ⟨rfl, hrest⟩ := List.cons.inj h
        refine .inr ⟨sourceOf ps ++ ' ' :: sourceOf qs, rfl, ?_⟩
        by_cases hbreak : f = '\n'
        · subst hbreak
          exact nextToken_break hrest space
        · exact nextToken_plain hset hopens hbreak hrest hcomment space

theorem found_scan_skip {sp : List Char} (hsp : ∀ d ∈ sp, isSkipped set d = true)
    (text : List Char) : (scan set (sp ++ text)).found =
      (scan set text).found.map fun s => { s with space := sp ++ s.space } := by
  rw [found_scan hset, found_scan hset, List.takeWhile_append_of_pos hsp,
    List.dropWhile_append_of_pos hsp]
  generalize text.takeWhile (isSkipped set) = space
  cases text.dropWhile (isSkipped set) with
  | nil => simp [nextToken, Function.comp_def]
  | cons c rest =>
    rw [nextToken, nextToken]
    split
    · rfl
    · simp [Function.comp_def]

/-- If a comment is replaced by a space, a scan finds the comment that was replaced, or the same as
before. -/
theorem found_scan_blank {text c : List Char} {ps qs : List Piece}
    (h : pieces text = ps ++ .comment c :: qs) :
    (∃ space, (∀ d ∈ space, isSkipped set d = true) ∧ ps = space.map .char ∧
        (scan set text).found = some ⟨.comment, space, c⟩) ∨
      (scan set (sourceOf ps ++ ' ' :: sourceOf qs)).found = (scan set text).found ∧
        ∀ s ∈ (scan set text).found, BlankedAfter c (sourceOf qs) s.token
          (text.drop (s.space.length + s.text.length))
          ((sourceOf ps ++ ' ' :: sourceOf qs).drop (s.space.length + s.text.length)) := by
  have hblank : ∀ d, isSkipped set d = true → isBlank d := fun d hd =>
    (Bool.and_eq_true_iff.mp hd).1
  obtain ⟨ps', hps, hmore⟩ := pieces_dropWhile hblank h
  obtain ⟨f, rest, hrest⟩ : ∃ f rest, text.dropWhile (isSkipped set) = f :: rest := by
    cases hdrop : text.dropWhile (isSkipped set) with
    | nil => rw [hdrop, pieces] at hmore; simp at hmore
    | cons f rest => exact ⟨f, rest, rfl⟩
  have hf : isSkipped set f = false := by
    have := List.head?_dropWhile_not (isSkipped set) text
    rw [hrest] at this
    simpa using this
  rw [found_scan hset text]
  rcases nextToken_blank hset hf (hrest ▸ hmore) (text.takeWhile (isSkipped set)) with
    ⟨rfl, hhere⟩ | ⟨rest', hrest', hsame, hnext⟩
  · refine .inl ⟨text.takeWhile (isSkipped set), List.all_eq_true.mp List.all_takeWhile, ?_, ?_⟩
    · rw [hps, List.append_nil]
    · rw [hrest, hhere]
  · right
    have hne : ps' ≠ [] ∨ (' ' :: sourceOf qs).takeWhile (isSkipped set) = [] := by
      left
      rintro rfl
      cases hrest'
      cases hf
    obtain ⟨htake, hdrop⟩ := takeWhile_blank hps hmore hne
    rw [found_scan hset, htake, hdrop, hrest', hrest, hsame]
    refine ⟨rfl, fun s hs => ?_⟩
    rw [space_of_nextToken hs, ← List.drop_drop, ← List.drop_drop, drop_length_takeWhile, ← htake,
      drop_length_takeWhile, hdrop, hrest, hrest']
    exact hnext s hs

end

end GoOutline.Token
