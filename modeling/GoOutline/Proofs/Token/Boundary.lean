import GoOutline.Proofs.Token.Munch

/-!
# Where tokens end

* `not_mem_of_accepts_cons`: inside a token nothing else begins.
* `literal?_of_accepts`: what is spelled like a character literal is one.
* `longest_of_comment?`, `longest_of_quote`, `longest_of_literal?`: the longest token where a comment
  or a literal begins.
* `longest_append_boundary`: any other token ends where a space, a comment or a literal begins.
-/

namespace GoOutline.Token

open GoOutline.Grammar

/-! ### Characters inside a token -/

/-- Whether a character comes only at the start of a token, if at all. -/
def isOutside (t : Terminal) (x : Char) : Bool :=
  match t.pattern with
  | .text (_ :: cs) => !cs.contains x
  | p => !p.mayHave x

theorem mayHave_after_of_isOutside {t : Terminal} {x : Char} (h : isOutside t x) (c : Char) :
    (t.pattern.after c).mayHave x = false := by
  unfold isOutside at h
  split at h
  · next d cs hp =>
    rw [hp, Pattern.after]
    split
    · simpa [Pattern.mayHave] using h
    · rfl
  · exact Pattern.mayHave_after c (by simpa using h)

/-- The characters with which something else begins than the token before them. -/
def boundaries : List Char := [' ', '/', '"', '`', '\'']

theorem isOutside_of_mem_boundaries {t : Terminal} (ht : isCodeToken t) (hcomment : t ≠ .comment)
    (hrune : t ≠ .runeLiteral) {x : Char} (hx : x ∈ boundaries) : isOutside t x := by
  have hall : (Terminal.all.all fun t => !isCodeToken t || t == .comment || t == .runeLiteral ||
      boundaries.all (isOutside t)) = true := by decide
  have h := List.all_eq_true.mp hall t (mem_all t)
  simp only [ht, hcomment, hrune, Bool.not_true, Bool.false_or, beq_iff_eq, Bool.or_eq_true,
    false_or] at h
  exact List.all_eq_true.mp h x hx

/-- Inside a token that is neither a comment nor a character literal nothing else begins. -/
theorem not_mem_of_accepts_cons {t : Terminal} (ht : isCodeToken t) (hcomment : t ≠ .comment)
    (hrune : t ≠ .runeLiteral) {c x : Char} {w : List Char} (h : t.pattern.accepts (c :: w))
    (hx : x ∈ boundaries) : x ∉ w :=
  Pattern.not_mem_of_accepts
    (mayHave_after_of_isOutside (isOutside_of_mem_boundaries ht hcomment hrune hx) c) h

theorem head_of_accepts_comment {w : List Char} (h : Terminal.comment.pattern.accepts w) :
    w.head? = some '/' :=
  (accepts_commentText_iff.mp h).head?

/-! ### Character literals -/

theorem mayHave_after_runeEscape (c : Char) : (runeEscape.after c).mayHave '\'' = false := by
  have hlast : ((Pattern.oneOf "abfnrtv\\'\"").after c).mayHave '\'' = false := by
    rw [Pattern.oneOf, Pattern.after]
    split <;> rfl
  refine Pattern.mayHave_orElse (Pattern.mayHave_after c (by decide)) ?_
  refine Pattern.mayHave_orElse (Pattern.mayHave_after c (by decide)) ?_
  refine Pattern.mayHave_orElse (Pattern.mayHave_after c (by decide)) ?_
  exact Pattern.mayHave_orElse (Pattern.mayHave_after c (by decide)) hlast

theorem upTo?_append_cons {c : Char} {cs : List Char} (h : c ∉ cs) (rest : List Char) :
    upTo? c (cs ++ c :: rest) = some ⟨cs ++ [c], rest⟩ := by
  induction cs with
  | nil => simp [upTo?]
  | cons d cs ih =>
    obtain ⟨hd, hcs⟩ : c ≠ d ∧ c ∉ cs := by simpa using h
    rw [List.cons_append, upTo?, if_neg (Ne.symm hd), ih hcs]
    rfl

/-- A text that is spelled like a character literal is one literal. -/
theorem literal?_of_accepts {w : List Char} (h : Terminal.runeLiteral.pattern.accepts w)
    (rest : List Char) : literal? (w ++ rest) = some ⟨w, rest⟩ := by
  obtain ⟨u, v, rfl, hu, hv⟩ := Pattern.accepts_seq_iff.mp h
  obtain rfl := Pattern.accepts_text_iff.mp hu
  obtain ⟨u, v, rfl, hu, hv⟩ := Pattern.accepts_seq_iff.mp hv
  obtain rfl := Pattern.accepts_text_iff.mp hv
  rcases Pattern.accepts_alt_iff.mp hu with hu | hu
  · obtain ⟨c, rfl, hc⟩ := Pattern.accepts_char_iff.mp hu
    show literal? ('\'' :: c :: '\'' :: rest) = _
    rw [literal?]
    · rfl
    · rintro rfl
      cases hc
  · obtain ⟨u, e, rfl, hu, he⟩ := Pattern.accepts_seq_iff.mp hu
    obtain rfl := Pattern.accepts_text_iff.mp hu
    cases e with
    | nil => cases he
    | cons c e =>
      have hnot : '\'' ∉ e := Pattern.not_mem_of_accepts (mayHave_after_runeEscape c) he
      have hup := upTo?_append_cons hnot rest
      show literal? ('\'' :: '\\' :: c :: ((e ++ ['\'']) ++ rest)) = _
      rw [List.append_assoc, List.singleton_append, literal?, hup]
      rfl

theorem head_of_accepts_rune {c : Char} {w : List Char}
    (h : Terminal.runeLiteral.pattern.accepts (c :: w)) : c = '\'' := by
  obtain ⟨u, v, huv, hu, -⟩ := Pattern.accepts_seq_iff.mp h
  obtain rfl := Pattern.accepts_text_iff.mp hu
  exact (List.cons.inj huv).1

/-! ### Comments -/

theorem mem_of_closeComment? {text : List Char} {s : Split} (h : closeComment? text = some s) :
    '/' ∈ s.part := by
  fun_induction closeComment? text generalizing s with
  | case1 => cases h
  | case2 => cases h; simp
  | case3 c rest _ ih =>
    obtain ⟨q, hq, rfl⟩ := Option.map_eq_some_iff.mp h
    exact List.mem_append_right _ (ih hq)

/-- A comment has a second slash. -/
theorem exists_cons_of_comment? {text : List Char} {s : Split} (h : comment? text = some s) :
    ∃ part, s.part = '/' :: part ∧ '/' ∈ part := by
  fun_cases comment? text with
  | case1 rest =>
    rw [comment?] at h
    cases h
    exact ⟨_, rfl, List.mem_cons_self⟩
  | case2 rest =>
    rw [comment?] at h
    obtain ⟨q, hq, rfl⟩ := Option.map_eq_some_iff.mp h
    exact ⟨'*' :: q.part, rfl, List.mem_cons_of_mem _ (mem_of_closeComment? hq)⟩
  | case3 => simp_all [comment?]

/-- A comment is found before whatever follows it in the text. -/
theorem comment?_append_of_prefix {text v : List Char} {s : Split} (h : comment? text = some s)
    (hv : v <+: s.rest) : comment? (s.part ++ v) = some ⟨s.part, v⟩ := by
  refine comment?_append h v fun hline d hd => hline d ?_
  cases v with
  | nil => cases hd
  | cons e v =>
    obtain ⟨tail, htail⟩ := hv
    rw [← htail]
    exact hd

theorem comment?_append_ne_none {w : List Char} (h : IsComment w) (rest : List Char) :
    comment? (w ++ rest) ≠ none := by
  unfold IsComment at h
  fun_cases comment? w with
  | case1 tail => rintro ⟨⟩
  | case2 tail =>
    rw [comment?] at h
    obtain ⟨s, hs, heq⟩ := Option.map_eq_some_iff.mp h
    obtain ⟨hpart, hrest⟩ : s.part = tail ∧ s.rest = [] := by
      rw [Split.after, Split.mk.injEq] at heq
      simpa using heq
    have := closeComment?_append hs rest
    rw [hpart] at this
    rw [List.cons_append, List.cons_append, comment?, this]
    rintro ⟨⟩
  | case3 => simp_all [comment?]

section

variable {ts : List Terminal} (hts : ∀ t ∈ ts, isCodeToken t)

include hts

/-- Only a comment, or a character literal, has a slash after its first character. -/
theorem eq_comment_of_accepts {t : Terminal} (ht : t ∈ ts) {c : Char} {w : List Char}
    (hc : c ≠ '\'') (h : t.pattern.accepts (c :: w)) {x : Char} (hx : x ∈ boundaries) (hw : x ∈ w) :
    t = .comment := by
  by_contra hcomment
  by_cases hrune : t = .runeLiteral
  · subst hrune
    exact hc (head_of_accepts_rune h)
  · exact not_mem_of_accepts_cons (hts t ht) hcomment hrune h hx hw

/-- A comment is the longest token where one begins. -/
theorem longest_of_comment? (hcomment : .comment ∈ ts) {c : Char} {text : List Char} {s : Split}
    (h : comment? (c :: text) = some s) : longest ts [c] text = some (.comment, s.part) := by
  obtain ⟨part, hpart, hslash⟩ := exists_cons_of_comment? h
  have hwhole := (isOf_of_comment? h).2
  rw [hpart, List.cons_append] at hwhole
  obtain ⟨rfl, rfl⟩ := List.cons.inj hwhole
  -- only a comment has this slash
  have honly : ∀ v, ∀ t ∈ ts, t.pattern.accepts ('/' :: (part ++ v)) → t = .comment :=
    fun v t ht haccepts => eq_comment_of_accepts hts ht (by decide) haccepts
      (by decide : '/' ∈ boundaries) (List.mem_append_left v hslash)
  have hself : Terminal.comment.pattern.accepts ('/' :: part) := by
    refine accepts_commentText_iff.mpr ?_
    have := comment?_append_of_prefix h List.nil_prefix
    rwa [hpart, List.append_nil] at this
  have hmatch : matching ts (['/'] ++ part) = some .comment :=
    matching_eq_some hcomment hself fun t ht haccepts =>
      honly [] t ht (by rwa [List.append_nil])
  rw [longest_append, longest_self hmatch, hpart]
  · rfl
  -- nothing longer is a comment
  intro v hv hprefix
  rw [matching_eq_none_iff]
  intro t ht
  by_contra haccepts
  rw [Bool.not_eq_false] at haccepts
  obtain rfl := honly v t ht haccepts
  have hagain := comment?_append_of_prefix h hprefix
  rw [hpart] at hagain
  have hlong : comment? ('/' :: part ++ v) = some ⟨'/' :: part ++ v, []⟩ :=
    accepts_commentText_iff.mp haccepts
  exact hv (Split.mk.inj (Option.some.inj (hagain.symm.trans hlong))).2

/-- A quote is a token by itself. -/
theorem longest_of_quote {q : Char} (hq : q = '"' ∨ q = '`') (text : List Char) :
    longest ts [q] text = (matching ts [q]).map (·, [q]) := by
  refine longest_of_only [] fun v _ hmatch => ?_
  obtain ⟨t, ht⟩ := Option.ne_none_iff_exists'.mp hmatch
  obtain ⟨hmem, haccepts⟩ := of_matching ht
  have hall : (Terminal.all.all fun t => !isCodeToken t || ['"', '`'].all fun q =>
      (t.pattern.after q).isNothing || (t.pattern.after q) == .done) = true := by decide
  have hafter := List.all_eq_true.mp hall t (mem_all t)
  rw [hts t hmem, Bool.not_true, Bool.false_or, List.all_eq_true] at hafter
  have haccepts : (t.pattern.after q).accepts v := haccepts
  rcases Bool.or_eq_true_iff.mp (hafter q (by rcases hq with rfl | rfl <;> decide)) with h | h
  · rw [isNothing_iff.mp h, Pattern.accepts_nothing] at haccepts
    cases haccepts
  · rw [eq_of_beq h] at haccepts
    exact Pattern.accepts_text_iff.mp haccepts

/-- A character literal is the only token that can begin where it does. -/
theorem longest_of_literal? {text : List Char} {s : Split}
    (h : literal? ('\'' :: text) = some s) :
    longest ts ['\''] text = (matching ts s.part).map (·, s.part) := by
  obtain ⟨part, hpart⟩ := exists_cons_of_literal? h
  have hwhole := (isOf_of_literal? h).2
  rw [hpart, List.cons_append] at hwhole
  obtain ⟨-, rfl⟩ := List.cons.inj hwhole
  rw [hpart]
  refine longest_of_only part fun v hv hmatch => ?_
  obtain ⟨t, ht⟩ := Option.ne_none_iff_exists'.mp hmatch
  obtain ⟨hmem, haccepts⟩ := of_matching ht
  have hall : (Terminal.all.all fun t => !isCodeToken t || t == .runeLiteral ||
      (t.pattern.after '\'').isNothing) = true := by decide
  have hrune : t = .runeLiteral := by
    by_contra hne
    have hafter := List.all_eq_true.mp hall t (mem_all t)
    rw [hts t hmem, beq_eq_false_iff_ne.mpr hne] at hafter
    have haccepts : (t.pattern.after '\'').accepts v := haccepts
    rw [isNothing_iff.mp hafter, Pattern.accepts_nothing] at haccepts
    cases haccepts
  subst hrune
  obtain ⟨rest, hrest⟩ := hv
  have hagain := literal?_of_accepts haccepts rest
  rw [List.singleton_append, List.cons_append, hrest, h] at hagain
  have := congrArg Split.part (Option.some.inj hagain)
  rw [hpart] at this
  exact (List.cons.inj this).2.symm

end

end GoOutline.Token
