import GoOutline.Token.Comment

/-!
# Pieces of a text

* `sourceOf_pieces`: cutting a text into pieces keeps all its characters.
* `comment?_append`, `literal?_append`: a comment or a literal is found again before any other text.
* `comment?_blank`: a space in the place of some characters opens no comment.
* `pieces_blank`: if a comment is replaced by a space, all other pieces stay as they are.
-/

namespace GoOutline.Token

open GoOutline.Grammar (isBlank)

@[simp] theorem sourceOf_nil : sourceOf [] = [] := rfl

@[simp] theorem sourceOf_cons (p : Piece) (ps : List Piece) :
    sourceOf (p :: ps) = p.chars ++ sourceOf ps := rfl

@[simp] theorem sourceOf_append (ps qs : List Piece) :
    sourceOf (ps ++ qs) = sourceOf ps ++ sourceOf qs :=
  List.flatMap_append

@[simp] theorem sourceOf_map_char (cs : List Char) : sourceOf (cs.map .char) = cs := by
  induction cs with
  | nil => rfl
  | cons c cs ih => rw [List.map_cons, sourceOf_cons, ih]; rfl

/-- Cutting a text into pieces keeps all its characters. -/
theorem sourceOf_pieces (text : List Char) : sourceOf (pieces text) = text := by
  fun_induction pieces text with
  | case1 => rfl
  | case2 c rest s h ih =>
    rw [sourceOf_cons, ih]
    exact (isOf_of_comment? h).2
  | case3 c rest _ _ s h ih =>
    rw [sourceOf_append, sourceOf_map_char, ih]
    exact (isOf_of_literal? h).2
  | case4 c rest => exact sourceOf_map_char (c :: rest)
  | case5 c rest _ _ ih => rw [sourceOf_cons, ih]; rfl

/-! ### What follows does not matter -/

/-- The first character of a part that was split off is that of the whole text. -/
theorem Split.IsOf.head?_append {text : List Char} {s : Split} (h : s.IsOf text)
    (rest : List Char) : (s.part ++ rest).head? = text.head? := by
  obtain ⟨hne, rfl⟩ := h
  cases hpart : s.part with
  | nil => exact absurd hpart hne
  | cons c cs => rfl

theorem closeComment?_append {text : List Char} {s : Split} (h : closeComment? text = some s)
    (rest : List Char) : closeComment? (s.part ++ rest) = some ⟨s.part, rest⟩ := by
  fun_induction closeComment? text generalizing s with
  | case1 => cases h
  | case2 => cases h; rfl
  | case3 c tail hne ih =>
    obtain ⟨q, hq, rfl⟩ := Option.map_eq_some_iff.mp h
    have hhead := (isOf_of_closeComment? hq).head?_append rest
    rw [Split.after, List.singleton_append, List.cons_append, closeComment?.eq_3, ih hq]
    · rfl
    · rintro more rfl hmore
      rw [hmore] at hhead
      obtain ⟨tail', rfl⟩ : ∃ tail', tail = '/' :: tail' := by
        cases tail with
        | nil => cases hhead
        | cons d tail => cases hhead; exact ⟨tail, rfl⟩
      exact hne tail' rfl rfl

/-- A comment is found again before any other text, if a line comment still ends there. -/
theorem comment?_append {text : List Char} {s : Split} (h : comment? text = some s)
    (rest : List Char)
    (hrest : (∀ c ∈ s.rest.head?, c = '\n') → ∀ c ∈ rest.head?, c = '\n') :
    comment? (s.part ++ rest) = some ⟨s.part, rest⟩ := by
  fun_cases comment? text with
  | case1 tail =>
    rw [comment?] at h
    cases h
    have hpart : ∀ c ∈ tail.takeWhile (· ≠ '\n'), decide (c ≠ '\n') = true :=
      List.all_eq_true.mp List.all_takeWhile
    have hend : ∀ c ∈ (tail.dropWhile (· ≠ '\n')).head?, c = '\n' := by
      intro c hc
      have hnot := List.head?_dropWhile_not (fun d => decide (d ≠ '\n')) tail
      rw [hc] at hnot
      simpa using hnot
    have hstop : rest.takeWhile (· ≠ '\n') = [] ∧ rest.dropWhile (· ≠ '\n') = rest := by
      cases rest with
      | nil => exact ⟨rfl, rfl⟩
      | cons c rest =>
        obtain rfl := hrest hend c rfl
        exact ⟨rfl, rfl⟩
    rw [List.cons_append, List.cons_append, comment?, List.takeWhile_append_of_pos hpart,
      List.dropWhile_append_of_pos hpart, hstop.1, hstop.2, List.append_nil]
  | case2 tail =>
    rw [comment?] at h
    obtain ⟨q, hq, rfl⟩ := Option.map_eq_some_iff.mp h
    rw [Split.after, List.append_assoc, List.cons_append, List.cons_append, List.nil_append,
      comment?, closeComment?_append hq]
    rfl
  | case3 => simp_all [comment?]

theorem head?_of_comment? {text : List Char} {s : Split} (h : comment? text = some s) :
    text.head? = some '/' := by
  fun_cases comment? text with
  | case1 => rfl
  | case2 => rfl
  | case3 => simp_all [comment?]

theorem closeQuoted?_append {text : List Char} {s : Split} (h : closeQuoted? text = some s)
    (rest : List Char) : closeQuoted? (s.part ++ rest) = some ⟨s.part, rest⟩ := by
  fun_induction closeQuoted? text generalizing s with
  | case1 => cases h
  | case2 => cases h; rw [List.singleton_append, closeQuoted?]
  | case3 c tail ih =>
    obtain ⟨q, hq, rfl⟩ := Option.map_eq_some_iff.mp h
    rw [Split.after, List.append_assoc, List.cons_append, List.singleton_append, closeQuoted?, ih hq]
    rfl
  | case4 tail q hcomment ih =>
    obtain ⟨r, hr, rfl⟩ := Option.map_eq_some_iff.mp h
    have hblank : ∀ c ∈ tail.takeWhile isBlank, isBlank c = true :=
      List.all_eq_true.mp List.all_takeWhile
    have hslash : (q.part ++ (r.part ++ rest)).head? = some '/' := by
      rw [(isOf_of_comment? hcomment).head?_append, head?_of_comment? hcomment]
    have hstop : (q.part ++ (r.part ++ rest)).takeWhile isBlank = [] ∧
        (q.part ++ (r.part ++ rest)).dropWhile isBlank = q.part ++ (r.part ++ rest) := by
      cases hcs : q.part ++ (r.part ++ rest) with
      | nil => simp [hcs] at hslash
      | cons c cs =>
        obtain rfl : c = '/' := by simpa [hcs] using hslash
        exact ⟨rfl, rfl⟩
    have hagain : comment? (q.part ++ (r.part ++ rest)) = some ⟨q.part, r.part ++ rest⟩ :=
      comment?_append hcomment (r.part ++ rest) fun hend c hc =>
        hend c (by rwa [← (isOf_of_closeQuoted? hr).head?_append rest])
    rw [Split.after, List.append_assoc, List.append_assoc, List.cons_append, closeQuoted?,
      List.dropWhile_append_of_pos hblank, List.takeWhile_append_of_pos hblank, hstop.1, hstop.2,
      List.append_nil]
    split
    · next s hs =>
      cases hs.symm.trans hagain
      rw [ih hr]
      rfl
    · next hnone => cases hnone.symm.trans hagain
  | case5 => cases h
  | case6 c tail hquote hescape hbreak ih =>
    obtain ⟨q, hq, rfl⟩ := Option.map_eq_some_iff.mp h
    rw [Split.after, List.singleton_append, List.cons_append, closeQuoted?.eq_5, ih hq]
    · rfl
    · exact hquote
    · rintro d more rfl -
      cases tail with
      | nil => rw [closeQuoted?] at hq; cases hq
      | cons e tail => exact hescape e tail rfl rfl
    · exact hbreak

theorem upTo?_append {c : Char} {text : List Char} {s : Split} (h : upTo? c text = some s)
    (rest : List Char) : upTo? c (s.part ++ rest) = some ⟨s.part, rest⟩ := by
  fun_induction upTo? c text generalizing s with
  | case1 => cases h
  | case2 tail => cases h; simp [upTo?]
  | case3 d tail hd ih =>
    obtain ⟨q, hq, rfl⟩ := Option.map_eq_some_iff.mp h
    rw [Split.after, List.singleton_append, List.cons_append, upTo?, if_neg hd, ih hq]
    rfl

theorem literal?_append {text : List Char} {s : Split} (h : literal? text = some s)
    (rest : List Char) : literal? (s.part ++ rest) = some ⟨s.part, rest⟩ := by
  unfold literal? at h
  split at h
  · obtain ⟨q, hq, rfl⟩ := Option.map_eq_some_iff.mp h
    rw [Split.after, List.singleton_append, List.cons_append, literal?, closeQuoted?_append hq]
    rfl
  · obtain ⟨q, hq, rfl⟩ := Option.map_eq_some_iff.mp h
    rw [Split.after, List.singleton_append, List.cons_append, literal?, upTo?_append hq]
    rfl
  · obtain ⟨q, hq, rfl⟩ := Option.map_eq_some_iff.mp h
    simp only [Split.after, List.cons_append, List.nil_append]
    rw [literal?, upTo?_append hq]
    rfl
  · next c tail hc =>
    cases h
    simp only [List.cons_append, List.nil_append]
    rw [literal?]
    exact hc
  · cases h

/-! ### Comments -/

/-- Whether some characters are one whole comment. -/
def IsComment (c : List Char) : Prop := comment? c = some ⟨c, []⟩

theorem IsComment.head? {c : List Char} (h : IsComment c) : c.head? = some '/' :=
  head?_of_comment? h

/-- What is cut out of a text as a comment is a comment. -/
theorem isComment_of_mem_pieces {text c : List Char} (h : .comment c ∈ pieces text) :
    IsComment c := by
  fun_induction pieces text with
  | case1 => cases h
  | case2 d rest s hs ih =>
    rcases List.mem_cons.mp h with hc | h
    · cases hc
      simpa [IsComment] using comment?_append hs [] (by simp)
    · exact ih h
  | case3 d rest _ _ s hs ih =>
    rcases List.mem_append.mp h with h | h
    · simp at h
    · exact ih h
  | case4 d rest => simp at h
  | case5 d rest _ _ ih => exact ih (by simpa using h)

/-! ### A comment and a space -/

theorem pieces_of_comment? {text : List Char} {s : Split} (h : comment? text = some s) :
    pieces text = .comment s.part :: pieces s.rest := by
  cases text with
  | nil => cases h
  | cons c text =>
    rw [pieces]
    split
    · next s' hs' => cases hs'.symm.trans h; rfl
    · next hnone => cases hnone.symm.trans h

theorem pieces_cons {c : Char} {text : List Char} (hcomment : comment? (c :: text) = none)
    (hliteral : opensLiteral c = false) : pieces (c :: text) = .char c :: pieces text := by
  rw [pieces]
  split
  · next s hs => cases hs.symm.trans hcomment
  · rw [if_neg (by simp [hliteral])]

theorem comment?_eq_none_of_ne {c : Char} (hc : c ≠ '/') (text : List Char) :
    comment? (c :: text) = none := by
  rw [comment?.eq_3]
  · intro rest h
    exact hc (List.cons.inj h).1
  · intro rest h
    exact hc (List.cons.inj h).1

theorem pieces_of_literal? {c : Char} {text : List Char} {s : Split} (hc : opensLiteral c)
    (h : literal? (c :: text) = some s) :
    pieces (c :: text) = s.part.map .char ++ pieces s.rest := by
  have hcomment : comment? (c :: text) = none :=
    comment?_eq_none_of_ne (by rintro rfl; cases hc) text
  rw [pieces]
  split
  · next s' hs' => cases hs'.symm.trans hcomment
  · rw [if_pos hc]
    split
    · next s' hs' => cases hs'.symm.trans h; rfl
    · next hnone => cases hnone.symm.trans h

/-- From a literal on that is not closed there is no comment. -/
theorem not_mem_pieces_of_literal? {c : Char} {text e : List Char} (hc : opensLiteral c)
    (h : literal? (c :: text) = none) : .comment e ∉ pieces (c :: text) := by
  have hcomment : comment? (c :: text) = none :=
    comment?_eq_none_of_ne (by rintro rfl; cases hc) text
  rw [pieces]
  split
  · next s' hs' => cases hs'.symm.trans hcomment
  · rw [if_pos hc]
    split
    · next s' hs' => cases hs'.symm.trans h
    · simp

/-- No comment is closed in a text if none is closed in its tail and the text does not begin with the
end of one. -/
theorem closeComment?_cons_eq_none_iff {c : Char} {text : List Char} :
    closeComment? (c :: text) = none ↔
      closeComment? text = none ∧ ¬ (c = '*' ∧ text.head? = some '/') := by
  by_cases hclose : c = '*' ∧ text.head? = some '/'
  · obtain ⟨rfl, hhead⟩ := hclose
    cases text with
    | nil => cases hhead
    | cons d text => cases hhead; simp [closeComment?]
  · rw [closeComment?.eq_3 c text fun rest hc htext => hclose ⟨hc, by rw [htext]; rfl⟩]
    simp [hclose]

/-- A space in the place of some characters closes no comment. -/
theorem closeComment?_blank {before cs after : List Char}
    (h : closeComment? (before ++ (cs ++ after)) = none) :
    closeComment? (before ++ ' ' :: after) = none := by
  induction before with
  | nil =>
    rw [List.nil_append, closeComment?_cons_eq_none_iff]
    refine ⟨?_, by simp⟩
    induction cs with
    | nil => exact h
    | cons c cs ih => exact ih (closeComment?_cons_eq_none_iff.mp h).1
  | cons c before ih =>
    rw [List.cons_append, closeComment?_cons_eq_none_iff] at h ⊢
    refine ⟨ih h.1, fun hclose => h.2 ⟨hclose.1, ?_⟩⟩
    cases before with
    | nil => simp at hclose
    | cons d before => simpa using hclose.2

/-- A space in the place of some characters opens no comment. -/
theorem comment?_blank {c : Char} {before cs after : List Char}
    (h : comment? (c :: (before ++ (cs ++ after))) = none) :
    comment? (c :: (before ++ ' ' :: after)) = none := by
  by_cases hc : c = '/'
  · subst hc
    cases before with
    | nil => rfl
    | cons d before =>
      rw [List.cons_append] at h ⊢
      by_cases hline : d = '/'
      · subst hline
        cases h
      · by_cases hblock : d = '*'
        · subst hblock
          rw [comment?, Option.map_eq_none_iff] at h ⊢
          exact closeComment?_blank h
        · rw [comment?.eq_3]
          · intro rest hrest
            exact hline (List.cons.inj (List.cons.inj hrest).2).1
          · intro rest hrest
            exact hblock (List.cons.inj (List.cons.inj hrest).2).1
  · exact comment?_eq_none_of_ne hc _

/-- A comment that comes after some characters is none of them. -/
theorem exists_append_of_map_char {part c : List Char} {before after rest : List Piece}
    (h : part.map .char ++ rest = before ++ .comment c :: after) :
    ∃ before', before = part.map .char ++ before' ∧ rest = before' ++ .comment c :: after := by
  rcases List.append_eq_append_iff.mp h with ⟨tail, hbefore, hrest⟩ | ⟨tail, hpart, hrest⟩
  · exact ⟨tail, hbefore, hrest⟩
  · cases tail with
    | nil => exact ⟨[], by simpa using hpart.symm, by simpa using hrest.symm⟩
    | cons p tail =>
      obtain ⟨rfl, -⟩ := List.cons.inj hrest
      have hmem : Piece.comment c ∈ part.map .char := by rw [hpart]; simp
      simp at hmem

/-- What follows a line comment still begins with a line break after a later comment is replaced. -/
theorem head?_blank {text c : List Char} {before after : List Piece}
    (h : pieces text = before ++ .comment c :: after) (hline : ∀ e ∈ text.head?, e = '\n') :
    ∀ e ∈ (sourceOf before ++ ' ' :: sourceOf after).head?, e = '\n' := by
  cases text with
  | nil => rw [pieces] at h; simp at h
  | cons e text =>
    obtain rfl : e = '\n' := hline e rfl
    rw [pieces_cons rfl rfl] at h
    cases before with
    | nil => cases h
    | cons p before => cases (List.cons.inj h).1; simp [Piece.chars]

theorem exists_cons_of_literal? {d : Char} {text : List Char} {s : Split}
    (h : literal? (d :: text) = some s) : ∃ part, s.part = d :: part := by
  obtain ⟨hne, happend⟩ := isOf_of_literal? h
  obtain ⟨e, part, hpart⟩ := List.exists_cons_of_ne_nil hne
  rw [hpart] at happend
  cases happend
  exact ⟨part, hpart⟩

/-- If a comment is replaced by a space, all other pieces stay as they are. -/
theorem pieces_blank {text c : List Char} {before after : List Piece}
    (h : pieces text = before ++ .comment c :: after) :
    pieces (sourceOf before ++ ' ' :: sourceOf after) = before ++ .char ' ' :: after := by
  fun_induction pieces text generalizing before with
  | case1 => simp at h
  | case2 d rest s hs ih =>
    cases before with
    | nil =>
      cases h
      rw [sourceOf_pieces]
      exact pieces_cons rfl rfl
    | cons p before =>
      obtain ⟨rfl, htail⟩ := List.cons.inj h
      rw [sourceOf_cons, List.append_assoc, Piece.chars,
        pieces_of_comment? (comment?_append hs _ (head?_blank htail)), ih htail]
      rfl
  | case3 d rest _ hopens s hs ih =>
    obtain ⟨before, rfl, htail⟩ := exists_append_of_map_char h
    have hagain := literal?_append hs (sourceOf before ++ ' ' :: sourceOf after)
    obtain ⟨part, hpart⟩ := exists_cons_of_literal? hs
    rw [hpart, List.cons_append] at hagain
    rw [sourceOf_append, sourceOf_map_char, List.append_assoc, hpart, List.cons_append,
      pieces_of_literal? hopens hagain, ih htail, List.append_assoc]
  | case4 d rest =>
    have hmem : Piece.comment c ∈ (d :: rest).map .char := by rw [h]; simp
    simp at hmem
  | case5 d rest hnone hopens ih =>
    cases before with
    | nil => cases h
    | cons p before =>
      obtain ⟨rfl, htail⟩ := List.cons.inj h
      have hrest : rest = sourceOf before ++ (c ++ sourceOf after) := by
        rw [← sourceOf_pieces rest, htail]
        exact sourceOf_append before _
      rw [hrest] at hnone
      rw [sourceOf_cons, Piece.chars, List.append_assoc, List.singleton_append,
        pieces_cons (comment?_blank hnone) (by simpa using hopens), ih htail]
      rfl

end GoOutline.Token
