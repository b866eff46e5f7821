import GoOutline.Proofs.Token.Pieces
import GoOutline.Proofs.Token.Spelling
import Mathlib.Data.List.TakeWhile

/-!
# What a pattern accepts

* `Pattern.accepts_text_iff`, `Pattern.accepts_alt_iff`, `Pattern.accepts_seq_iff`, …: the texts that a
  pattern accepts, constructor by constructor.
* `accepts_commentText_iff`: the pattern of comments accepts the texts that are one whole comment. The
  pattern is read one character at a time, and has four forms while a comment is open.
-/

namespace GoOutline.Token

open GoOutline.Grammar

namespace Pattern

variable {p q : Pattern} {w : List Char}

theorem accepts_nil (p : Pattern) : p.accepts [] = p.isDone := rfl

theorem accepts_text_iff {cs : List Char} : (text cs).accepts w ↔ w = cs := by
  induction w generalizing cs with
  | nil => cases cs <;> simp [accepts_nil, isDone]
  | cons c w ih =>
    rw [accepts_cons]
    cases cs with
    | nil => simp [after, accepts_nothing]
    | cons d cs =>
      by_cases h : c = d <;> simp [after, h, ih, accepts_nothing]

theorem accepts_char_iff {s : CharClass} : (char s).accepts w ↔ ∃ c, w = [c] ∧ s.has c := by
  cases w with
  | nil => simp [accepts_nil, isDone]
  | cons c w =>
    rw [accepts_cons, after]
    by_cases h : s.has c
    · rw [if_pos h, done, accepts_text_iff]
      constructor
      · rintro rfl
        exact ⟨c, rfl, h⟩
      · rintro ⟨d, hd, -⟩
        exact (List.cons.inj hd).2
    · rw [if_neg h, accepts_nothing]
      constructor
      · rintro ⟨⟩
      · rintro ⟨d, hd, hs⟩
        exact absurd ((List.cons.inj hd).1 ▸ hs) h

/-- A choice accepts what one of the two accepts. -/
theorem accepts_orElse_of_alt (h : (alt p q).accepts w ↔ p.accepts w ∨ q.accepts w) :
    (p.orElse q).accepts w ↔ p.accepts w ∨ q.accepts w := by
  fun_cases orElse p q with
  | case1 => simp [accepts_nothing]
  | case2 => simp [accepts_nothing]
  | case3 => simp
  | case4 => exact h

theorem accepts_alt_iff : (alt p q).accepts w ↔ p.accepts w ∨ q.accepts w := by
  induction w generalizing p q with
  | nil => exact Bool.or_eq_true_iff
  | cons c w ih => exact accepts_orElse_of_alt ih

theorem accepts_orElse_iff : (p.orElse q).accepts w ↔ p.accepts w ∨ q.accepts w :=
  accepts_orElse_of_alt accepts_alt_iff

/-- A text that is cut in two, the first part for one pattern and the second for another. -/
def Cuts (p q : Pattern) (w : List Char) : Prop :=
  ∃ u v, w = u ++ v ∧ p.accepts u ∧ q.accepts v

theorem accepts_andThen_of_seq (h : (seq p q).accepts w ↔ Cuts p q w) :
    (p.andThen q).accepts w ↔ Cuts p q w := by
  fun_cases andThen p q with
  | case1 => simp [Cuts, accepts_nothing]
  | case2 => simp [Cuts, accepts_nothing]
  | case3 =>
    constructor
    · intro h
      exact ⟨[], w, rfl, rfl, h⟩
    · rintro ⟨u, v, rfl, hu, hv⟩
      obtain rfl := accepts_text_iff.mp hu
      exact hv
  | case4 => simp [Cuts, accepts_text_iff]
  | case5 => exact h

/-- The first part of a text that begins with a character is empty, or begins with it. -/
theorem cuts_cons_iff {c : Char} :
    Cuts p q (c :: w) ↔ Cuts (p.after c) q w ∨ p.isDone ∧ (q.after c).accepts w := by
  constructor
  · rintro ⟨u, v, hw, hu, hv⟩
    cases u with
    | nil =>
      obtain rfl := hw
      exact .inr ⟨hu, hv⟩
    | cons d u =>
      obtain ⟨rfl, rfl⟩ := List.cons.inj hw
      exact .inl ⟨u, v, rfl, hu, hv⟩
  · rintro (⟨u, v, rfl, hu, hv⟩ | ⟨hp, hq⟩)
    · exact ⟨c :: u, v, rfl, hu, hv⟩
    · exact ⟨[], c :: w, rfl, hp, hq⟩

theorem accepts_seq_iff : (seq p q).accepts w ↔ Cuts p q w := by
  induction w generalizing p q with
  | nil =>
    rw [accepts_nil, isDone, Bool.and_eq_true]
    constructor
    · rintro ⟨hp, hq⟩
      exact ⟨[], [], rfl, hp, hq⟩
    · rintro ⟨u, v, hw, hu, hv⟩
      obtain ⟨rfl, rfl⟩ := List.append_eq_nil_iff.mp hw.symm
      exact ⟨hu, hv⟩
  | cons c w ih =>
    rw [accepts_cons, cuts_cons_iff, after]
    split
    · next hp => rw [accepts_orElse_iff, accepts_andThen_of_seq ih]; simp [hp]
    · next hp => rw [accepts_andThen_of_seq ih]; simp [hp]

theorem accepts_many_char_iff {s : CharClass} :
    (many (char s)).accepts w ↔ ∀ c ∈ w, s.has c := by
  induction w with
  | nil => simp [accepts_nil, isDone]
  | cons c w ih =>
    rw [accepts_cons, after, after]
    by_cases h : s.has c
    · rw [if_pos h]
      show (many (char s)).accepts w ↔ _
      simp [ih, h]
    · rw [if_neg h]
      show nothing.accepts w ↔ _
      simp [accepts_nothing, h]

end Pattern

/-! ### Comments -/

open Pattern

/-- What follows the stars in a comment that is not closed yet. -/
def starBlock : Pattern := chain [noneOf "/*", many (noneOf "*"), many1 (lit "*")]

/-- What remains of a comment after its opening. -/
def commentBody : Pattern :=
  seq (many (noneOf "*")) (seq (many1 (lit "*")) (seq (many starBlock) (lit "/")))

/-- What remains of a comment after a star. -/
def commentStar : Pattern := seq (many (lit "*")) (seq (many starBlock) (lit "/"))

/-- What remains of a comment after a star and another character. -/
def commentBodyAgain : Pattern :=
  seq (seq (seq (many (noneOf "*")) (many1 (lit "*"))) (many starBlock)) (lit "/")

/-- What remains of a comment after further stars. -/
def commentStarAgain : Pattern := seq (seq (many (lit "*")) (many starBlock)) (lit "/")

theorem after_commentBody (c : Char) :
    commentBody.after c = if c = '*' then commentStar else commentBody := by
  by_cases h : c = '*'
  · subst h
    decide
  · rw [if_neg h]
    simp [commentBody, after, noneOf, CharClass.has, h, isDone, andThen, orElse, many1, lit, done]

theorem after_commentBodyAgain (c : Char) :
    commentBodyAgain.after c = if c = '*' then commentStarAgain else commentBodyAgain := by
  by_cases h : c = '*'
  · subst h
    decide
  · rw [if_neg h]
    simp [commentBodyAgain, after, noneOf, CharClass.has, h, isDone, andThen, orElse, many1, lit,
      done]

theorem after_commentStar (c : Char) :
    commentStar.after c =
      if c = '*' then commentStar else if c = '/' then done else commentBodyAgain := by
  by_cases h : c = '*'
  · subst h
    decide
  by_cases h' : c = '/'
  · subst h'
    decide
  rw [if_neg h, if_neg h']
  simp [commentStar, commentBodyAgain, starBlock, chain, after, noneOf, CharClass.has, h, h', isDone,
    andThen, orElse, many1, lit, done]

theorem after_commentStarAgain (c : Char) :
    commentStarAgain.after c =
      if c = '*' then commentStarAgain else if c = '/' then done else commentBodyAgain := by
  by_cases h : c = '*'
  · subst h
    decide
  by_cases h' : c = '/'
  · subst h'
    decide
  rw [if_neg h, if_neg h']
  simp [commentStarAgain, commentBodyAgain, starBlock, chain, after, noneOf, CharClass.has, h, h',
    isDone, andThen, orElse, many1, lit, done]

/-- Whether a text ends with the first place where a comment is closed. -/
def Closes (w : List Char) : Prop := closeComment? w = some ⟨w, []⟩

theorem closes_close_iff {w : List Char} : Closes ('*' :: '/' :: w) ↔ w = [] := by
  simp [Closes, closeComment?, eq_comm]

theorem closes_cons_iff {c : Char} {w : List Char} (h : c = '*' → w.head? ≠ some '/') :
    Closes (c :: w) ↔ Closes w := by
  rw [Closes, closeComment?.eq_3 c w fun rest hc hw => h hc (by rw [hw]; rfl),
    Option.map_eq_some_iff]
  constructor
  · rintro ⟨⟨part, rest⟩, hs, hafter⟩
    obtain ⟨rfl, rfl⟩ : part = w ∧ rest = [] := by simpa [Split.after] using hafter
    exact hs
  · intro hw
    exact ⟨_, hw, rfl⟩

theorem accepts_of_after {p p' : Pattern} {c : Char} (h : p.after c = p') (w : List Char) :
    p.accepts (c :: w) = p'.accepts w := by
  rw [accepts_cons, h]

/-- A comment is read on until it is closed: on the text itself, or on a star that has been read. -/
theorem accepts_comment_states (w : List Char) :
    (commentBody.accepts w ↔ Closes w) ∧ (commentBodyAgain.accepts w ↔ Closes w) ∧
      (commentStar.accepts w ↔ Closes ('*' :: w)) ∧
      (commentStarAgain.accepts w ↔ Closes ('*' :: w)) := by
  induction w with
  | nil => refine ⟨?_, ?_, ?_, ?_⟩ <;> constructor <;> rintro ⟨⟩
  | cons c w ih =>
    obtain ⟨hbody, hbody', hstar, hstar'⟩ := ih
    by_cases hc : c = '*'
    · subst hc
      have hcons : Closes ('*' :: '*' :: w) ↔ Closes ('*' :: w) := closes_cons_iff (by simp)
      refine ⟨?_, ?_, ?_, ?_⟩
      · rw [accepts_of_after (after_commentBody '*'), if_pos rfl, hstar]
      · rw [accepts_of_after (after_commentBodyAgain '*'), if_pos rfl, hstar']
      · rw [accepts_of_after (after_commentStar '*'), if_pos rfl, hstar, hcons]
      · rw [accepts_of_after (after_commentStarAgain '*'), if_pos rfl, hstar', hcons]
    have hcons : Closes (c :: w) ↔ Closes w := closes_cons_iff (absurd · hc)
    refine ⟨?_, ?_, ?_, ?_⟩
    · rw [accepts_of_after (after_commentBody c), if_neg hc, hbody, hcons]
    · rw [accepts_of_after (after_commentBodyAgain c), if_neg hc, hbody', hcons]
    all_goals by_cases hslash : c = '/'
    · subst hslash
      rw [accepts_of_after (after_commentStar '/'), if_neg hc, if_pos rfl, done, accepts_text_iff,
        closes_close_iff]
    · rw [accepts_of_after (after_commentStar c), if_neg hc, if_neg hslash, hbody',
        closes_cons_iff (by simp [hslash]), hcons]
    · subst hslash
      rw [accepts_of_after (after_commentStarAgain '/'), if_neg hc, if_pos rfl, done,
        accepts_text_iff, closes_close_iff]
    · rw [accepts_of_after (after_commentStarAgain c), if_neg hc, if_neg hslash, hbody',
        closes_cons_iff (by simp [hslash]), hcons]

theorem after_commentText (c : Char) :
    commentText.after c = if c = '/' then
      alt (seq (lit "/") (many (noneOf "\n"))) (seq (lit "*") commentBody) else nothing := by
  by_cases h : c = '/'
  · subst h
    decide
  · rw [if_neg h]
    simp [commentText, choice, chain, after, lit, h, isDone, andThen, orElse]

theorem accepts_seq_lit_cons {c d : Char} {q : Pattern} {w : List Char} :
    (seq (text [c]) q).accepts (d :: w) ↔ d = c ∧ q.accepts w := by
  rw [accepts_seq_iff]
  constructor
  · rintro ⟨u, v, hw, hu, hv⟩
    obtain rfl := accepts_text_iff.mp hu
    obtain ⟨rfl, rfl⟩ := List.cons.inj hw
    exact ⟨rfl, hv⟩
  · rintro ⟨rfl, hq⟩
    exact ⟨[d], w, rfl, accepts_text_iff.mpr rfl, hq⟩

/-- The pattern of comments accepts the texts that are one whole comment. -/
theorem accepts_commentText_iff {w : List Char} : commentText.accepts w ↔ IsComment w := by
  cases w with
  | nil => constructor <;> rintro ⟨⟩
  | cons c w =>
    rw [accepts_of_after (after_commentText c)]
    split
    · next hc =>
      subst hc
      rw [accepts_alt_iff]
      cases w with
      | nil =>
        constructor
        · rintro (⟨⟨⟩⟩ | ⟨⟨⟩⟩)
        · rintro ⟨⟩
      | cons d w =>
        show (seq (text ['/']) _).accepts _ ∨ (seq (text ['*']) _).accepts _ ↔ _
        rw [accepts_seq_lit_cons, accepts_seq_lit_cons, (accepts_comment_states w).1]
        by_cases hline : d = '/'
        · subst hline
          have hall : (many (noneOf "\n")).accepts w ↔ w.takeWhile (· ≠ '\n') = w := by
            rw [noneOf, accepts_many_char_iff, List.takeWhile_eq_self_iff]
            simp [CharClass.has]
          rw [IsComment, comment?, hall]
          constructor
          · rintro (⟨-, h⟩ | ⟨h, -⟩)
            · have hrest : w.dropWhile (· ≠ '\n') = [] :=
                List.dropWhile_eq_nil_iff.mpr (List.takeWhile_eq_self_iff.mp h)
              rw [h, hrest]
            · cases h
          · intro h
            have hpart := congrArg (Option.map Split.part) h
            exact .inl ⟨rfl, by simpa using hpart⟩
        by_cases hblock : d = '*'
        · subst hblock
          rw [IsComment, comment?, Option.map_eq_some_iff]
          constructor
          · rintro (⟨h, -⟩ | ⟨-, h⟩)
            · cases h
            · exact ⟨_, h, rfl⟩
          · rintro ⟨⟨part, rest⟩, hs, hafter⟩
            obtain ⟨rfl, rfl⟩ : part = w ∧ rest = [] := by simpa [Split.after] using hafter
            exact .inr ⟨rfl, hs⟩
        · rw [IsComment, comment?.eq_3]
          · simp [hline, hblock]
          · rintro rest ⟨⟩
            exact hline rfl
          · rintro rest ⟨⟩
            exact hblock rfl
    · next hc =>
      rw [accepts_nothing, IsComment, comment?_eq_none_of_ne hc]
      constructor <;> rintro ⟨⟩

end GoOutline.Token
