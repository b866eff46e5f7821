import GoOutline.Token.Lexicon

/-!
# Comments

What a comment is, and a text cut into characters and comments.

* `Split`: a text in two, the first part not empty.
* `comment?`: the comment at the start of a text.
* `literal?`: the string or character literal at the start of a text. What looks like a comment in a
  literal is part of the literal.
* `Piece`, `pieces`: a text as characters and comments.
* `sourceOf`: the text of some pieces.
-/

namespace GoOutline.Token

open GoOutline.Grammar (isBlank)

/-! ### Splitting a text -/

/-- A part at the start of a text, and the rest of the text. -/
structure Split where
  part : List Char
  rest : List Char

/-- The split with some characters added in front. -/
def Split.after (cs : List Char) (s : Split) : Split := ⟨cs ++ s.part, s.rest⟩

/-- Whether a text is what was split. -/
def Split.IsOf (text : List Char) (s : Split) : Prop := s.part ≠ [] ∧ s.part ++ s.rest = text

theorem Split.IsOf.after {text : List Char} {s : Split} (h : s.IsOf text) (cs : List Char) :
    (s.after cs).IsOf (cs ++ text) := by
  obtain ⟨hne, rfl⟩ := h
  exact ⟨List.append_ne_nil_of_right_ne_nil cs hne, List.append_assoc cs s.part s.rest⟩

theorem Split.IsOf.length_lt {text : List Char} {s : Split} (h : s.IsOf text) :
    s.rest.length < text.length := by
  obtain ⟨hne, rfl⟩ := h
  have := List.length_pos_iff.mpr hne
  rw [List.length_append]
  omega

/-- If a text is split after some characters in front of it, so is the whole. -/
theorem isOf_of_map_after {cs text : List Char} {o : Option Split} {s : Split}
    (h : o.map (.after cs) = some s) (ho : ∀ q, o = some q → q.IsOf text) :
    s.IsOf (cs ++ text) := by
  obtain ⟨q, hq, rfl⟩ := Option.map_eq_some_iff.mp h
  exact (ho q hq).after cs

/-! ### Comments -/

/-- Splits a text after the first place where a comment is closed. -/
def closeComment? : List Char → Option Split
  | [] => none
  | '*' :: '/' :: rest => some ⟨['*', '/'], rest⟩
  | c :: rest => (closeComment? rest).map (.after [c])

/-- Splits off the comment at the start of a text: it ends with the line, or where it is closed. -/
def comment? : List Char → Option Split
  | '/' :: '/' :: rest =>
    some ⟨'/' :: '/' :: rest.takeWhile (· ≠ '\n'), rest.dropWhile (· ≠ '\n')⟩
  | '/' :: '*' :: rest => (closeComment? rest).map (.after ['/', '*'])
  | _ => none

theorem isOf_of_closeComment? {text : List Char} {s : Split} (h : closeComment? text = some s) :
    s.IsOf text := by
  fun_induction closeComment? text generalizing s with
  | case1 => cases h
  | case2 rest => cases h; exact ⟨List.cons_ne_nil _ _, rfl⟩
  | case3 c rest _ ih => exact isOf_of_map_after h fun _ => ih

theorem isOf_of_comment? {text : List Char} {s : Split} (h : comment? text = some s) :
    s.IsOf text := by
  fun_cases comment? text with
  | case1 rest =>
    rw [comment?] at h
    cases h
    refine ⟨List.cons_ne_nil _ _, ?_⟩
    simp only [List.cons_append, List.takeWhile_append_dropWhile]
  | case2 rest =>
    rw [comment?] at h
    exact isOf_of_map_after h fun _ => isOf_of_closeComment?
  | case3 => simp_all [comment?]

/-! ### Literals -/

/-- Splits a text after the quote that closes a string. A string may be broken off at the end of a
line if a comment comes next: it goes on right after the comment. -/
def closeQuoted? (text : List Char) : Option Split :=
  match text with
  | [] => none
  | '"' :: rest => some ⟨['"'], rest⟩
  | '\\' :: c :: rest => (closeQuoted? rest).map (.after ['\\', c])
  | '\n' :: rest =>
    match _h : comment? (rest.dropWhile isBlank) with
    | some s => (closeQuoted? s.rest).map (.after ('\n' :: rest.takeWhile isBlank ++ s.part))
    | none => none
  | c :: rest => (closeQuoted? rest).map (.after [c])
termination_by text.length
decreasing_by
  · simp only [List.length_cons]
    omega
  · have := (isOf_of_comment? _h).length_lt
    have := (List.dropWhile_sublist (l := rest) isBlank).length_le
    simp only [List.length_cons]
    omega
  · simp only [List.length_cons]
    omega

/-- Splits a text after the first character `c`. -/
def upTo? (c : Char) : List Char → Option Split
  | [] => none
  | d :: rest => if d = c then some ⟨[d], rest⟩ else (upTo? c rest).map (.after [d])

/-- Splits off the literal at the start of a text: a string, a raw string or a character. -/
def literal? : List Char → Option Split
  | '"' :: rest => (closeQuoted? rest).map (.after ['"'])
  | '`' :: rest => (upTo? '`' rest).map (.after ['`'])
  | '\'' :: '\\' :: c :: rest => (upTo? '\'' rest).map (.after ['\'', '\\', c])
  | '\'' :: c :: '\'' :: rest => some ⟨['\'', c, '\''], rest⟩
  | _ => none

theorem isOf_of_closeQuoted? {text : List Char} {s : Split} (h : closeQuoted? text = some s) :
    s.IsOf text := by
  fun_induction closeQuoted? text generalizing s with
  | case1 => cases h
  | case2 rest => cases h; exact ⟨List.cons_ne_nil _ _, rfl⟩
  | case3 c rest ih => exact isOf_of_map_after h fun _ => ih
  | case4 rest q hq ih =>
    have htext : '\n' :: rest = '\n' :: rest.takeWhile isBlank ++ q.part ++ q.rest := by
      rw [List.append_assoc, (isOf_of_comment? hq).2, List.cons_append,
        List.takeWhile_append_dropWhile]
    rw [htext]
    exact isOf_of_map_after h fun _ => ih
  | case5 => cases h
  | case6 c rest _ _ _ ih => exact isOf_of_map_after h fun _ => ih

theorem isOf_of_upTo? {c : Char} {text : List Char} {s : Split} (h : upTo? c text = some s) :
    s.IsOf text := by
  fun_induction upTo? c text generalizing s with
  | case1 => cases h
  | case2 rest => cases h; exact ⟨List.cons_ne_nil _ _, rfl⟩
  | case3 d rest _ ih => exact isOf_of_map_after h fun _ => ih

theorem isOf_of_literal? {text : List Char} {s : Split} (h : literal? text = some s) :
    s.IsOf text := by
  unfold literal? at h
  split at h
  · exact isOf_of_map_after h fun _ => isOf_of_closeQuoted?
  · exact isOf_of_map_after h fun _ => isOf_of_upTo?
  · exact isOf_of_map_after h fun _ => isOf_of_upTo?
  · cases h
    exact ⟨List.cons_ne_nil _ _, rfl⟩
  · cases h

/-! ### Pieces -/

/-- A character of a text, or a whole comment. -/
inductive Piece where
  | char (c : Char)
  | comment (text : List Char)
deriving DecidableEq

/-- The characters of a piece. -/
def Piece.chars : Piece → List Char
  | char c => [c]
  | comment text => text

/-- The text of some pieces. -/
def sourceOf (ps : List Piece) : List Char := ps.flatMap Piece.chars

/-- Whether a literal begins with the character. -/
def opensLiteral (c : Char) : Bool := c == '"' || c == '`' || c == '\''

/-- A text as characters and comments. From a literal on that is not closed, all are characters. -/
def pieces (text : List Char) : List Piece :=
  match text with
  | [] => []
  | c :: rest =>
    match _h : comment? (c :: rest) with
    | some s => .comment s.part :: pieces s.rest
    | none =>
      if opensLiteral c then
        match _h : literal? (c :: rest) with
        | some s => s.part.map .char ++ pieces s.rest
        | none => (c :: rest).map .char
      else .char c :: pieces rest
termination_by text.length
decreasing_by
  · exact (isOf_of_comment? _h).length_lt
  · exact (isOf_of_literal? _h).length_lt
  · simp

end GoOutline.Token
