import GoOutline.Parse.Sound

/-!
# Characters that a token can have

Which characters occur in the texts that a pattern matches, read off the pattern.

* `Pattern.mayHave`: whether some part of a pattern admits a character.
* `Pattern.not_mem_of_accepts`: a text that a pattern matches has no other characters.
* `not_mem_of_isSpelled`: the same for the spelling of a token.
-/

namespace GoOutline.Token

namespace Pattern

variable {c : Char}

/-- Whether some part of the pattern admits the character. -/
def mayHave (c : Char) : Pattern → Bool
  | nothing => false
  | text cs => cs.contains c
  | char s => s.has c
  | seq p q => p.mayHave c || q.mayHave c
  | alt p q => p.mayHave c || q.mayHave c
  | many p => p.mayHave c

theorem mayHave_andThen {p q : Pattern} (hp : p.mayHave c = false) (hq : q.mayHave c = false) :
    (p.andThen q).mayHave c = false := by
  fun_cases andThen p q with
  | case1 | case2 => rfl
  | case3 => exact hq
  | case4 => exact hp
  | case5 =>
    show (p.mayHave c || q.mayHave c) = false
    rw [hp, hq]
    rfl

theorem mayHave_orElse {p q : Pattern} (hp : p.mayHave c = false) (hq : q.mayHave c = false) :
    (p.orElse q).mayHave c = false := by
  fun_cases orElse p q with
  | case1 => exact hq
  | case2 => exact hp
  | case3 => exact hp
  | case4 =>
    show (p.mayHave c || q.mayHave c) = false
    rw [hp, hq]
    rfl

/-- What remains after a character admits no more than before. -/
theorem mayHave_after {p : Pattern} (d : Char) (h : p.mayHave c = false) :
    (p.after d).mayHave c = false := by
  induction p with
  | nothing => rfl
  | text cs =>
    cases cs with
    | nil => rfl
    | cons e es =>
      rw [after]
      split
      · simp_all [mayHave]
      · rfl
  | char s =>
    rw [after]
    split <;> rfl
  | seq p q ihp ihq =>
    obtain ⟨hp, hq⟩ := Bool.or_eq_false_iff.mp h
    have hleft := mayHave_andThen (ihp hp) hq
    rw [after]
    split
    · exact mayHave_orElse hleft (ihq hq)
    · exact hleft
  | alt p q ihp ihq =>
    obtain ⟨hp, hq⟩ := Bool.or_eq_false_iff.mp h
    exact mayHave_orElse (ihp hp) (ihq hq)
  | many p ih => exact mayHave_andThen (ih h) h

/-- Nothing remains after a character that the pattern does not admit. -/
theorem after_eq_nothing {p : Pattern} (h : p.mayHave c = false) : p.after c = nothing := by
  induction p with
  | nothing => rfl
  | text cs =>
    cases cs with
    | nil => rfl
    | cons e es =>
      have hne : c ≠ e := by
        intro heq
        simp [mayHave, heq] at h
      rw [after, if_neg hne]
  | char s =>
    have hs : ¬ s.has c := by simpa [mayHave] using h
    rw [after, if_neg hs]
  | seq p q ihp ihq =>
    obtain ⟨hp, hq⟩ := Bool.or_eq_false_iff.mp h
    rw [after, ihp hp, ihq hq]
    split <;> rfl
  | alt p q ihp ihq =>
    obtain ⟨hp, hq⟩ := Bool.or_eq_false_iff.mp h
    rw [after, ihp hp, ihq hq]
    rfl
  | many p ih =>
    rw [after, ih h]
    rfl

theorem accepts_cons (p : Pattern) (d : Char) (text : List Char) :
    p.accepts (d :: text) = (p.after d).accepts text := rfl

theorem accepts_nothing (text : List Char) : nothing.accepts text = false := by
  induction text with
  | nil => rfl
  | cons d text ih => exact ih

/-- A text that a pattern matches has only characters that the pattern admits. -/
theorem not_mem_of_accepts {p : Pattern} {text : List Char} (hp : p.mayHave c = false)
    (h : p.accepts text) : c ∉ text := by
  induction text generalizing p with
  | nil => exact List.not_mem_nil
  | cons d text ih =>
    rw [accepts_cons] at h
    intro hmem
    rcases List.mem_cons.mp hmem with rfl | hmem
    · rw [after_eq_nothing hp, accepts_nothing] at h
      cases h
    · exact ih (mayHave_after d hp) h hmem

end Pattern

end GoOutline.Token

namespace GoOutline.Parse

open GoOutline.Grammar GoOutline.Token

/-- A token has only characters that its pattern admits. -/
theorem not_mem_of_isSpelled {c : Char} {t : Terminal} {text : List Char}
    (ht : t.pattern.mayHave c = false) (h : isSpelled t text) : c ∉ text := by
  have hempty : text.isEmpty → c ∉ text := by
    intro hnil
    rw [List.isEmpty_iff.mp hnil]
    exact List.not_mem_nil
  unfold isSpelled at h
  split at h
  · have hmany : (Pattern.many1 Terminal.lineBreak.pattern).mayHave c = false := by
      show (Terminal.lineBreak.pattern.mayHave c || Terminal.lineBreak.pattern.mayHave c) = false
      rw [ht]
      rfl
    exact Pattern.not_mem_of_accepts hmany h
  · exact hempty h
  · rcases Bool.or_eq_true_iff.mp h with h | h
    · exact hempty h
    · exact Pattern.not_mem_of_accepts ht h
  · exact Pattern.not_mem_of_accepts ht h

/-- There is no space in an identifier. -/
theorem mayHave_space_identifier : Terminal.identifier.pattern.mayHave ' ' = false := by
  decide

end GoOutline.Parse
