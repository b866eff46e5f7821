import GoOutline.Parse.Sound
import GoOutline.Proofs.Token.Munch
import GoOutline.Proofs.Token.Parallel
import GoOutline.Token.Literal

/-!
# The next token of code

What is found where code is read, and that it is spelled as it should be.

* `isCodeSet_scanSet`: the tokens that are looked for are tokens of code.
* `eq_identifier_of_accepts`: nothing else begins like a name.
* `IsTokenAt`: a token stands at the start of a text and is as it should be: only white space comes
  before it, it is spelled as the lexicon has it, and no name is cut short.
* `isTokenAt_of_lookahead`: the next token of code is so.
-/

namespace GoOutline.Token

open GoOutline.Grammar GoOutline.Parse GoOutline.Text

/-! ### Sets -/

theorem isIn_codeSet (t : Terminal) (set : Nat) :
    t.isIn (codeSet set) = (t.isIn set && !t.isIn stringOnlySet) := by
  rw [Terminal.isIn, codeSet, Nat.testBit_xor, Nat.testBit_or]
  show _ = (set.testBit t.ctorIdx && !stringOnlySet.testBit t.ctorIdx)
  cases set.testBit t.ctorIdx <;> cases stringOnlySet.testBit t.ctorIdx <;> rfl

theorem isIn_wordSet (t : Terminal) : t.isIn wordSet = t.isWord := by
  have hall : (Terminal.all.all fun t => t.isIn wordSet == t.isWord) = true := by decide
  exact eq_of_beq (List.all_eq_true.mp hall t (mem_all t))

theorem isIn_bit_identifier (t : Terminal) :
    Terminal.identifier.bit.testBit t.ctorIdx = (t == .identifier) := by
  have hall : (Terminal.all.all fun t =>
      Terminal.identifier.bit.testBit t.ctorIdx == (t == .identifier)) = true := by decide
  exact eq_of_beq (List.all_eq_true.mp hall t (mem_all t))

/-- The identifier stands for every word. -/
theorem isIn_scanSet (t : Terminal) (set : Nat) :
    t.isIn (scanSet set) =
      (!t.isWord && (t.isIn set || (t == .identifier && set &&& wordSet != 0))) := by
  have hword : wordSet.testBit t.ctorIdx = t.isWord := isIn_wordSet t
  unfold scanSet
  split
  · next hset =>
    rw [Terminal.isIn, Nat.testBit_xor, Nat.testBit_or, Nat.testBit_or, hword,
      isIn_bit_identifier, hset, Bool.and_true]
    show _ = (!t.isWord && (set.testBit t.ctorIdx || t == .identifier))
    cases t.isWord <;> simp
  · next hset =>
    have hzero : set &&& wordSet = 0 := by simpa using hset
    have hboth : (t.isIn set && t.isWord) = false := by
      have := congrArg (·.testBit t.ctorIdx) hzero
      simpa [Terminal.isIn, Nat.testBit_and, hword] using this
    cases hw : t.isWord <;> simp [hw, hzero] at hboth ⊢
    exact hboth

theorem isCodeSet_scanSet {set : Nat} (h : Terminal.comment.isIn set) :
    IsCodeSet (scanSet (codeSet set)) := by
  constructor
  · rw [isIn_scanSet, isIn_codeSet, h]
    rfl
  · intro t ht
    obtain ⟨hin, hend⟩ := mem_tokensIn.mp ht
    have hall : (Terminal.all.all fun t => isCodeToken t || t == .endOfInput ||
        (t.isIn stringOnlySet && t != .identifier)) = true := by decide
    have hcode := List.all_eq_true.mp hall t (mem_all t)
    rw [isIn_scanSet, isIn_codeSet] at hin
    cases hcodeToken : isCodeToken t with
    | true => rfl
    | false =>
      simp [hcodeToken, hend] at hcode
      simp [hcode] at hin

/-! ### Names -/

/-- Whether no name begins with a character of the class. -/
def CharClass.isOutside : CharClass → Bool
  | .among cs => cs.all (!isIdentifierStart ·)
  | .range _ hi => hi < 'A'
  | _ => false

/-- Whether no name begins like the pattern. -/
def Pattern.beginsOutside : Pattern → Bool
  | nothing => true
  | text [] => true
  | text (d :: _) => !isIdentifierStart d
  | char s => s.isOutside
  | seq p q => p.beginsOutside && (!p.isDone || q.beginsOutside)
  | alt p q => p.beginsOutside && q.beginsOutside
  | many p => p.beginsOutside

theorem isIdentifierStart_eq_false {c : Char} (h : c < 'A') : isIdentifierStart c = false := by
  have hlt : c.toNat < 65 := h
  have hall : ((List.range 65).all fun n => !isIdentifierStart (Char.ofNat n)) = true := by decide
  have hc := List.all_eq_true.mp hall c.toNat (List.mem_range.mpr hlt)
  rw [Char.ofNat_toNat] at hc
  simpa using hc

theorem CharClass.has_eq_false {c : Char} (hc : isIdentifierStart c) {s : CharClass}
    (hs : s.isOutside) : s.has c = false := by
  by_contra hhas
  rw [Bool.not_eq_false] at hhas
  cases s with
  | among cs =>
    have hmem : c ∈ cs := by simpa [CharClass.has] using hhas
    have := List.all_eq_true.mp hs c hmem
    simp [hc] at this
  | range lo hi =>
    obtain ⟨-, hle⟩ := Bool.and_eq_true_iff.mp hhas
    have hhi : hi < 'A' := by simpa [CharClass.isOutside] using hs
    have hlt : c < 'A' := Std.lt_of_le_of_lt (of_decide_eq_true hle) hhi
    rw [isIdentifierStart_eq_false hlt] at hc
    cases hc
  | except cs => cases hs
  | identifierStart => cases hs
  | identifierPart => cases hs

theorem Pattern.after_eq_nothing_of_beginsOutside {c : Char} (hc : isIdentifierStart c)
    {p : Pattern} (hp : p.beginsOutside) : p.after c = nothing := by
  induction p with
  | nothing => rfl
  | text cs =>
    cases cs with
    | nil => rfl
    | cons d cs =>
      rw [after, if_neg]
      rintro rfl
      simp [beginsOutside, hc] at hp
  | char s => rw [after, CharClass.has_eq_false hc hp]; rfl
  | seq p q ihp ihq =>
    obtain ⟨hp, hq⟩ := Bool.and_eq_true_iff.mp hp
    rw [after, ihp hp]
    cases hdone : p.isDone with
    | false => rfl
    | true =>
      rw [hdone] at hq
      rw [if_pos rfl, ihq hq]
      rfl
  | alt p q ihp ihq =>
    obtain ⟨hp, hq⟩ := Bool.and_eq_true_iff.mp hp
    rw [after, ihp hp, ihq hq]
    rfl
  | many p ih => rw [after, ih hp]; rfl

/-- Where words are read as identifiers, nothing else begins like a name. -/
theorem eq_identifier_of_accepts {t : Terminal} (ht : isCodeToken t) (hword : t.isWord = false)
    {c : Char} {w : List Char} (hc : isIdentifierStart c) (h : t.pattern.accepts (c :: w)) :
    t = .identifier := by
  have hall : (Terminal.all.all fun t =>
      !isCodeToken t || t.isWord || t == .identifier || t.pattern.beginsOutside) = true := by decide
  have hcases := List.all_eq_true.mp hall t (mem_all t)
  rw [ht, hword, Bool.not_true, Bool.false_or, Bool.false_or, Bool.or_eq_true, beq_iff_eq] at hcases
  refine hcases.resolve_right fun houtside => ?_
  rw [Pattern.accepts_cons, Pattern.after_eq_nothing_of_beginsOutside hc houtside,
    Pattern.accepts_nothing] at h
  cases h

theorem accepts_identifier_iff {w : List Char} : Terminal.identifier.pattern.accepts w ↔
    ∃ c v, w = c :: v ∧ isIdentifierStart c ∧ ∀ d ∈ v, isIdentifierPart d := by
  constructor
  · intro h
    obtain ⟨u, v, rfl, hu, hv⟩ := Pattern.accepts_seq_iff.mp h
    obtain ⟨c, rfl, hc⟩ := Pattern.accepts_char_iff.mp hu
    exact ⟨c, v, rfl, hc, Pattern.accepts_many_char_iff.mp hv⟩
  · rintro ⟨c, v, rfl, hc, hv⟩
    exact Pattern.accepts_seq_iff.mpr ⟨[c], v, rfl, Pattern.accepts_char_iff.mpr ⟨c, rfl, hc⟩,
      Pattern.accepts_many_char_iff.mpr hv⟩

/-! ### What is found -/

/-- Whether a token that begins like a name is not cut short before a text. -/
def IsWholeBefore (w rest : List Char) : Prop :=
  w.head?.any isIdentifierStart → rest.head?.any isIdentifierPart = false

/-- A token with some space before it stands at the start of a text and is as it should be. -/
structure IsTokenAt (t : Terminal) (space w text rest : List Char) : Prop where
  append : space ++ (w ++ rest) = text
  space : ∀ c ∈ space, isBlank c = true
  spelled : isSpelled t w
  whole : IsWholeBefore w rest
  atEnd : t = .endOfInput → rest = []

theorem isSpelled_of_accepts {t : Terminal} {text : List Char} (ht : t ≠ .endOfInput)
    (h : t.pattern.accepts text) : isSpelled t text := by
  unfold isSpelled
  split
  · exact Pattern.accepts_seq_iff.mpr ⟨text, [], by simp, h, rfl⟩
  · exact absurd rfl ht
  · rw [h, Bool.or_true]
  · exact h

theorem accepts_breaks {text : List Char} (h : ∀ c ∈ text, c = '\n') :
    (Pattern.many Terminal.lineBreak.pattern).accepts text := by
  induction text with
  | nil => rfl
  | cons c text ih =>
    obtain ⟨rfl, htext⟩ := List.forall_mem_cons.mp h
    exact ih htext

/-- Several line breaks are spelled like one token. -/
theorem isSpelled_breaks (text : List Char) :
    isSpelled .lineBreak ('\n' :: text.takeWhile (· = '\n')) := by
  refine Pattern.accepts_seq_iff.mpr ⟨['\n'], _, rfl, rfl, accepts_breaks fun c hc => ?_⟩
  simpa using List.all_eq_true.mp List.all_takeWhile c hc

theorem isWholeBefore_of_nextToken {set : Nat} (hset : IsCodeSet set)
    (hwords : ∀ t ∈ tokensIn set, t.isWord = false) {space text : List Char} {s : Scanned}
    (h : nextToken set space text = some s) : IsWholeBefore s.text (text.drop s.text.length) := by
  intro hhead
  unfold nextToken at h
  split at h
  · obtain ⟨t, -, rfl⟩ := Option.map_eq_some_iff.mp h
    cases hhead
  · next c rest =>
    split at h
    · cases h
      cases hhead
    · obtain ⟨⟨t, w⟩, hw, rfl⟩ := Option.map_eq_some_iff.mp h
      obtain ⟨hmatch, v, more, rfl, rfl⟩ := of_longest hw
      obtain ⟨hmem, haccepts⟩ := of_matching hmatch
      have hdrop : (c :: (v ++ more)).drop ([c] ++ v).length = more := List.drop_left
      obtain rfl := eq_identifier_of_accepts (hset.isCode t hmem) (hwords t hmem) hhead haccepts
      rw [hdrop]
      cases more with
      | nil => rfl
      | cons d more =>
        -- with one more character the name would be longer
        by_contra hpart
        rw [Bool.not_eq_false] at hpart
        obtain ⟨c', v', hcv, hc, hv⟩ := accepts_identifier_iff.mp haccepts
        obtain ⟨rfl, rfl⟩ := List.cons.inj hcv
        have hlonger : Terminal.identifier.pattern.accepts ([c] ++ (v ++ [d])) := by
          refine accepts_identifier_iff.mpr ⟨c, v ++ [d], rfl, hc, fun e he => ?_⟩
          rcases List.mem_append.mp he with he | he
          · exact hv e he
          · rw [List.mem_singleton.mp he]
            exact hpart
        have hnone : matching (tokensIn set) ([c] ++ (v ++ [d])) = none := by
          refine matching_eq_none_of_longest hw ⟨more, by simp⟩ fun t w heq => ?_
          cases heq
          simp
        rw [matching_eq_none_iff.mp hnone _ hmem] at hlonger
        cases hlonger

/-- The next token of a text is as it should be. -/
theorem isTokenAt_of_nextToken {set : Nat} (hset : IsCodeSet set)
    (hwords : ∀ t ∈ tokensIn set, t.isWord = false) {space text : List Char} {s : Scanned}
    (hspace : ∀ c ∈ space, isBlank c = true) (h : nextToken set space text = some s) :
    IsTokenAt s.token s.space s.text (space ++ text) (text.drop s.text.length) := by
  have hwhole := isWholeBefore_of_nextToken hset hwords h
  unfold nextToken at h
  split at h
  · obtain ⟨t, ht, rfl⟩ := Option.map_eq_some_iff.mp h
    refine ⟨rfl, hspace, ?_, hwhole, fun _ => rfl⟩
    unfold endToken at ht
    split at ht
    · cases ht; rfl
    split at ht
    · cases ht; rfl
    · cases ht
  · next c rest =>
    split at h
    · next hc =>
      subst hc
      cases h
      refine ⟨?_, hspace, isSpelled_breaks rest, hwhole, fun ht => by cases ht⟩
      rw [List.length_cons, List.drop_succ_cons, drop_length_takeWhile, List.cons_append,
        List.takeWhile_append_dropWhile]
    · obtain ⟨⟨t, w⟩, hw, rfl⟩ := Option.map_eq_some_iff.mp h
      obtain ⟨hmatch, v, more, rfl, rfl⟩ := of_longest hw
      obtain ⟨hmem, haccepts⟩ := of_matching hmatch
      have hend := (mem_tokensIn.mp hmem).2
      refine ⟨?_, hspace, isSpelled_of_accepts hend haccepts, hwhole, fun heq => absurd heq hend⟩
      have hdrop : (c :: (v ++ more)).drop ([c] ++ v).length = more := List.drop_left
      rw [hdrop]
      simp

/-- What a scan finds is as it should be. -/
theorem isTokenAt_of_scan {set : Nat} (hset : IsCodeSet set)
    (hwords : ∀ t ∈ tokensIn set, t.isWord = false) {text : List Char} {s : Scanned}
    (h : (scan set text).found = some s) :
    IsTokenAt s.token s.space s.text text (text.drop (s.space.length + s.text.length)) := by
  rw [found_scan hset] at h
  have hskipped : ∀ c ∈ text.takeWhile (isSkipped set), isBlank c = true := fun c hc =>
    (Bool.and_eq_true_iff.mp (List.all_eq_true.mp List.all_takeWhile c hc)).1
  have hat := isTokenAt_of_nextToken hset hwords hskipped h
  rw [List.takeWhile_append_dropWhile] at hat
  rw [← List.drop_drop, space_of_nextToken h, drop_length_takeWhile]
  rwa [space_of_nextToken h] at hat

/-! ### The next token of a state -/

theorem of_word? {text : List Char} {t : Terminal} (h : word? text = some t) :
    t.isWord ∧ t.pattern.accepts text := by
  have hall : (words.all fun w => w.2.isWord && w.2.pattern.accepts w.1) = true := by decide
  obtain ⟨l, r, hwords, -⟩ := List.lookup_eq_some_iff.mp h
  have hmem : (text, t) ∈ words := by rw [hwords]; simp
  exact Bool.and_eq_true_iff.mp (List.all_eq_true.mp hall _ hmem)

/-- What a scanned token is taken for. -/
theorem cases_of_classify (expected : Nat) (s : Scanned) :
    (classify expected s = ⟨s.token, false, s.space, s.text⟩) ∨
    ∃ t, classify expected s = ⟨t, true, s.space, s.text⟩ ∧ s.token = .identifier ∧
      (t = .identifier ∨ t.isWord ∧ t.pattern.accepts s.text) := by
  unfold classify
  split
  · next htoken =>
    split
    · next w hw =>
      refine .inr ⟨_, rfl, htoken, ?_⟩
      split
      · exact .inr (of_word? hw)
      · exact .inl rfl
    · exact .inl (by rw [htoken])
  · exact .inl rfl

/-- Words are read as identifiers. -/
theorem isWord_eq_false_of_mem {set : Nat} : ∀ t ∈ tokensIn (scanSet set), t.isWord = false := by
  intro t ht
  have hin := (mem_tokensIn.mp ht).1
  rw [isIn_scanSet] at hin
  simpa using (Bool.and_eq_true_iff.mp hin).1

/-- The next token of code is as it should be. -/
theorem isTokenAt_of_lookahead {set : Nat} (hset : Terminal.comment.isIn set) {text : List Char}
    {look : Lookahead} (h : lookahead (codeSet set) text = some look) :
    IsTokenAt look.token look.space look.text text
      (text.drop (look.space.length + look.text.length)) := by
  obtain ⟨s, hs, rfl⟩ := Option.map_eq_some_iff.mp h
  have hat := isTokenAt_of_scan (isCodeSet_scanSet hset) isWord_eq_false_of_mem hs
  rcases cases_of_classify (codeSet set) s with heq | ⟨t, heq, htoken, ht⟩
  · rw [heq]
    exact hat
  · rw [heq]
    rcases ht with rfl | ⟨hword, haccepts⟩
    · exact htoken ▸ hat
    · have hend : t ≠ .endOfInput := by rintro rfl; cases hword
      exact { hat with
        spelled := isSpelled_of_accepts hend haccepts
        atEnd := fun heq => absurd heq hend }

/-- A word is spelled like an identifier. -/
theorem accepts_identifier_of_lookahead {set : Nat} (hset : Terminal.comment.isIn set)
    {text : List Char} {look : Lookahead} (h : lookahead (codeSet set) text = some look)
    (hword : look.isWord) : Terminal.identifier.pattern.accepts look.text := by
  obtain ⟨s, hs, rfl⟩ := Option.map_eq_some_iff.mp h
  have hat := isTokenAt_of_scan (isCodeSet_scanSet hset) isWord_eq_false_of_mem hs
  rcases cases_of_classify (codeSet set) s with heq | ⟨t, heq, htoken, -⟩
  · rw [heq] at hword
    cases hword
  · rw [heq]
    have hspelled := hat.spelled
    rw [htoken] at hspelled
    exact hspelled

end GoOutline.Token
