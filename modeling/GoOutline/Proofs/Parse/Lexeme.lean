import GoOutline.Proofs.Parse.Place
import GoOutline.Proofs.Syntax.Words

/-!
# Tokens of a tree

What the tokens of a sound tree are, and that the words among them are the words of its nodes.

* `Lexeme.words`: the token itself, if it is an identifier or a literal.
* `Tree.words_view`: the nodes of a tree that show have the words of its tokens.
* `Tree.words_items`: the same for all that stands at the top level.
* `Tree.isSound_tokens`: the tokens with the spaces before them are the text.
-/

namespace GoOutline.Parse

open GoOutline.Grammar GoOutline.Automaton GoOutline.Syntax GoOutline.Token

/-- The token itself, if it is an identifier or a literal. -/
def Lexeme.words (l : Lexeme) : List String :=
  if l.kind.isWord then [String.ofList l.text] else []

/-- Whether only white space stands before a token, and it is spelled as it should be. -/
def Lexeme.IsSound (l : Lexeme) : Prop :=
  l.space.all isGap ∧ ∀ t role, l.kind = .token t role → isSpelled t l.text

namespace Tree

theorem allSound_iff {ts : List Tree} : allSound ts ↔ ∀ t ∈ ts, t.isSound := by
  induction ts with
  | nil => simp [allSound]
  | cons t ts ih => simp [allSound, ih]

theorem allLexemes_eq_flatMap (ts : List Tree) : allLexemes ts = ts.flatMap lexemes := by
  induction ts with
  | nil => rfl
  | cons t ts ih => rw [allLexemes, ih, List.flatMap_cons]

/-- A sound node is one of the grammar, and its children are sound. -/
theorem of_isSound_node {b : Branch} {cs : List Tree} (h : (node b cs).isSound) :
    (∃ n, b.head = .nonterminal n) ∧ b.isExtra = false ∧ ∀ t ∈ cs, t.isSound := by
  simp only [isSound, Bool.and_eq_true, Bool.not_eq_true', allSound_iff] at h
  obtain ⟨⟨hhead, hextra⟩, hcs⟩ := h
  refine ⟨?_, hextra, hcs⟩
  cases hb : b.head with
  | nonterminal n => exact ⟨n, rfl⟩
  | fault => simp [hb] at hhead
  | skipped => simp [hb] at hhead

/-- What a sound leaf is: a missing line break, or a token as it is spelled. -/
theorem cases_of_isSound_leaf {l : Leaf} (h : (leaf l).isSound) :
    (l.isMissing = true ∧ l.token = some .lineBreak ∧ l.space = [] ∧ l.text = []) ∨
    (l.isMissing = false ∧ ∃ t, l.token = some t ∧ isSpelled t l.text ∧
      (l.isExtra → t = .comment ∨ t = .endOfInput)) := by
  simp only [isSound, Leaf.isSound, Bool.and_eq_true] at h
  obtain ⟨⟨htoken, -⟩, hextra⟩ := h
  cases hmissing : l.isMissing with
  | true => simpa [hmissing, and_assoc] using htoken
  | false =>
    obtain ⟨t, ht, hspelled⟩ : ∃ t, l.token = some t ∧ isSpelled t l.text := by
      simpa [hmissing, Option.any_eq_true] using htoken
    exact .inr ⟨rfl, t, ht, hspelled, fun he => by simpa [he, ht] using hextra⟩

/-! ### Words -/

theorem shows_of_carriesText {t : Terminal} (h : carriesText t) :
    showsToken t ∧ t.isNamed ∧ t ≠ .comment := by
  cases t <;> cases h <;> decide

/-- A sound leaf is no word, or an identifier or a literal that shows. -/
theorem cases_words_leaf {l : Leaf} (h : (leaf l).isSound) :
    (∃ t, l.token = some t ∧ carriesText t = false ∧
      (leaf l).lexemes.flatMap Lexeme.words = []) ∨
    ∃ t, l.token = some t ∧ carriesText t ∧ l.isExtra = false ∧ showsToken t ∧ t.isNamed ∧
      (leaf l).lexemes.flatMap Lexeme.words = [String.ofList l.text] := by
  obtain ⟨hmissing, ht, -⟩ | ⟨hmissing, t, ht, -, hor⟩ := cases_of_isSound_leaf h
  · exact .inl ⟨.lineBreak, ht, rfl, by simp [lexemes, ht, hmissing]⟩
  · by_cases hword : carriesText t
    · obtain ⟨hshows, hnamed, hcomment⟩ := shows_of_carriesText hword
      have hextra : l.isExtra = false := by
        rw [Bool.eq_false_iff]
        intro he
        rcases hor he with rfl | rfl
        · exact hcomment rfl
        · cases hword
      exact .inr ⟨t, ht, hword, hextra, hshows, hnamed,
        by simp [lexemes, ht, hmissing, Lexeme.words, Kind.isWord, hword]⟩
    · exact .inl ⟨t, ht, by simpa using hword,
        by simp [lexemes, ht, hmissing, Lexeme.words, Kind.isWord, hword]⟩

theorem words_viewAll {ts : List Tree}
    (h : ∀ t ∈ ts, ∀ field label,
      (t.view field label).flatMap (·.2.words []) = t.lexemes.flatMap Lexeme.words)
    (field : Option Grammar.Field) (labels : List Label) :
    (viewAll field labels ts).flatMap (·.2.words []) =
      (allLexemes ts).flatMap Lexeme.words := by
  induction ts generalizing labels with
  | nil => simp [viewAll, allLexemes]
  | cons t ts ih =>
    have ih := ih fun u hu => h u (List.mem_cons_of_mem t hu)
    have hview := h t List.mem_cons_self
    rw [allLexemes, List.flatMap_append]
    by_cases hextra : t.isExtra <;> cases labels <;> simp [viewAll, hextra, ih, hview]

/-- The nodes of a tree that show have the words of its tokens. -/
theorem words_view (t : Tree) (h : t.isSound) (field : Option Grammar.Field) (label : Label) :
    (t.view field label).flatMap (·.2.words []) = t.lexemes.flatMap Lexeme.words := by
  induction t using Tree.induction generalizing field label with
  | leaf l =>
    obtain ⟨t, ht, hword, hnone⟩ | ⟨t, ht, hword, -, hshows, -, hone⟩ := cases_words_leaf h
    · simp [hnone, view, ht, Kind.isWord, hword]
    · simp [view, ht, hshows, hone, Kind.isWord, hword]
  | node b cs ih =>
    obtain ⟨⟨n, hn⟩, hextra, hcs⟩ := of_isSound_node h
    have all := words_viewAll fun t ht => ih t ht (hcs t ht)
    by_cases hhidden : isHidden n
    · simp [view, lexemes, Head.literal?, hn, hextra, hhidden, all]
    · by_cases hliteral : isLiteral (RuleName.ofNat n)
      · simp [view, lexemes, Head.literal?, hn, hextra, hhidden, hliteral, Lexeme.words, Kind.isWord]
      · simp [view, lexemes, Head.literal?, hn, hextra, hhidden, hliteral, Node.words_branch, all]

/-! ### The top level -/

/-- The words of some trees, without those that do not count. -/
def itemWords (ts : List (Nat × Tree)) : List String :=
  (ts.filter (·.2.isItem)).flatMap fun t => (t.2.view none Label.none).flatMap (·.2.words [])

theorem itemWords_append (ts us : List (Nat × Tree)) :
    itemWords (ts ++ us) = itemWords ts ++ itemWords us := by
  rw [itemWords, List.filter_append, List.flatMap_append]
  rfl

theorem itemWords_shownAll {ts : List Tree}
    (h : ∀ t ∈ ts, ∀ place, itemWords (t.shown place) = t.lexemes.flatMap Lexeme.words)
    (place : Nat) : itemWords (shownAll place ts) = (allLexemes ts).flatMap Lexeme.words := by
  induction ts generalizing place with
  | nil => rfl
  | cons t ts ih =>
    rw [shownAll, itemWords_append, h t List.mem_cons_self,
      ih fun u hu => h u (List.mem_cons_of_mem t hu), allLexemes, List.flatMap_append]

/-- What counts in a tree at the top level has all its words. -/
theorem itemWords_shown (t : Tree) (h : t.isSound) (place : Nat) :
    itemWords (t.shown place) = t.lexemes.flatMap Lexeme.words := by
  induction t using Tree.induction generalizing place with
  | leaf l =>
    have hview := words_view (leaf l) h none Label.none
    obtain ⟨t, ht, hword, hnone⟩ | ⟨t, ht, -, hextra, hshows, hnamed, -⟩ := cases_words_leaf h
    · rw [hnone] at hview ⊢
      rw [shown, itemWords, List.flatMap_eq_nil_iff]
      intro u hu
      obtain ⟨hu, -⟩ := List.mem_filter.mp hu
      split at hu
      · cases List.mem_singleton.mp hu
        exact hview
      · cases hu
    · simpa [shown, ht, hshows, itemWords, isItem, isExtra, hextra, isNamed, hnamed] using hview
  | node b cs ih =>
    obtain ⟨⟨n, hn⟩, hextra, hcs⟩ := of_isSound_node h
    by_cases hhidden : isHidden n
    · have all := itemWords_shownAll (fun t ht => ih t ht (hcs t ht)) place
      simpa [shown, shows, lexemes, Head.literal?, hn, hhidden] using all
    · have view := words_view (node b cs) h none Label.none
      simpa [shown, shows, itemWords, isItem, isExtra, isNamed, hn, hhidden, hextra] using view

/-- The nodes at the top level have the words of all tokens. -/
theorem words_items {b : Branch} {cs : List Tree} (h : (node b cs).isSound) :
    ((node b cs).items.flatMap fun t => (t.2.view none Label.none).flatMap (·.2.words [])) =
      (node b cs).tokens.flatMap Lexeme.words :=
  itemWords_shownAll (fun t ht => t.itemWords_shown ((of_isSound_node h).2.2 t ht)) 0

/-! ### Tokens in the text -/

theorem all_isGap_space (t : Tree) (h : t.isSound) : t.space.all isGap := by
  induction t using Tree.induction with
  | leaf l =>
    simp only [isSound, Leaf.isSound, Bool.and_eq_true] at h
    exact h.1.2
  | node b cs ih =>
    cases cs with
    | nil => rfl
    | cons c cs =>
      exact ih c List.mem_cons_self ((of_isSound_node h).2.2 c List.mem_cons_self)

theorem isSound_of_mem_lexemes (t : Tree) (h : t.isSound) : ∀ l ∈ t.lexemes, l.IsSound := by
  induction t using Tree.induction with
  | leaf l =>
    have hgap := all_isGap_space (leaf l) h
    obtain ⟨hmissing, ht, -⟩ | ⟨hmissing, t, ht, hspelled, -⟩ := cases_of_isSound_leaf h
    · simp [lexemes, ht, hmissing]
    · simp only [lexemes, ht, hmissing, Bool.false_eq_true, if_false, List.mem_singleton, forall_eq]
      exact ⟨hgap, fun _ _ hk => by cases hk; exact hspelled⟩
  | node b cs ih =>
    have hcs := (of_isSound_node h).2.2
    rw [lexemes]
    split
    · simp only [List.mem_singleton, forall_eq]
      exact ⟨all_isGap_space (node b cs) h, fun _ _ hk => by cases hk⟩
    · rw [allLexemes_eq_flatMap, List.forall_mem_flatMap]
      exact fun t ht => ih t ht (hcs t ht)

theorem chars_eq_allLexemes (b : Branch) {cs : List Tree}
    (h : ∀ t ∈ cs, t.chars = t.lexemes.flatMap fun l => l.space ++ l.text) :
    (node b cs).chars = (allLexemes cs).flatMap fun l => l.space ++ l.text := by
  rw [allLexemes_eq_flatMap, chars_node, List.flatMap_assoc, List.flatMap_def, List.flatMap_def,
    List.map_congr_left h]

/-- The tokens of a tree with the spaces before them are its characters. -/
theorem chars_eq_lexemes (t : Tree) (h : t.isSound) :
    t.chars = t.lexemes.flatMap fun l => l.space ++ l.text := by
  induction t using Tree.induction with
  | leaf l =>
    obtain ⟨hmissing, ht, hspace, htext⟩ | ⟨hmissing, t, ht, -⟩ := cases_of_isSound_leaf h
    · simp [lexemes, ht, hmissing, hspace, htext]
    · simp [lexemes, ht, hmissing]
  | node b cs ih =>
    rw [lexemes]
    split
    · rw [List.flatMap_singleton, chars_eq]
    · exact chars_eq_allLexemes b fun t ht => ih t ht ((of_isSound_node h).2.2 t ht)

/-- The tokens of a whole file are sound, and with the spaces before them they are its text. -/
theorem isSound_tokens {b : Branch} {cs : List Tree} (h : (node b cs).isSound) :
    (∀ l ∈ (node b cs).tokens, l.IsSound) ∧
      (node b cs).chars = (node b cs).tokens.flatMap fun l => l.space ++ l.text := by
  have hcs := (of_isSound_node h).2.2
  refine ⟨?_, chars_eq_allLexemes b fun t ht => t.chars_eq_lexemes (hcs t ht)⟩
  rw [tokens, allLexemes_eq_flatMap, List.forall_mem_flatMap]
  exact fun t ht => t.isSound_of_mem_lexemes (hcs t ht)

end Tree

end GoOutline.Parse
