import GoOutline.Proofs.Parse.Lexeme
import GoOutline.Proofs.Syntax.Order

/-!
# Tokens of a file

The identifiers and literals of an accepted file are those of its text, in the same order.

* `LaidOut`: a text is made of some tokens with gaps before them. Comments are among the tokens.
* `laidOut_of_readingOf`: a text is made of the tokens of its tree.
* `words_of_parse`: the words of a file are those of the tokens of its text. Only the third and later
  expressions on the left of a `range` are left out.
* `exists_token_of_mem_words`: the token that a word is.
-/

namespace GoOutline.Syntax

open GoOutline.Parse GoOutline.Text GoOutline.Token

/-! ### Layout -/

/-- Whether a text is made of some tokens, each after a gap. No name or keyword goes on after its
token. -/
inductive LaidOut : List Lexeme → List Char → Prop
  | nil : LaidOut [] []
  | cons {l : Lexeme} {ls : List Lexeme} {gap rest : List Char} (hgap : ∀ c ∈ gap, isGap c)
      (hwhole : l.text.head?.any isIdentifierStart → rest.head?.any isIdentifierPart = false)
      (hrest : LaidOut ls rest) : LaidOut (l :: ls) (gap ++ (l.text ++ rest))

theorem areWhole_cons {l : Lexeme} {ls : List Lexeme} {text : List Char} (rest : List Char)
    (hrest : text.drop (l.space.length + l.text.length) = rest) :
    areWhole (l :: ls) text ↔
      (l.text.head?.any isIdentifierStart → rest.head?.any isIdentifierPart = false) ∧
        areWhole ls rest := by
  rw [areWhole, hrest]
  simp [imp_iff_not_or]

/-- Tokens with the spaces before them are laid out. -/
theorem laidOut_of_isSound {ls : List Lexeme} (h : ∀ l ∈ ls, l.IsSound)
    (hwhole : areWhole ls (ls.flatMap fun l => l.space ++ l.text)) :
    LaidOut ls (ls.flatMap fun l => l.space ++ l.text) := by
  induction ls with
  | nil => exact .nil
  | cons l ls ih =>
    obtain ⟨hl, hls⟩ := List.forall_mem_cons.mp h
    rw [List.flatMap_cons, List.append_assoc] at hwhole ⊢
    obtain ⟨hend, hwhole⟩ := (areWhole_cons _ (by rw [← List.append_assoc,
      ← List.length_append, List.drop_left])).mp hwhole
    exact .cons (List.all_eq_true.mp hl.1) hend (ih hls hwhole)

/-- A text is made of the tokens of its tree. -/
theorem laidOut_of_readingOf {text : List Char} {b : Branch} {cs : List Tree}
    (h : readingOf text = some (.node b cs)) : LaidOut (Parse.Tree.node b cs).tokens text := by
  have hreading := isReading_of_readingOf h
  obtain ⟨hsound, hchars⟩ := Tree.isSound_tokens hreading.isSound
  have hwhole := hreading.areWhole
  rw [← hreading.chars_eq, hchars] at hwhole ⊢
  exact laidOut_of_isSound hsound hwhole

/-! ### Words -/

/-- The nodes of the items have the words of all tokens. -/
theorem words_itemsOf {b : Branch} {cs : List Tree} (h : (Parse.Tree.node b cs).isSound) :
    (itemsOf (.node b cs)).flatMap (·.node.words []) =
      (Parse.Tree.node b cs).tokens.flatMap Lexeme.words := by
  rw [← Tree.words_items h, itemsOf, List.flatMap_assoc]
  simp only [List.flatMap_map]

/-- A tree with items is a node. -/
theorem exists_eq_node_of_fileOf {tree : Tree} {file : File}
    (h : fileOf (itemsOf tree) = .ok file) : ∃ b cs, tree = .node b cs := by
  cases tree with
  | leaf l => cases h
  | node b cs => exact ⟨b, cs, rfl⟩

/-- The identifiers and literals of an accepted file are the tokens of its text, in the same order and
as they are spelled there. Only the third and later expressions on the left of a `range` are left out,
and the dot that may stand for the name of an import is added. -/
theorem words_of_parse {name source : String} {file : File} (h : parse name source = .ok file) :
    ∃ tree, readingOf source.toList = some tree ∧
      LaidOut tree.tokens source.toList ∧ (∀ l ∈ tree.tokens, l.IsSound) ∧
      tree.tokens.flatMap Lexeme.words = (itemsOf tree).flatMap (·.node.bare.words []) ∧
      file.words = (itemsOf tree).flatMap (·.node.bare.pruned.words ["."]) := by
  obtain ⟨tree, hread, hfile⟩ := exists_readingOf_of_parse h
  obtain ⟨b, cs, rfl⟩ := exists_eq_node_of_fileOf hfile
  have hreading := isReading_of_readingOf hread
  refine ⟨.node b cs, hread, laidOut_of_readingOf hread,
    (Tree.isSound_tokens hreading.isSound).1, ?_, (of_fileOf_eq_ok hreading.conforms hfile).2⟩
  simp only [Node.words_bare]
  exact (words_itemsOf hreading.isSound).symm

theorem words_loopSource : ∃ file, parse "p.go" loopSource = .ok file ∧
    ∃ tree, readingOf loopSource.toList = some tree ∧
      LaidOut tree.tokens loopSource.toList ∧ (∀ l ∈ tree.tokens, l.IsSound) ∧
      tree.tokens.flatMap Lexeme.words = (itemsOf tree).flatMap (·.node.bare.words []) ∧
      file.words = (itemsOf tree).flatMap (·.node.bare.pruned.words ["."]) := by
  obtain ⟨tree, file, -, h, hfile⟩ := exists_reading_loopSource
  have hparse : parse "p.go" loopSource = .ok file := parse_eq_of_fileOf_eq_ok h hfile
  exact ⟨file, hparse, words_of_parse hparse⟩

/-! ### Words in the text -/

namespace Node

theorem words_firstTwo_subset (dot : List String) (c : Child) :
    (firstTwo c).2.words dot ⊆ c.2.words dot := by
  unfold firstTwo
  split
  · rw [words_branch, words_branch]
    intro w hw
    simp only [List.mem_append, List.mem_flatMap] at hw ⊢
    exact hw.imp_right fun ⟨c, hc, hw⟩ => ⟨c, List.mem_of_mem_take hc, hw⟩
  · exact List.Subset.refl _

theorem words_pruned_subset (dot : List String) (node : Node) :
    node.pruned.words dot ⊆ node.words dot := by
  induction node using Node.induction with
  | leaf kind text => exact List.Subset.refl _
  | branch rule children ih =>
    rw [pruned_branch, words_branch, words_branch]
    intro w hw
    simp only [List.mem_append, List.mem_flatMap] at hw ⊢
    refine hw.imp_right ?_
    rintro ⟨d, hd, hw⟩
    split at hd
    all_goals
      obtain ⟨c, hc, rfl⟩ := List.mem_map.mp hd
    · exact ⟨c, hc, ih c hc (words_firstTwo_subset dot _ hw)⟩
    · exact ⟨c, hc, ih c hc hw⟩

theorem mem_words_dot {node : Node} {w dot : String} (h : w ∈ node.words [dot]) :
    w = dot ∨ w ∈ node.words [] := by
  induction node using Node.induction with
  | leaf kind text => exact .inr h
  | branch rule children ih =>
    rw [words_branch, List.mem_append, List.mem_flatMap] at h
    rcases h with h | ⟨c, hc, h⟩
    · split at h
      · exact .inl (List.mem_singleton.mp h)
      · cases h
    · refine (ih c hc h).imp_right fun h => ?_
      rw [words_branch]
      exact List.mem_append_right _ (List.mem_flatMap.mpr ⟨c, hc, h⟩)

end Node

theorem LaidOut.infix_of_mem {ls : List Lexeme} {text : List Char} (h : LaidOut ls text)
    {l : Lexeme} (hl : l ∈ ls) : l.text <:+: text := by
  induction h with
  | nil => cases hl
  | @cons l' _ gap rest _ _ _ ih =>
    rcases List.mem_cons.mp hl with rfl | hl
    · exact ⟨gap, rest, by simp⟩
    · obtain ⟨before, after, h⟩ := ih hl
      exact ⟨gap ++ (l'.text ++ before), after, by simp [← h]⟩

/-- Every word of an accepted file is a token of its text. -/
theorem exists_token_of_mem_words {name source : String} {file : File}
    (h : parse name source = .ok file) {w : String} (hw : w ∈ file.words) :
    w = "." ∨ ∃ tree, readingOf source.toList = some tree ∧
      ∃ l ∈ tree.tokens, l.IsSound ∧ l.kind.isWord ∧ l.text = w.toList ∧
        w.toList <:+: source.toList := by
  obtain ⟨tree, hread, hfile⟩ := exists_readingOf_of_parse h
  obtain ⟨b, cs, rfl⟩ := exists_eq_node_of_fileOf hfile
  have hreading := isReading_of_readingOf hread
  rw [(of_fileOf_eq_ok hreading.conforms hfile).2, List.mem_flatMap] at hw
  obtain ⟨i, hi, hw⟩ := hw
  refine (Node.mem_words_dot (Node.words_pruned_subset _ _ hw)).imp_right fun hw => ?_
  rw [Node.words_bare] at hw
  have hmem : w ∈ (Parse.Tree.node b cs).tokens.flatMap Lexeme.words := by
    rw [← words_itemsOf hreading.isSound]
    exact List.mem_flatMap.mpr ⟨i, hi, hw⟩
  obtain ⟨l, hl, hw⟩ := List.mem_flatMap.mp hmem
  rw [Lexeme.words] at hw
  split at hw
  case isTrue hword =>
    obtain rfl := List.mem_singleton.mp hw
    rw [String.toList_ofList]
    exact ⟨_, hread, l, hl, (Tree.isSound_tokens hreading.isSound).1 l hl, hword, rfl,
      (laidOut_of_readingOf hread).infix_of_mem hl⟩
  case isFalse => cases hw

end GoOutline.Syntax
