import GoOutline.Parse.Reading
import GoOutline.Proofs.Parse.Lexeme
import GoOutline.Proofs.Token.Look
import GoOutline.Proofs.Token.Quoted

/-!
# Stretches of a text

* `Tree.Spans`: some trees are a stretch of a text: their characters are all of it, nothing in them is
  faulty and no name is cut short.
* `Tree.Spans.append`, `Tree.Spans.branchOf`: stretches one after the other, and under one node.
* `spans_leafOf`, `spans_string`: a token and a string are stretches of the text.
-/

namespace GoOutline.Parse

open GoOutline.Grammar GoOutline.Automaton GoOutline.Syntax GoOutline.Text GoOutline.Token

/-! ### Whole tokens -/

theorem areWhole_cons_iff {l : Lexeme} {ls : List Lexeme} {rest : List Char} :
    areWhole (l :: ls) (l.space ++ (l.text ++ rest)) ↔
      IsWholeBefore l.text rest ∧ areWhole ls rest := by
  have hdrop : (l.space ++ (l.text ++ rest)).drop (l.space.length + l.text.length) = rest := by
    rw [← List.append_assoc, ← List.length_append, List.drop_left]
  rw [areWhole, hdrop, IsWholeBefore]
  simp [imp_iff_not_or]

/-- The characters of some tokens. -/
def Lexeme.charsOf (ls : List Lexeme) : List Char := ls.flatMap fun l => l.space ++ l.text

theorem areWhole_append_iff {ls ms : List Lexeme} {rest : List Char} :
    areWhole (ls ++ ms) (Lexeme.charsOf ls ++ rest) ↔
      areWhole ls (Lexeme.charsOf ls ++ rest) ∧ areWhole ms rest := by
  induction ls with
  | nil => simp [areWhole, Lexeme.charsOf]
  | cons l ls ih =>
    have hchars : Lexeme.charsOf (l :: ls) ++ rest =
        l.space ++ (l.text ++ (Lexeme.charsOf ls ++ rest)) := by simp [Lexeme.charsOf]
    rw [List.cons_append, hchars, areWhole_cons_iff, areWhole_cons_iff, ih, and_assoc]

namespace Tree

/-- What the node over some children is. -/
theorem exists_branchOf_eq (head : Head) (labels : List Label) (d : Int) (cs : List Tree) :
    ∃ b, Tree.branchOf head labels d cs = node b cs ∧ b.head = head ∧ b.labels = labels ∧
      b.isExtra = false ∧ b.dynamic = cs.foldl (fun d c => d + c.dynamic) d :=
  ⟨_, rfl, rfl, rfl, rfl, rfl⟩

theorem isSound_node {b : Branch} {n : Nat} {cs : List Tree} (hhead : b.head = .nonterminal n)
    (hextra : b.isExtra = false) (h : ∀ t ∈ cs, t.isSound) : (node b cs).isSound := by
  simpa [isSound, hhead, hextra, allSound_iff] using h

/-! ### Stretches -/

/-- Some trees are a stretch of a text, before `rest`: nothing in them is faulty, and no name is cut
short. -/
structure Spans (ts : List Tree) (text rest : List Char) : Prop where
  chars_eq : ts.flatMap chars ++ rest = text
  isSound : ∀ t ∈ ts, t.isSound
  areWhole : areWhole (allLexemes ts) text

theorem charsOf_allLexemes {ts : List Tree} (h : ∀ t ∈ ts, t.isSound) :
    Lexeme.charsOf (allLexemes ts) = ts.flatMap chars := by
  rw [Lexeme.charsOf, allLexemes_eq_flatMap, List.flatMap_assoc]
  exact (List.flatMap_congr fun t ht => t.chars_eq_lexemes (h t ht)).symm

namespace Spans

variable {ts us : List Tree} {text rest more : List Char}

theorem nil (text : List Char) : Spans [] text text := ⟨rfl, by simp, rfl⟩

theorem append (h : Spans ts text rest) (h' : Spans us rest more) : Spans (ts ++ us) text more := by
  refine ⟨?_, ?_, ?_⟩
  · rw [List.flatMap_append, List.append_assoc, h'.chars_eq, h.chars_eq]
  · intro t ht
    rcases List.mem_append.mp ht with ht | ht
    · exact h.isSound t ht
    · exact h'.isSound t ht
  · have hchars := charsOf_allLexemes h.isSound
    have hwhole := h.areWhole
    rw [← h.chars_eq, ← hchars] at hwhole ⊢
    rw [allLexemes_eq_flatMap, List.flatMap_append, ← allLexemes_eq_flatMap,
      ← allLexemes_eq_flatMap]
    exact areWhole_append_iff.mpr ⟨hwhole, h'.areWhole⟩

/-- The two parts of a stretch. -/
theorem of_append (h : Spans (ts ++ us) text rest) :
    Spans ts text (us.flatMap chars ++ rest) ∧ Spans us (us.flatMap chars ++ rest) rest := by
  have hts : ∀ t ∈ ts, t.isSound := fun t ht => h.isSound t (List.mem_append_left us ht)
  have hchars : text = Lexeme.charsOf (allLexemes ts) ++ (us.flatMap chars ++ rest) := by
    rw [charsOf_allLexemes hts, ← List.append_assoc, ← List.flatMap_append, h.chars_eq]
  have hwhole := h.areWhole
  rw [allLexemes_eq_flatMap, List.flatMap_append, ← allLexemes_eq_flatMap, ← allLexemes_eq_flatMap,
    hchars, areWhole_append_iff, ← hchars] at hwhole
  refine ⟨⟨?_, hts, hwhole.1⟩, rfl, fun t ht => h.isSound t (List.mem_append_right ts ht), hwhole.2⟩
  rw [← List.append_assoc, ← List.flatMap_append, h.chars_eq]

/-- A stretch under one node, if the node is no string. -/
theorem branchOf {n : Nat} {labels : List Label} {d : Int} (h : Spans ts text rest)
    (hn : (Head.nonterminal n).literal? = none) :
    Spans [.branchOf (.nonterminal n) labels d ts] text rest := by
  obtain ⟨b, hb, hhead, -, hextra, -⟩ :=
    exists_branchOf_eq (.nonterminal n) labels d ts
  rw [hb]
  refine ⟨?_, ?_, ?_⟩
  · rw [List.flatMap_singleton, chars_node, h.chars_eq]
  · intro t ht
    rw [List.mem_singleton.mp ht]
    exact isSound_node hhead hextra h.isSound
  · have hlexemes : allLexemes [node b ts] = allLexemes ts := by
      simp [allLexemes, lexemes, hhead, hn]
    rw [hlexemes]
    exact h.areWhole

/-- The children of a node that is no string are a stretch. -/
theorem of_node {b : Branch} (h : Spans [node b ts] text rest) (hb : b.head.literal? = none) :
    Spans ts text rest := by
  refine ⟨?_, ?_, ?_⟩
  · rw [← h.chars_eq, List.flatMap_singleton, chars_node]
  · exact (of_isSound_node (h.isSound _ List.mem_cons_self)).2.2
  · have hwhole := h.areWhole
    have hlexemes : allLexemes [node b ts] = allLexemes ts := by simp [allLexemes, lexemes, hb]
    rwa [hlexemes] at hwhole

end Spans

end Tree

/-! ### Tokens and strings -/

/-- The leaf of a token that was found. -/
def leafAt (t : Terminal) (space text : List Char) (isExtra : Bool) : Tree :=
  .leaf { Tree.leafOf (some t) space text with isExtra := isExtra }

theorem isSound_leafAt {t : Terminal} {space text : List Char} {isExtra : Bool}
    (hspelled : isSpelled t text) (hspace : ∀ c ∈ space, isGap c)
    (hextra : isExtra → t = .comment ∨ t = .endOfInput) : (leafAt t space text isExtra).isSound := by
  have hor : (!isExtra || some t == some .comment || some t == some .endOfInput) = true := by
    cases isExtra with
    | false => rfl
    | true => rcases hextra rfl with rfl | rfl <;> rfl
  show ((some t).any (isSpelled · text) && space.all isGap
    && (!isExtra || some t == some .comment || some t == some .endOfInput)) = true
  rw [hor, List.all_eq_true.mpr hspace, Option.any_some, hspelled]
  rfl

/-- A token is a stretch of the text. -/
theorem spans_leafAt {t : Terminal} {space text rest : List Char} {isExtra : Bool}
    (hspelled : isSpelled t text) (hspace : ∀ c ∈ space, isGap c) (hwhole : IsWholeBefore text rest)
    (hextra : isExtra → t = .comment ∨ t = .endOfInput) :
    Tree.Spans [leafAt t space text isExtra] (space ++ (text ++ rest)) rest := by
  refine ⟨?_, ?_, ?_⟩
  · simp [leafAt, Tree.leafOf]
  · intro u hu
    rw [List.mem_singleton.mp hu]
    exact isSound_leafAt hspelled hspace hextra
  · have hlexemes : Tree.allLexemes [leafAt t space text isExtra] =
        [⟨.token t none, space, text⟩] := by
      simp [leafAt, Tree.leafOf, Tree.allLexemes, Tree.lexemes]
    rw [hlexemes]
    exact areWhole_cons_iff.mpr ⟨hwhole, rfl⟩

theorem isSpelled_of_isPart {s : Scanned} (h : s.IsPart) : isSpelled s.token s.text :=
  isSpelled_of_accepts (by rintro heq; have := h.token; rw [heq] at this; cases this) h.text

theorem isSound_partOf {s : Scanned} (h : s.IsPart) : (partOf s).isSound := by
  refine isSound_leafAt (isSpelled_of_isPart h) (fun c hc => ?_) fun hcomment => ?_
  · rw [isGap, h.space c hc]
    rfl
  · exact .inl (eq_of_beq hcomment)

/-- A string is a stretch of the text. -/
theorem spans_string {n : RuleName} (hn : (Head.nonterminal n.ctorIdx).literal?.isSome)
    {look : Lookahead} {parts : List Scanned} {rest : List Char}
    (hlook : isSpelled look.token look.text) (hspace : ∀ c ∈ look.space, isGap c)
    (hquote : ∃ c, look.text = [c] ∧ isIdentifierStart c = false)
    (hparts : ∀ s ∈ parts, s.IsPart) :
    Tree.Spans [(Taken.string n look (parts, rest)).tree]
      (look.space ++ (look.text ++ (charsOf parts ++ rest))) rest := by
  obtain ⟨b, hb, hhead, -, hextra, -⟩ := Tree.exists_branchOf_eq (.nonterminal n.ctorIdx) [] 0
    (.leaf (leafOf look) :: parts.map partOf)
  have hquoteSound : (Tree.leaf (leafOf look)).isSound :=
    isSound_leafAt hlook hspace fun h => .inr (by simpa using h)
  have hchars : (Tree.node b (.leaf (leafOf look) :: parts.map partOf)).chars =
      look.space ++ (look.text ++ charsOf parts) := by
    have hpart : ∀ s ∈ parts, (partOf s).chars = s.space ++ s.text := fun s _ => by
      simp [partOf, Tree.leafOf]
    rw [Tree.chars_node, List.flatMap_cons, List.flatMap_map, List.flatMap_congr hpart]
    simp [charsOf, leafOf, Tree.leafOf]
  have htree : (Taken.string n look (parts, rest)).tree =
      .node b (.leaf (leafOf look) :: parts.map partOf) := hb
  rw [htree]
  refine ⟨?_, ?_, ?_⟩
  · rw [List.flatMap_singleton, hchars]
    simp
  · intro t ht
    rw [List.mem_singleton.mp ht]
    refine Tree.isSound_node hhead hextra (List.forall_mem_cons.mpr ⟨hquoteSound, ?_⟩)
    exact List.forall_mem_map.mpr fun s hs => isSound_partOf (hparts s hs)
  · obtain ⟨m, hm⟩ := Option.isSome_iff_exists.mp hn
    obtain ⟨c, hc, hstart⟩ := hquote
    have htext : (Tree.node b (.leaf (leafOf look) :: parts.map partOf)).text =
        c :: charsOf parts := by
      rw [Tree.text, hchars, hc]
      exact List.drop_left
    have hlexemes : Tree.allLexemes [.node b (.leaf (leafOf look) :: parts.map partOf)] =
        [⟨.rule m, look.space, c :: charsOf parts⟩] := by
      simp [Tree.allLexemes, Tree.lexemes, hhead, hm, htext]
      rfl
    rw [hlexemes, hc, List.singleton_append, ← List.cons_append]
    refine areWhole_cons_iff.mpr ⟨fun h => ?_, rfl⟩
    simp [hstart] at h

end GoOutline.Parse
