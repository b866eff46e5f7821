import Mathlib.Data.List.Forall2
import GoOutline.Proofs.Parse.Ahead

/-!
# Stacks over a text with a comment and with a space

Two texts of which the second has a space in the place of a comment of the first.

* `placeIn`: where a place of the text with the space is in the text with the comment.
* `Stack.Same`: stacks over both texts that have come equally far, and have built the same, comments
  apart.
* `Stack.Same.push`, `Stack.Same.reduce`, `Stack.Same.join`: what is done with stacks keeps this.
-/

namespace GoOutline.Parse

open GoOutline.Grammar GoOutline.Automaton GoOutline.Syntax GoOutline.Text GoOutline.Token List

theorem forall₂_and {α β : Type} {R S : α → β → Prop} {xs : List α} {ys : List β}
    (h : Forall₂ R xs ys) (h' : Forall₂ S xs ys) : Forall₂ (fun x y => R x y ∧ S x y) xs ys := by
  induction h with
  | nil => exact .nil
  | cons hxy _ ih =>
    cases h' with
    | cons hxy' h' => exact .cons ⟨hxy, hxy'⟩ (ih h')

theorem forall₂_and_mem {α β : Type} {R : α → β → Prop} {xs : List α} {ys : List β}
    (h : Forall₂ R xs ys) : Forall₂ (fun x y => R x y ∧ x ∈ xs ∧ y ∈ ys) xs ys := by
  induction h with
  | nil => exact .nil
  | cons hxy _ ih =>
    refine .cons ⟨hxy, mem_cons_self, mem_cons_self⟩ (ih.imp fun x y h => ?_)
    exact ⟨h.1, mem_cons_of_mem _ h.2.1, mem_cons_of_mem _ h.2.2⟩

theorem any_eq_of_forall₂ {α β : Type} {R : α → β → Prop} {p : α → Bool} {q : β → Bool}
    (hpq : ∀ x y, R x y → p x = q y) {xs : List α} {ys : List β} (h : Forall₂ R xs ys) :
    xs.any p = ys.any q := by
  induction h with
  | nil => rfl
  | cons hxy _ ih => rw [any_cons, any_cons, hpq _ _ hxy, ih]

/-! ### Places -/

/-- The number of characters left in the text with the comment `c` before `after`, if there is a space
in its place in the other text, and `left` characters are left there. -/
def placeIn (c after : List Char) (left : Nat) : Nat :=
  if left ≤ after.length then left else left - 1 + c.length

section

variable {c after : List Char}

theorem placeIn_inj (hc : c ≠ []) {m n : Nat} : placeIn c after m = placeIn c after n ↔ m = n := by
  have hpos := List.length_pos_iff.mpr hc
  unfold placeIn
  split <;> split <;> omega

theorem placeIn_max (hc : c ≠ []) (m n : Nat) :
    placeIn c after (max m n) = max (placeIn c after m) (placeIn c after n) := by
  have hpos := List.length_pos_iff.mpr hc
  unfold placeIn
  split <;> split <;> split <;> omega

theorem length_of_isBlanked (part : List Char) {text text' : List Char}
    (h : IsBlanked c after text text') :
    (part ++ text).length = placeIn c after (part ++ text').length := by
  obtain ⟨ps, qs, hpieces, rfl, rfl⟩ := h
  have htext : text.length = (sourceOf ps).length + (c.length + (sourceOf qs).length) := by
    conv_lhs => rw [← sourceOf_pieces text, hpieces]
    simp [Piece.chars]
  unfold placeIn
  simp only [length_append, length_cons, htext]
  split <;> omega

/-- Texts that go on alike are equally long, counted in the text with the comment. -/
theorem length_of_parallel {text text' : List Char} (h : Parallel c after text text') :
    text.length = placeIn c after text'.length := by
  rcases h with h | ⟨rfl, hpast⟩
  · exact length_of_isBlanked [] h
  · rw [placeIn, if_pos hpast]

/-! ### Stacks -/

/-- Entries that are the same apart from comments. -/
structure Entry.Same (e e' : Entry) : Prop where
  comments : Tree.bareAll e.comments = []
  comments' : Tree.bareAll e'.comments = []
  tree : e.tree.bare = e'.tree.bare

variable (c after) in
/-- Stacks that have come to the same place in both texts, and have built the same apart from
comments. -/
inductive Stack.Same : Stack → Stack → Prop
  | node {state : ItemSet} {left left' : Nat} {ways ways' : List Way}
      (hleft : left = placeIn c after left')
      (hentries : Forall₂ (fun w w' => Entry.Same w.1 w'.1) ways ways')
      (hbelow : Forall₂ (fun w w' => Same w.2 w'.2) ways ways') :
      Same (.node state left ways) (.node state left' ways')

variable (c after) in
/-- Ways down that are the same. -/
structure Way.Same (w w' : Way) : Prop where
  entry : Entry.Same w.1 w'.1
  below : Stack.Same c after w.2 w'.2

namespace Stack.Same

variable {a a' b b' : Stack}

theorem mk {state : ItemSet} {left left' : Nat} {ways ways' : List Way}
    (hleft : left = placeIn c after left') (h : Forall₂ (Way.Same c after) ways ways') :
    Same c after (.node state left ways) (.node state left' ways') :=
  .node hleft (h.imp fun _ _ hw => hw.entry) (h.imp fun _ _ hw => hw.below)

theorem state (h : Same c after a a') : a.state = a'.state := by
  cases h with
  | node => rfl

theorem left (h : Same c after a a') : a.left = placeIn c after a'.left := by
  cases h with
  | node hleft => exact hleft

theorem ways (h : Same c after a a') : Forall₂ (Way.Same c after) a.ways a'.ways := by
  cases h with
  | node _ hentries hbelow =>
    exact (forall₂_and hentries hbelow).imp fun _ _ hw => ⟨hw.1, hw.2⟩

theorem isWide (h : Same c after a a') : a.isWide = a'.isWide := by
  rw [Stack.isWide, Stack.isWide, h.ways.length_eq]

theorem alike (hc : c ≠ []) (ha : Same c after a a') (hb : Same c after b b') :
    a.alike b = a'.alike b' := by
  have hleft : (a.left == b.left) = (a'.left == b'.left) := by
    rw [Bool.eq_iff_iff, beq_iff_eq, beq_iff_eq, ha.left, hb.left, placeIn_inj hc]
  rw [Stack.alike, Stack.alike, hleft, ha.state, hb.state]

theorem push (h : Same c after a a') (x : Grammar.Symbol) {e e' : Entry} (he : Entry.Same e e')
    {left left' : Nat} (hleft : left = placeIn c after left') :
    Same c after (a.push x e left) (a'.push x e' left') := by
  rw [Stack.push, Stack.push, h.state]
  exact .mk hleft (.cons ⟨he, h⟩ .nil)

/-- All ways down are the same. -/
theorem walk (h : Same c after a a') (count : Nat) {passed passed' : List Entry}
    (hpassed : Forall₂ Entry.Same passed passed') :
    Forall₂ (fun r r' => Forall₂ Entry.Same r.1 r'.1 ∧ Same c after r.2 r'.2)
      (a.walk count passed) (a'.walk count passed') := by
  induction count generalizing a a' passed passed' with
  | zero => exact .cons ⟨hpassed, h⟩ .nil
  | succ count ih =>
    exact rel_flatMap h.ways fun w w' hw => ih hw.below (.cons hw.entry hpassed)

theorem addWay (hc : c ≠ []) {vs vs' : List Way} (h : Forall₂ (Way.Same c after) vs vs')
    {w w' : Way} (hw : Way.Same c after w w') :
    Forall₂ (Way.Same c after) (Stack.addWay vs w) (Stack.addWay vs' w') := by
  induction h with
  | nil => exact .cons hw .nil
  | @cons v v' vs vs' hv hvs ih =>
    have hrank : ∀ {u u' : Way}, Way.Same c after u u' → u.1.tree.rank = u'.1.tree.rank ∧
        u.1.tree.dynamic = u'.1.tree.dynamic := by
      intro u u' hu
      rw [← Tree.rank_bare, ← Tree.rank_bare u'.1.tree, ← Tree.dynamic_bare,
        ← Tree.dynamic_bare u'.1.tree, hu.entry.tree]
      exact ⟨rfl, rfl⟩
    rw [Stack.addWay, Stack.addWay, (hrank hv).1, (hrank hw).1, (hrank hv).2, (hrank hw).2,
      hv.below.alike hc hw.below]
    split
    · refine .cons ?_ hvs
      split
      · exact hw
      · exact hv
    · exact .cons hv ih

theorem foldl_addWay (hc : c ≠ []) {ws ws' : List Way} (h : Forall₂ (Way.Same c after) ws ws')
    {vs vs' : List Way} (hvs : Forall₂ (Way.Same c after) vs vs') :
    Forall₂ (Way.Same c after) (ws.foldl Stack.addWay vs) (ws'.foldl Stack.addWay vs') := by
  induction h generalizing vs vs' with
  | nil => exact hvs
  | cons hw _ ih => exact ih (addWay hc hvs hw)

theorem join (hc : c ≠ []) (ha : Same c after a a') (hb : Same c after b b') :
    Same c after (a.join b) (a'.join b') := by
  rw [Stack.join, Stack.join, ha.state]
  exact .mk ha.left (foldl_addWay hc hb.ways ha.ways)

end Stack.Same

theorem Entry.Same.treesOf {parts parts' : List Entry} (h : Forall₂ Entry.Same parts parts') :
    Tree.bareAll (parts.flatMap fun e => e.comments ++ [e.tree]) =
      Tree.bareAll (parts'.flatMap fun e => e.comments ++ [e.tree]) := by
  induction h with
  | nil => rfl
  | cons he _ ih =>
    simp only [flatMap_cons, Tree.bareAll_append, he.comments, he.comments', nil_append, ih,
      Tree.bareAll_cons_congr he.tree rfl]

/-- The same productions over parts that are the same. -/
theorem Entry.Same.build {i : Grammar.Item} (hi : (Head.nonterminal i.lhs).literal? = none)
    {parts parts' : List Entry} (h : Forall₂ Entry.Same parts parts') :
    Entry.Same (Entry.build i parts) (Entry.build i parts') := by
  cases h with
  | nil => exact ⟨rfl, rfl, rfl⟩
  | @cons e e' parts parts' he hparts =>
    exact ⟨he.comments, he.comments', Tree.bare_branchOf hi _ _
      (Tree.bareAll_cons_congr he.tree (Entry.Same.treesOf hparts))⟩

theorem Stack.Same.reduce (hc : c ≠ []) {a a' : Stack} (h : Same c after a a') {i : Grammar.Item}
    (hi : (Head.nonterminal i.lhs).literal? = none) :
    Forall₂ (Same c after) (a.reduce i) (a'.reduce i) := by
  have hbuilt : Forall₂ (Way.Same c after)
      ((a.walk i.seen.length []).map fun r => (Entry.build i r.1, r.2))
      ((a'.walk i.seen.length []).map fun r => (Entry.build i r.1, r.2)) := by
    rw [forall₂_map_left_iff, forall₂_map_right_iff]
    exact (h.walk i.seen.length .nil).imp fun r r' hr => ⟨Entry.Same.build hi hr.1, hr.2⟩
  unfold Stack.reduce
  rw [forall₂_map_left_iff, forall₂_map_right_iff]
  exact (foldl_addWay hc hbuilt .nil).imp fun w w' hw => hw.below.push _ hw.entry h.left

end

end GoOutline.Parse
