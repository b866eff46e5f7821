import GoOutline.Proofs.Parse.Lexeme
import GoOutline.Proofs.Syntax.Comment
import GoOutline.Syntax.Parse

/-!
# Leaves of a node

The nodes that show of a sound tree have leaves that are spelled as they should be.

* `Node.leaves`: the leaves of a node, with their kinds.
* `Node.IsSpelled`: each token among them is spelled as the lexicon has it.
* `Tree.isSpelled_view`: the nodes of a sound tree are so.
* `isSpelled_of_mem_itemsOf`: the same for all that stands at the top level.
-/

namespace GoOutline.Syntax

open GoOutline.Grammar (RuleName)
open GoOutline.Parse

namespace Node

/-- The leaves of a node, in the order of the source. -/
def leaves (node : Node) : List (Kind × String) :=
  node.fold (fun kind text => [(kind, text)]) fun _ parts => parts.flatMap (·.2)

theorem leaves_branch (n : RuleName) (cs : List Child) :
    (branch n cs).leaves = cs.flatMap (·.2.leaves) := by
  rw [leaves, fold, foldChildren_eq_map, List.flatMap_map]
  rfl

/-- Whether each token in a node is spelled as it should be. -/
def IsSpelled (node : Node) : Prop :=
  ∀ t role text, (Kind.token t role, text) ∈ node.leaves → isSpelled t text.toList

theorem isSpelled_branch {n : RuleName} {cs : List Child} :
    (branch n cs).IsSpelled ↔ ∀ c ∈ cs, c.2.IsSpelled := by
  constructor
  · intro h c hc t role text hleaf
    refine h t role text ?_
    rw [leaves_branch]
    exact List.mem_flatMap.mpr ⟨c, hc, hleaf⟩
  · intro h t role text hleaf
    rw [leaves_branch] at hleaf
    obtain ⟨c, hc, hleaf⟩ := List.mem_flatMap.mp hleaf
    exact h c hc t role text hleaf

/-- Without its comments a node is still spelled as it should be. -/
theorem IsSpelled.bare {node : Node} (h : node.IsSpelled) : node.bare.IsSpelled := by
  induction node using Node.induction with
  | leaf kind text => exact h
  | branch n cs ih =>
    rw [Node.bare]
    refine isSpelled_branch.mpr fun c hc => ?_
    obtain ⟨d, hd, rfl⟩ := exists_of_mem_bareAll hc
    exact ih d hd (isSpelled_branch.mp h d hd)

end Node

end GoOutline.Syntax

namespace GoOutline.Parse

open GoOutline.Grammar GoOutline.Automaton GoOutline.Syntax

namespace Tree

/-- What shows of several trees shows of one of them. -/
theorem exists_view_of_mem_viewAll {ts : List Tree} {field : Option Grammar.Field}
    {labels : List Label} {c : Child} (h : c ∈ viewAll field labels ts) :
    ∃ t ∈ ts, ∃ field label, c ∈ t.view field label := by
  induction ts generalizing labels with
  | nil =>
    rw [viewAll] at h
    cases h
  | cons t ts ih =>
    have hlater : ∀ labels, c ∈ viewAll field labels ts →
        ∃ u ∈ t :: ts, ∃ field label, c ∈ u.view field label := by
      intro labels hc
      obtain ⟨u, hu, hview⟩ := ih hc
      exact ⟨u, List.mem_cons_of_mem t hu, hview⟩
    obtain ⟨labels', h⟩ | h :
        (∃ labels', c ∈ viewAll field labels' ts) ∨ ∃ field label, c ∈ t.view field label := by
      by_cases hextra : t.isExtra <;> cases labels <;>
        simp only [viewAll, hextra, Bool.false_eq_true, if_true, if_false, List.mem_append] at h <;>
        exact h.symm.imp (⟨_, ·⟩) (⟨_, _, ·⟩)
    · exact hlater labels' h
    · exact ⟨t, List.mem_cons_self, h⟩

/-- The nodes of a sound tree that show are spelled as they should be. -/
theorem isSpelled_view (t : Tree) (h : t.isSound) :
    ∀ (field : Option Grammar.Field) (label : Label), ∀ c ∈ t.view field label, c.2.IsSpelled := by
  induction t using Tree.induction with
  | leaf l =>
    intro field label c hc
    obtain ⟨-, ht, -⟩ | ⟨-, t, ht, hspelled, -⟩ := cases_of_isSound_leaf h
    · simp [view, ht, showsToken] at hc
    · rw [view, ht] at hc
      dsimp only at hc
      split at hc
      · obtain rfl := List.mem_singleton.mp hc
        intro t' role text hleaf
        cases List.mem_singleton.mp hleaf
        rwa [String.toList_ofList]
      · cases hc
  | node b cs ih =>
    intro field label c hc
    obtain ⟨⟨n, hn⟩, hextra, hcs⟩ := of_isSound_node h
    have hall : ∀ field labels, ∀ d ∈ viewAll field labels cs, d.2.IsSpelled := by
      intro field labels d hd
      obtain ⟨t, ht, field, label, hview⟩ := exists_view_of_mem_viewAll hd
      exact ih t ht (hcs t ht) field label d hview
    rw [view, hn] at hc
    simp only [hextra, Bool.false_eq_true, if_false] at hc
    split at hc
    · exact hall _ _ c hc
    · split at hc
      · obtain rfl := List.mem_singleton.mp hc
        intro t role text hleaf
        cases List.mem_singleton.mp hleaf
      · obtain rfl := List.mem_singleton.mp hc
        exact Node.isSpelled_branch.mpr (hall _ _)

/-- The trees that show in a sound tree are sound. -/
theorem isSound_of_mem_shown (t : Tree) (h : t.isSound) :
    ∀ place, ∀ u ∈ t.shown place, u.2.isSound := by
  induction t using Tree.induction with
  | leaf l =>
    intro place u hu
    rw [shown] at hu
    split at hu
    · obtain rfl := List.mem_singleton.mp hu
      exact h
    · cases hu
  | node b cs ih =>
    intro place u hu
    rw [shown] at hu
    split at hu
    · obtain rfl := List.mem_singleton.mp hu
      exact h
    · obtain ⟨t, ht, place, hu⟩ := exists_shown_of_mem_shownAll hu
      exact ih t ht ((of_isSound_node h).2.2 t ht) place u hu

end Tree

end GoOutline.Parse

namespace GoOutline.Syntax

open GoOutline.Parse

/-- All that stands at the top level of a sound tree is spelled as it should be. -/
theorem isSpelled_of_mem_itemsOf {tree : Tree} (h : tree.isSound) {i : Item} (hi : i ∈ itemsOf tree) :
    i.node.IsSpelled := by
  simp only [itemsOf, List.mem_flatMap, List.mem_map] at hi
  obtain ⟨⟨place, t⟩, ht, c, hc, rfl⟩ := hi
  obtain ⟨u, hu, start, hshown⟩ := Tree.exists_shown_of_mem_shownAll (List.mem_filter.mp ht).1
  cases tree with
  | leaf l => cases hu
  | node b cs =>
    have hsound := u.isSound_of_mem_shown ((Tree.of_isSound_node h).2.2 u hu) start _ hshown
    exact t.isSpelled_view hsound _ _ c hc

end GoOutline.Syntax
