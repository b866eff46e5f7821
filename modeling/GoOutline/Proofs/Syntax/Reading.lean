import GoOutline.Proofs.Parse.Place
import GoOutline.Syntax.Parse

/-!
# What is read of a text

* `IsReading`: what holds of a text and of the tree that is read of it.
* `isReading_of_readingOf`: whatever is read of a text is so.
* `readingOf_of_isReading`: what the direct reader finds is read, if it is so.
* `IsReading.standsAt`: an item stands in the text where it is said to stand.
-/

namespace GoOutline.Syntax

open GoOutline.Parse GoOutline.Token

/-- A tree is that of a text: nothing in it is faulty, its tokens are whole, and without comments its
nodes are as the grammar has them. -/
structure IsReading (text : List Char) (tree : Tree) : Prop where
  chars_eq : tree.chars = text
  isSound : tree.isSound
  areWhole : areWhole tree.tokens text
  conforms : ∀ i ∈ itemsOf tree, i.node.bare.conforms

variable {text : List Char} {tree : Tree}

theorem chars_eq_of_treeOf (h : treeOf text = some tree) : tree.chars = text := by
  simp only [treeOf, Option.orElse_eq_orElse, Option.orElse_eq_or, Option.or_eq_some_iff,
    Option.filter_eq_some_iff, beq_iff_eq] at h
  obtain ⟨-, h⟩ | ⟨-, -, h⟩ := h
  · exact h
  · exact h

/-- Whatever is read of a text is the tree of that text. -/
theorem isReading_of_readingOf (h : readingOf text = some tree) : IsReading text tree := by
  simp only [readingOf, Option.filter_eq_some_iff, Bool.and_eq_true, List.all_eq_true] at h
  obtain ⟨htree, ⟨hsound, hwhole⟩, hitems⟩ := h
  exact ⟨chars_eq_of_treeOf htree, hsound, hwhole, hitems⟩

/-- What the direct reader finds is read, if it is the tree of the text. -/
theorem readingOf_of_isReading (hread : read? text = some tree) (h : IsReading text tree) :
    readingOf text = some tree := by
  have htree : treeOf text = some tree := by
    delta treeOf
    simp [hread, h.chars_eq]
  delta readingOf
  rw [htree]
  simpa [h.isSound, h.areWhole] using h.conforms

theorem standsAt_of_mem_itemsOf {i : Item} (h : i ∈ itemsOf tree) :
    StandsAt i.place i.text tree.chars := by
  simp only [itemsOf, List.mem_flatMap, List.mem_map] at h
  obtain ⟨⟨place, t⟩, ht, c, -, rfl⟩ := h
  exact Tree.standsAt_of_mem_items ht

/-- An item stands in the text where it is said to stand. -/
theorem IsReading.standsAt (h : IsReading text tree) {i : Item} (hi : i ∈ itemsOf tree) :
    StandsAt i.place i.text text := by
  rw [← h.chars_eq]
  exact standsAt_of_mem_itemsOf hi

end GoOutline.Syntax
