import GoOutline.Parse.Sound

/-!
# Where trees stand

The characters of a tree, and the places of the trees in it that show.

* `Tree.induction`: a property of all trees, from leaves and from what the children have.
* `Tree.chars_eq`: the characters of a tree are the space before it and its text.
* `StandsAt`: some characters are part of a text, after a number of others.
* `Tree.standsAt_of_mem_items`: a tree at the top level stands where it is said to stand.
-/

namespace GoOutline.Parse

namespace Tree

theorem induction {P : Tree → Prop} (leaf : ∀ l, P (leaf l))
    (node : ∀ b cs, (∀ t ∈ cs, P t) → P (node b cs)) : ∀ t, P t
  | .leaf l => leaf l
  | .node b cs => node b cs fun t _ => Tree.induction leaf node t
termination_by t => sizeOf t
decreasing_by
  have := List.sizeOf_lt_of_mem ‹_ ∈ cs›
  simp only [Tree.node.sizeOf_spec]
  omega

/-! ### Characters -/

theorem charsBefore_eq (t : Tree) (tail : List Char) : t.charsBefore tail = t.chars ++ tail := by
  induction t using Tree.induction generalizing tail with
  | leaf l => simp [chars, charsBefore]
  | node b cs ih =>
    have all : ∀ ts : List Tree, (∀ t ∈ ts, t ∈ cs) → ∀ tail,
        charsBefore.go ts tail = charsBefore.go ts [] ++ tail := by
      intro ts hts
      induction ts with
      | nil => exact fun _ => rfl
      | cons t ts ihts =>
        intro tail
        have iht := ih t (hts t List.mem_cons_self)
        have ihts := ihts fun u hu => hts u (List.mem_cons_of_mem t hu)
        rw [charsBefore.go, charsBefore.go, iht, iht (charsBefore.go ts []), ihts,
          List.append_assoc]
    exact all cs (fun _ h => h) tail

@[simp] theorem chars_leaf (l : Leaf) : (leaf l).chars = l.space ++ l.text := by
  simp [chars, charsBefore]

@[simp] theorem chars_node (b : Branch) (cs : List Tree) :
    (node b cs).chars = cs.flatMap chars := by
  rw [chars, charsBefore]
  induction cs with
  | nil => rfl
  | cons c cs ih => rw [charsBefore.go, charsBefore_eq, ih, List.flatMap_cons]

theorem space_prefix_chars (t : Tree) : t.space <+: t.chars := by
  induction t using Tree.induction with
  | leaf l => exact ⟨l.text, by rw [chars_leaf]; rfl⟩
  | node b cs ih =>
    cases cs with
    | nil => exact List.nil_prefix
    | cons c cs =>
      rw [chars_node, List.flatMap_cons]
      exact (ih c List.mem_cons_self).trans (List.prefix_append _ _)

/-- The characters of a tree are the space before it and its text. -/
theorem chars_eq (t : Tree) : t.chars = t.space ++ t.text := by
  obtain ⟨rest, h⟩ := t.space_prefix_chars
  rw [text, ← h, List.drop_left]

end Tree

/-! ### Places -/

/-- Whether some characters are part of a text, after `place` others. -/
def StandsAt (place : Nat) (cs text : List Char) : Prop :=
  ∃ before after, text = before ++ (cs ++ after) ∧ before.length = place

namespace Tree

/-- Whether the places of some trees, counted from `start`, are places in a text. -/
def PlacedIn (text : List Char) (start : Nat) (ts : List (Nat × Tree)) : Prop :=
  ∀ place u, (place, u) ∈ ts → ∃ k, place = start + k ∧ StandsAt k u.text text

theorem placedIn_self (t : Tree) (start : Nat) :
    PlacedIn t.chars start [(start + t.space.length, t)] := by
  intro place u h
  cases List.mem_singleton.mp h
  exact ⟨t.space.length, rfl, t.space, [], by rw [List.append_nil, chars_eq], rfl⟩

/-- What shows among several trees shows in one of them. -/
theorem exists_shown_of_mem_shownAll {ts : List Tree} {place : Nat} {x : Nat × Tree}
    (h : x ∈ shownAll place ts) : ∃ t ∈ ts, ∃ place, x ∈ t.shown place := by
  induction ts generalizing place with
  | nil => cases h
  | cons t ts ih =>
    rw [shownAll] at h
    rcases List.mem_append.mp h with h | h
    · exact ⟨t, List.mem_cons_self, place, h⟩
    · exact (ih h).imp fun u hu => ⟨List.mem_cons_of_mem t hu.1, hu.2⟩

theorem placedIn_shownAll {ts : List Tree}
    (h : ∀ t ∈ ts, ∀ start, PlacedIn t.chars start (t.shown start)) (start : Nat) :
    PlacedIn (ts.flatMap chars) start (shownAll start ts) := by
  induction ts generalizing start with
  | nil => exact fun _ _ h => absurd h List.not_mem_nil
  | cons t ts ih =>
    intro place u hu
    rw [shownAll, List.mem_append] at hu
    rw [List.flatMap_cons]
    rcases hu with hu | hu
    · obtain ⟨k, rfl, before, after, htext, rfl⟩ := h t List.mem_cons_self start place u hu
      exact ⟨_, rfl, before, after ++ ts.flatMap chars, by simp [htext], rfl⟩
    · obtain ⟨k, rfl, before, after, htext, rfl⟩ :=
        ih (fun t' ht' => h t' (List.mem_cons_of_mem t ht')) _ place u hu
      refine ⟨t.chars.length + before.length, by omega, t.chars ++ before, after, ?_, ?_⟩
      · rw [htext, List.append_assoc]
      · rw [List.length_append]

theorem placedIn_shown (t : Tree) (start : Nat) : PlacedIn t.chars start (t.shown start) := by
  induction t using Tree.induction generalizing start with
  | leaf l =>
    rw [shown]
    split
    · exact placedIn_self (leaf l) start
    · exact fun _ _ h => absurd h List.not_mem_nil
  | node b cs ih =>
    rw [shown]
    split
    · exact placedIn_self (node b cs) start
    · rw [chars_node]
      exact placedIn_shownAll ih start

/-- Whether a tree counts at the top level. -/
def isItem (t : Tree) : Bool := !t.isExtra && t.isNamed

/-- A tree at the top level stands where it is said to stand. -/
theorem standsAt_of_mem_items {t u : Tree} {place : Nat} (h : (place, u) ∈ t.items) :
    StandsAt place u.text t.chars := by
  have hmem := (List.mem_filter.mp h).1
  cases t with
  | leaf l => cases hmem
  | node b cs =>
    obtain ⟨k, rfl, hk⟩ := placedIn_shownAll (fun t _ => t.placedIn_shown) 0 place u hmem
    rwa [Nat.zero_add, chars_node]

end Tree

end GoOutline.Parse
