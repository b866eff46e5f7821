import GoOutline.Proofs.Outline.Frame

/-!
# Numbers after a change

A change to the node with some number may show or hide nodes, and then others get new numbers. But
these are nodes further down: the nodes up to the changed one keep their numbers. So a second step
with the same number finds the same node, and steps that go from the bottom up find the nodes that
had these numbers at the start.

* `Forest.getElem?_flatten_modifyAt`, `Forest.locate?_modifyAt`: the nodes up to the changed one.
* `Forest.modifyAt_modifyAt`: two changes at one number are one.
* `Forest.toggle_setCollapsed_same_number`: steps with the same number.
* `Forest.toggleWhere`: a forest with the marks at some paths inverted at once.
* `Forest.eq_of_map_get?`: a forest is known by the frames and the marks of its nodes.
* `Forest.toggleWhere_toggle`, `Forest.foldl_toggle_eq_toggleWhere`: what a step from below adds to
  a change of many marks at once, and what steps from the bottom up amount to.
* `Forest.foldl_toggle_of_decreasing`: steps from the bottom up.
-/

namespace GoOutline

/-! ### The nodes up to the changed one -/

/-- A changed node is shown under the number of the node it was. -/
theorem Forest.getElem?_flatten_modifyAt (change : Outline → Outline) (f : Forest) (k : Nat) :
    (Forest.flatten (Forest.modifyAt f change k))[k]? = ((Forest.flatten f)[k]?).map change := by
  induction f, k using Forest.number_induction with
  | nil k => rfl
  | root t rest =>
    rw [Forest.modifyAt_root, Forest.flatten_cons, Forest.flatten_cons]
    rfl
  | below t rest k hexpanded hlt ih =>
    have hchild : (Forest.flatten (Forest.modifyAt t.children change k))[k]?
        = some (change (Forest.flatten t.children)[k]) := by
      rw [ih, List.getElem?_eq_getElem hlt, Option.map_some]
    have hexpanded' : (t.withChildren (Forest.modifyAt t.children change k)).isCollapsed = false := by
      rw [Outline.isCollapsed_withChildren, hexpanded]
    have hlt' : k < (Forest.flatten
        (t.withChildren (Forest.modifyAt t.children change k)).children).length := by
      rw [Outline.children_withChildren]
      exact (List.getElem?_eq_some_iff.mp hchild).1
    rw [Forest.modifyAt_below change rest hexpanded hlt,
      Forest.getElem?_flatten_below rest hexpanded' hlt', Outline.children_withChildren, ih,
      Forest.getElem?_flatten_below rest hexpanded hlt]
  | after t rest k hge ih =>
    rw [Forest.modifyAt_after change rest hge, Forest.getElem?_flatten_after _ hge, ih,
      Forest.getElem?_flatten_after rest hge]

theorem Forest.lt_length_flatten_modifyAt {f : Forest} {k : Nat}
    (h : k < (Forest.flatten f).length) (change : Outline → Outline) :
    k < (Forest.flatten (Forest.modifyAt f change k)).length := by
  have hnode := Forest.getElem?_flatten_modifyAt change f k
  rw [List.getElem?_eq_getElem h, Option.map_some] at hnode
  exact (List.getElem?_eq_some_iff.mp hnode).1

theorem Forest.locate?_root (t : Outline) (rest : Forest) :
    Forest.locate? (t :: rest) 0 = some [0] := by
  rw [Forest.locate?_eq, Forest.visiblePaths, Forest.visiblePathsFrom_cons]
  rfl

/-- **A change by number leaves the nodes up to the changed one in their places.** -/
theorem Forest.locate?_modifyAt (change : Outline → Outline) (f : Forest) (k : Nat) :
    ∀ j ≤ k, Forest.locate? (Forest.modifyAt f change k) j = Forest.locate? f j := by
  induction f, k using Forest.number_induction with
  | nil k => intro j _; rfl
  | root t rest =>
    intro j hj
    obtain rfl : j = 0 := Nat.le_zero.mp hj
    rw [Forest.modifyAt_root, Forest.locate?_root, Forest.locate?_root]
  | below t rest k hexpanded hlt ih =>
    intro j hj
    rw [Forest.modifyAt_below change rest hexpanded hlt]
    cases j with
    | zero => rw [Forest.locate?_root, Forest.locate?_root]
    | succ j =>
      have hj' : j ≤ k := Nat.le_of_succ_le_succ hj
      have hexpanded' : (t.withChildren (Forest.modifyAt t.children change k)).isCollapsed = false := by
        rw [Outline.isCollapsed_withChildren, hexpanded]
      have hlt' : j < (Forest.flatten
          (t.withChildren (Forest.modifyAt t.children change k)).children).length := by
        rw [Outline.children_withChildren]
        exact Nat.lt_of_le_of_lt hj' (Forest.lt_length_flatten_modifyAt hlt change)
      rw [Forest.locate?_below hexpanded' hlt', Outline.children_withChildren, ih j hj',
        Forest.locate?_below hexpanded (Nat.lt_of_le_of_lt hj' hlt)]
  | after t rest k hge ih =>
    intro j hj
    rw [Forest.modifyAt_after change rest hge]
    cases j with
    | zero => rw [Forest.locate?_root, Forest.locate?_root]
    | succ j =>
      have hj' : j ≤ k := Nat.le_of_succ_le_succ hj
      -- the place is in the first outline, which stays as it is, or the change is in the same part
      by_cases hbelow : j < t.shownBelow.length
      · have hexpanded := Outline.expanded_of_lt_shownBelow hbelow
        rw [Outline.shownBelow_of_expanded hexpanded] at hbelow
        rw [Forest.locate?_below hexpanded hbelow, Forest.locate?_below hexpanded hbelow]
      · have hge' : t.shownBelow.length ≤ j := Nat.le_of_not_lt hbelow
        rw [Forest.locate?_after hge', Forest.locate?_after hge',
          ih (j - t.shownBelow.length) (Nat.sub_le_sub_right hj' _)]

/-! ### The same number again -/

theorem Outline.modify_modify (g h : Outline → Outline) (path : Path) :
    ∀ t : Outline, (t.modify g path).modify h path = t.modify (fun s => h (g s)) path := by
  induction path with
  | nil => intro t; rfl
  | cons i path ih =>
    intro t
    cases t with
    | node label indent isCollapsed children =>
      have hcomp : Outline.modify h path ∘ Outline.modify g path
          = Outline.modify (fun s => h (g s)) path := funext ih
      show Outline.node label indent isCollapsed ((children.modify i _).modify i _) = _
      rw [List.modify_modify_eq, hcomp]
      rfl

theorem Forest.modify_modify (g h : Outline → Outline) (f : Forest) (path : Path) :
    Forest.modify (Forest.modify f g path) h path = Forest.modify f (fun s => h (g s)) path := by
  cases path with
  | nil => rfl
  | cons i path =>
    have hcomp : Outline.modify h path ∘ Outline.modify g path
        = Outline.modify (fun s => h (g s)) path := funext (Outline.modify_modify g h path)
    show (List.modify f i _).modify i _ = _
    rw [List.modify_modify_eq, hcomp]
    rfl

/-- **Two changes at one number are one change.** The second one finds the same node. -/
theorem Forest.modifyAt_modifyAt (g h : Outline → Outline) (f : Forest) (k : Nat) :
    Forest.modifyAt (Forest.modifyAt f g k) h k = Forest.modifyAt f (fun t => h (g t)) k := by
  have hplace := Forest.locate?_modifyAt g f k k (Nat.le_refl k)
  rw [Forest.modifyAt, hplace, Forest.modifyAt, Forest.modifyAt]
  cases Forest.locate? f k with
  | none => rfl
  | some path => exact Forest.modify_modify g h f path

/-- Changes that do the same to the node with the number do the same to the forest. -/
theorem Forest.modifyAt_congr {g h : Outline → Outline} (f : Forest) (k : Nat)
    (hnode : ∀ t, (Forest.flatten f)[k]? = some t → g t = h t) :
    Forest.modifyAt f g k = Forest.modifyAt f h k := by
  induction f, k using Forest.number_induction with
  | nil k => rfl
  | root t rest =>
    rw [Forest.modifyAt_root, Forest.modifyAt_root, hnode t (by rw [Forest.flatten_cons]; rfl)]
  | below t rest k hexpanded hlt ih =>
    rw [Forest.getElem?_flatten_below rest hexpanded hlt] at hnode
    rw [Forest.modifyAt_below g rest hexpanded hlt, Forest.modifyAt_below h rest hexpanded hlt,
      ih hnode]
  | after t rest k hge ih =>
    rw [Forest.getElem?_flatten_after rest hge] at hnode
    rw [Forest.modifyAt_after g rest hge, Forest.modifyAt_after h rest hge, ih hnode]

theorem Outline.setCollapsed_setCollapsed (b c : Bool) (t : Outline) :
    (t.setCollapsed c).setCollapsed b = t.setCollapsed b := by
  rcases t with ⟨label, indent, isCollapsed, _ | ⟨s, rest⟩⟩ <;> rfl

theorem Outline.toggle_toggle (t : Outline) : t.toggle.toggle = t := by
  cases t with
  | node label indent isCollapsed children =>
    cases children with
    | nil => rfl
    | cons s rest =>
      show Outline.node label indent (!!isCollapsed) (s :: rest) = _
      rw [Bool.not_not]

/-- **Steps with the same number.** Toggling twice gives back the forest. The last mark that is set
is the one that counts, whether the node was marked or toggled before. Toggling sets the mark that
the node does not have, and the node that has the number afterwards is the one that had it before,
with this mark. Nothing changes if there is no node with the number or if it has no children. -/
theorem Forest.toggle_setCollapsed_same_number (f : Forest) (i : Nat) (b c : Bool) :
    (f.toggle i).toggle i = f ∧
    (f.setCollapsed i c).setCollapsed i b = f.setCollapsed i b ∧
    (f.toggle i).setCollapsed i b = f.setCollapsed i b ∧
    (∀ t, f.nodeAt? i = some t → f.toggle i = f.setCollapsed i (!t.isCollapsed)) ∧
    (∀ t, f.nodeAt? i = some t → (f.toggle i).nodeAt? i = some t.toggle ∧
      (f.setCollapsed i b).nodeAt? i = some (t.setCollapsed b)) ∧
    ((f.nodeAt? i = none ∨ ∃ t, f.nodeAt? i = some t ∧ t.children = []) →
      f.toggle i = f ∧ f.setCollapsed i b = f) := by
  refine ⟨?_, ?_, ?_, ?_, ?_, ?_⟩
  · rw [Forest.toggle, Forest.toggle, Forest.modifyAt_modifyAt]
    exact Forest.modifyAt_eq_self f i fun t _ => t.toggle_toggle
  · rw [Forest.setCollapsed, Forest.setCollapsed, Forest.modifyAt_modifyAt]
    exact Forest.modifyAt_congr f i fun t _ => t.setCollapsed_setCollapsed b c
  · rw [Forest.setCollapsed, Forest.toggle, Forest.modifyAt_modifyAt]
    exact Forest.modifyAt_congr f i fun t _ => t.setCollapsed_setCollapsed b (!t.isCollapsed)
  · intro t ht
    apply Forest.modifyAt_congr
    intro s hs
    rw [Forest.nodeAt?_eq, hs] at ht
    obtain rfl := Option.some.inj ht
    rfl
  · intro t ht
    rw [Forest.nodeAt?_eq] at ht
    rw [Forest.nodeAt?_eq, Forest.nodeAt?_eq, Forest.toggle, Forest.setCollapsed,
      Forest.getElem?_flatten_modifyAt, Forest.getElem?_flatten_modifyAt, ht]
    exact ⟨rfl, rfl⟩
  · intro hnone
    rw [Forest.nodeAt?_eq] at hnone
    have hleaf : ∀ t, (Forest.flatten f)[i]? = some t → t.children = [] := by
      intro t ht
      rcases hnone with hnone | ⟨s, hs, hchildren⟩
      · rw [hnone] at ht
        cases ht
      · rw [hs] at ht
        rwa [← Option.some.inj ht]
    constructor
    · apply Forest.modifyAt_eq_self
      intro t ht
      exact Outline.toggle_of_leaf (hleaf t ht)
    · apply Forest.modifyAt_eq_self
      intro t ht
      exact (Outline.marksOnly_setCollapsed fun _ => b).leaf_eq t (hleaf t ht)

/-! ### Many marks at once -/

mutual

/-- A node and the nodes below it, with the marks at the chosen paths inverted. A node without
children keeps its mark. -/
def Outline.toggleWhere (chosen : Path → Bool) : Outline → Outline
  | .node label indent isCollapsed children =>
    .node label indent (if chosen [] && !children.isEmpty then !isCollapsed else isCollapsed)
      (Forest.toggleWhereFrom chosen 0 children)

/-- `Outline.toggleWhere` for several outlines, of which the first has the given number. -/
def Forest.toggleWhereFrom (chosen : Path → Bool) : Nat → Forest → Forest
  | _, [] => []
  | i, t :: rest =>
    t.toggleWhere (fun path => chosen (i :: path)) :: Forest.toggleWhereFrom chosen (i + 1) rest

end

/-- A forest with the marks at the chosen paths inverted, all at once. Nodes without children keep
their marks. -/
def Forest.toggleWhere (chosen : Path → Bool) (f : Forest) : Forest :=
  Forest.toggleWhereFrom chosen 0 f

theorem Forest.length_toggleWhereFrom (chosen : Path → Bool) (f : Forest) :
    ∀ i : Nat, (Forest.toggleWhereFrom chosen i f).length = f.length := by
  induction f with
  | nil => intro i; rfl
  | cons t rest ih =>
    intro i
    rw [Forest.toggleWhereFrom, List.length_cons, List.length_cons, ih]

section ToggleWhere

variable (chosen : Path → Bool) (t : Outline)

theorem Outline.frame_toggleWhere : (t.toggleWhere chosen).frame = t.frame := by
  cases t with
  | node label indent isCollapsed children =>
    show (label, indent, (Forest.toggleWhereFrom chosen 0 children).length) = _
    rw [Forest.length_toggleWhereFrom]
    rfl

theorem Outline.isCollapsed_toggleWhere : (t.toggleWhere chosen).isCollapsed
    = if chosen [] && t.isCollapsible then !t.isCollapsed else t.isCollapsed := by
  cases t; rfl

theorem Outline.children_toggleWhere :
    (t.toggleWhere chosen).children = Forest.toggleWhereFrom chosen 0 t.children := by
  cases t; rfl

end ToggleWhere

theorem Forest.map_get?_toggleWhereFrom (f : Forest) :
    ∀ (chosen : Path → Bool) (i j : Nat) (path : Path),
      (Forest.get? (Forest.toggleWhereFrom chosen i f) (j :: path)).map
          (fun t => (t.frame, t.isCollapsed))
        = (Forest.get? f (j :: path)).map fun t =>
          (t.frame, if chosen ((i + j) :: path) && t.isCollapsible
            then !t.isCollapsed else t.isCollapsed) := by
  induction f using Forest.induction with
  | nil => intro chosen i j path; rfl
  | cons t rest ihchildren ihrest =>
    intro chosen i j path
    rw [Forest.toggleWhereFrom]
    cases j with
    | zero =>
      cases path with
      | nil =>
        show some (_, _) = some (_, _)
        rw [Outline.frame_toggleWhere, Outline.isCollapsed_toggleWhere]
        rfl
      | cons j path =>
        have hchild := ihchildren (fun path => chosen (i :: path)) 0 j path
        rw [Nat.zero_add, ← Outline.children_toggleWhere] at hchild
        exact hchild
    | succ j =>
      have hlater := ihrest chosen (i + 1) j path
      rw [show i + 1 + j = i + (j + 1) by omega] at hlater
      exact hlater

/-- The nodes of a forest one by one when some marks are inverted. -/
theorem Forest.map_get?_toggleWhere (chosen : Path → Bool) (f : Forest) (path : Path) :
    (Forest.get? (Forest.toggleWhere chosen f) path).map (fun t => (t.frame, t.isCollapsed))
      = (Forest.get? f path).map fun t =>
        (t.frame, if chosen path && t.isCollapsible then !t.isCollapsed else t.isCollapsed) := by
  cases path with
  | nil => rfl
  | cons j path =>
    have h := Forest.map_get?_toggleWhereFrom f chosen 0 j path
    rwa [Nat.zero_add] at h

/-- **A forest is known by the frames and the marks of its nodes.** -/
theorem Forest.eq_of_map_get? (f : Forest) :
    ∀ g : Forest, (∀ path, (Forest.get? f path).map (fun t => (t.frame, t.isCollapsed))
      = (Forest.get? g path).map fun t => (t.frame, t.isCollapsed)) → f = g := by
  induction f using Forest.induction with
  | nil =>
    intro g h
    cases g with
    | nil => rfl
    | cons u us => exact absurd (h [0]) (by simp)
  | cons t rest ihchildren ihrest =>
    intro g h
    cases g with
    | nil => exact absurd (h [0]) (by simp)
    | cons u us =>
      have hface : (t.frame, t.isCollapsed) = (u.frame, u.isCollapsed) := Option.some.inj (h [0])
      have hchildren : t.children = u.children := by
        apply ihchildren
        intro path
        cases path with
        | nil => rfl
        | cons i path => exact h (0 :: i :: path)
      have hrest : rest = us := by
        apply ihrest
        intro path
        cases path with
        | nil => rfl
        | cons i path => exact h ((i + 1) :: path)
      obtain ⟨hframe, hmark⟩ := Prod.mk.inj hface
      have hroot : t = u := Outline.eq_of_children hchildren hframe hmark
      rw [hroot, hrest]

theorem Forest.toggleWhere_of_none {chosen : Path → Bool} (h : ∀ path, chosen path = false)
    (f : Forest) : Forest.toggleWhere chosen f = f := by
  apply Forest.eq_of_map_get?
  intro path
  rw [Forest.map_get?_toggleWhere, h path]
  rfl

/-! ### From the bottom up -/

/-- A step adds the place of its number to the marks that are inverted, if that is not among them. -/
theorem Forest.toggleWhere_toggle {f : Forest} {k : Nat} {chosen : Path → Bool}
    (h : ∀ path, (Forest.visiblePaths f)[k]? = some path → chosen path = false) :
    Forest.toggleWhere chosen (f.toggle k)
      = Forest.toggleWhere
        (fun path => decide ((Forest.visiblePaths f)[k]? = some path) || chosen path) f := by
  apply Forest.eq_of_map_get?
  intro path
  rw [Forest.map_get?_toggleWhere, Forest.map_get?_toggleWhere]
  cases ht : Forest.get? f path with
  | none =>
    have hframe := Forest.map_frame_perform f (.toggle k) path
    rw [ht] at hframe
    have hnone : Forest.get? (f.toggle k) path = none := Option.map_eq_none_iff.mp hframe
    rw [hnone]
    rfl
  | some t =>
    obtain ⟨u, hu, hframe, hmark⟩ := Forest.exists_get?_perform ht (.toggle k)
    have hu' : Forest.get? (f.toggle k) path = some u := hu
    have hcollapsible : u.isCollapsible = t.isCollapsible :=
      Outline.isCollapsible_congr (Outline.length_children_of_frame hframe)
    rw [hu', Option.map_some, Option.map_some, hframe, hcollapsible, hmark,
      Outline.isCollapsed_setCollapsed_eq]
    by_cases hplace : (Forest.visiblePaths f)[k]? = some path
    · rw [h path hplace]
      simp [Forest.Step.number, Forest.Step.mark, hplace]
    · simp [Forest.Step.number, hplace]

/-- The places that have one of the given numbers. -/
def Forest.isNumbered (f : Forest) (ks : List Nat) (path : Path) : Bool :=
  decide (∃ k ∈ ks, (Forest.visiblePaths f)[k]? = some path)

/-- **Steps from the bottom up invert the marks of the nodes that had their numbers at the start.**
Each step is above the ones before it, so these have not moved the node it is about. -/
theorem Forest.foldl_toggle_eq_toggleWhere {ks : List Nat} (h : ks.Pairwise (· > ·)) :
    ∀ f : Forest, ks.foldl Forest.toggle f = Forest.toggleWhere (f.isNumbered ks) f := by
  induction ks with
  | nil =>
    intro f
    rw [Forest.toggleWhere_of_none fun path => by simp [Forest.isNumbered]]
    rfl
  | cons k ks ih =>
    intro f
    obtain ⟨hk, hks⟩ := List.pairwise_cons.mp h
    have hkeep : (f.toggle k).isNumbered ks = f.isNumbered ks := by
      funext path
      apply decide_eq_decide.mpr
      refine exists_congr fun j => and_congr_right fun hj => ?_
      rw [← Forest.locate?_eq, ← Forest.locate?_eq, Forest.toggle,
        Forest.locate?_modifyAt _ f k j (Nat.le_of_lt (hk j hj))]
    have hnew : ∀ path, (Forest.visiblePaths f)[k]? = some path → f.isNumbered ks path = false := by
      intro path hpath
      apply decide_eq_false
      rintro ⟨j, hj, hpath'⟩
      have hlt := (List.getElem?_eq_some_iff.mp hpath').1
      have hnodup : (Forest.visiblePaths f).Nodup :=
        (Forest.pairwise_visiblePathsFrom f 0).imp fun hlt => ne_of_lt hlt
      have heq := (List.getElem?_inj hlt hnodup).mp (hpath'.trans hpath.symm)
      exact absurd (hk j hj) (by omega)
    have hall : (fun path => decide ((Forest.visiblePaths f)[k]? = some path)
        || f.isNumbered ks path) = f.isNumbered (k :: ks) := by
      funext path
      simp [Forest.isNumbered]
    rw [List.foldl_cons, ih hks, hkeep, Forest.toggleWhere_toggle hnew, hall]

/-- **Steps from the bottom up are one change.** Toggling nodes by strictly decreasing numbers
inverts, at once, the marks of exactly those nodes with children that are shown under these numbers
in the forest before all steps. Numbers that are too large for this forest have no effect. -/
theorem Forest.foldl_toggle_of_decreasing {ks : List Nat} (h : ks.Pairwise (· > ·)) (f : Forest) :
    ks.foldl Forest.toggle f = Forest.toggleWhere (f.isNumbered ks) f ∧
    (∀ path t, Forest.get? f path = some t →
      ∃ u, Forest.get? (ks.foldl Forest.toggle f) path = some u ∧ u.frame = t.frame ∧
        (u.isCollapsed ≠ t.isCollapsed ↔ t.children ≠ [] ∧
          ∃ k ∈ ks, (Forest.visiblePaths f)[k]? = some path ∧ (Forest.flatten f)[k]? = some t)) ∧
    ks.foldl Forest.toggle f
      = (ks.filter (· < (Forest.flatten f).length)).foldl Forest.toggle f := by
  have hrun := Forest.foldl_toggle_eq_toggleWhere h f
  refine ⟨hrun, ?_, ?_⟩
  · intro path t ht
    have hface := Forest.map_get?_toggleWhere (f.isNumbered ks) f path
    rw [ht, Option.map_some] at hface
    obtain ⟨u, hu, hface⟩ := Option.map_eq_some_iff.mp hface
    obtain ⟨hframe, hmark⟩ := Prod.mk.inj hface
    refine ⟨u, by rw [hrun, hu], hframe, ?_⟩
    have hnumbered : f.isNumbered ks path = true ↔
        ∃ k ∈ ks, (Forest.visiblePaths f)[k]? = some path ∧ (Forest.flatten f)[k]? = some t := by
      rw [Forest.isNumbered, decide_eq_true_iff]
      refine exists_congr fun k => and_congr_right fun _ => ?_
      constructor
      · intro hpath
        refine ⟨hpath, ?_⟩
        rw [← Forest.nodeAt?_eq, Forest.nodeAt?, Forest.locate?_eq, hpath]
        exact ht
      · exact And.left
    rw [hmark, ← hnumbered, ← Outline.isCollapsible_iff, and_comm, ← Bool.and_eq_true]
    cases f.isNumbered ks path && t.isCollapsible <;> simp
  · rw [hrun, Forest.foldl_toggle_eq_toggleWhere (h.filter _)]
    congr 1
    funext path
    apply decide_eq_decide.mpr
    refine exists_congr fun k => ?_
    rw [List.mem_filter, decide_eq_true_iff, and_assoc, ← Forest.length_visiblePaths]
    refine and_congr_right fun _ => ?_
    constructor
    · intro hpath
      exact ⟨(List.getElem?_eq_some_iff.mp hpath).1, hpath⟩
    · exact And.right

-- a number that is too large, one of a leaf, one of a collapsed child and one of its parent
theorem Forest.foldl_toggle_nested :
    let f : Forest := [.node "a" 1 false [.node "b" 2 true [.leaf "c" 3]], .leaf "d" 1]
    let ks : List Nat := [5, 2, 1, 0]
    ks.Pairwise (· > ·) ∧
    ks.foldl Forest.toggle f = Forest.toggleWhere (f.isNumbered ks) f ∧
    ks.foldl Forest.toggle f = [2, 1, 0].foldl Forest.toggle f ∧
    ks.foldl Forest.toggle f
      = [.node "a" 1 true [.node "b" 2 false [.leaf "c" 3]], .leaf "d" 1] := by
  intro f ks
  have hdecreasing : ks.Pairwise (· > ·) := by decide
  obtain ⟨hrun, -, hlarge⟩ := Forest.foldl_toggle_of_decreasing hdecreasing f
  exact ⟨hdecreasing, hrun, hlarge, rfl⟩

end GoOutline
