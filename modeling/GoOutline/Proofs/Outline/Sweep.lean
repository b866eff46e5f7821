import GoOutline.Proofs.Outline.Frame

/-!
# Expanding everything from the top down

A sweep marks the nodes with the numbers zero, one, two and so on as expanded. Each step may show
nodes that were hidden, and these come right below: so the sweep meets every node, in the order of a
walk through all nodes, hidden ones included. After as many steps as there are nodes nothing is
collapsed any more.

* `Forest.expandAll`: a forest with all nodes expanded.
* `Forest.expandFirst`: a forest with the first nodes of a walk through all nodes expanded.
* `Forest.lt_length_flatten_expandFirst`: then the next node of the walk is shown, with the number
  of nodes before it as its number.
* `Forest.setCollapsed_expandFirst`, `Forest.sweep_eq_expandFirst`: a step of a sweep, and a sweep.
* `Forest.sweep_nodeCount`: a sweep over all numbers.
-/

namespace GoOutline

/-! ### All nodes expanded -/

mutual

/-- A node and all nodes below it expanded. A node without children keeps its mark. -/
def Outline.expandAll : Outline → Outline
  | .node label indent isCollapsed children =>
    .node label indent (isCollapsed && children.isEmpty) (Forest.expandAll children)

/-- A forest with all nodes expanded. Nodes without children keep their marks. -/
def Forest.expandAll : Forest → Forest
  | [] => []
  | t :: rest => t.expandAll :: Forest.expandAll rest

end

/-- A node that is collapsed only if it has no children shows what it has. -/
theorem Outline.shownBelow_eq_flatten {t : Outline} (h : t.isCollapsed = true → t.children = []) :
    t.shownBelow = Forest.flatten t.children := by
  rw [Outline.shownBelow]
  cases hmark : t.isCollapsed with
  | false => rfl
  | true => rw [h hmark]; rfl

theorem Forest.expandAll_eq_map (f : Forest) : f.expandAll = f.map Outline.expandAll := by
  induction f with
  | nil => rfl
  | cons t rest ih => rw [Forest.expandAll, ih, List.map_cons]

section ExpandAll

variable (t : Outline)

theorem Outline.isCollapsed_expandAll :
    t.expandAll.isCollapsed = (t.isCollapsed && t.children.isEmpty) := by
  cases t; rfl

theorem Outline.children_expandAll : t.expandAll.children = Forest.expandAll t.children := by
  cases t; rfl

theorem Outline.frame_expandAll : t.expandAll.frame = t.frame := by
  have hlength : (Forest.expandAll t.children).length = t.children.length := by
    rw [Forest.expandAll_eq_map, List.length_map]
  rw [Outline.frame, Outline.frame, Outline.children_expandAll, hlength]
  cases t; rfl

theorem Outline.shownBelow_expandAll :
    t.expandAll.shownBelow = Forest.flatten (Forest.expandAll t.children) := by
  rw [Outline.shownBelow_eq_flatten, Outline.children_expandAll]
  intro hmark
  rw [Outline.isCollapsed_expandAll, Bool.and_eq_true, List.isEmpty_iff] at hmark
  rw [Outline.children_expandAll, hmark.2]
  rfl

end ExpandAll

/-- The nodes of an expanded forest are the expanded nodes of the forest. -/
theorem Outline.get?_expandAll (path : Path) :
    ∀ t : Outline, t.expandAll.get? path = (t.get? path).map Outline.expandAll := by
  induction path with
  | nil => intro t; rfl
  | cons i path ih =>
    intro t
    rw [Outline.get?_cons, Outline.get?_cons, Forest.get?_cons, Forest.get?_cons,
      Outline.children_expandAll, Forest.expandAll_eq_map, List.getElem?_map]
    cases t.children[i]? with
    | none => rfl
    | some s => exact ih s

theorem Forest.get?_expandAll (f : Forest) (path : Path) :
    Forest.get? f.expandAll path = (Forest.get? f path).map Outline.expandAll := by
  cases path with
  | nil => rfl
  | cons i path =>
    rw [Forest.get?_cons, Forest.get?_cons, Forest.expandAll_eq_map, List.getElem?_map]
    cases f[i]? with
    | none => rfl
    | some t => exact Outline.get?_expandAll path t

/-! ### The first nodes expanded -/

mutual

/-- An outline with the first nodes of a walk through all of its nodes expanded. -/
def Outline.expandFirst : Outline → Nat → Outline
  | .node label indent isCollapsed children, 0 => .node label indent isCollapsed children
  | .node label indent isCollapsed children, count + 1 =>
    .node label indent (isCollapsed && children.isEmpty) (Forest.expandFirst children count)

/-- A forest with the first nodes of a walk through all of its nodes expanded. -/
def Forest.expandFirst : Forest → Nat → Forest
  | [], _ => []
  | t :: rest, count => t.expandFirst count :: Forest.expandFirst rest (count - t.nodeCount)

end

theorem Outline.nodeCount_eq (t : Outline) : t.nodeCount = 1 + Forest.nodeCount t.children := by
  cases t; rfl

theorem Outline.expandFirst_zero (t : Outline) : t.expandFirst 0 = t := by
  cases t; rfl

theorem Forest.expandFirst_zero (f : Forest) : f.expandFirst 0 = f := by
  induction f with
  | nil => rfl
  | cons t rest ih => rw [Forest.expandFirst, Outline.expandFirst_zero, Nat.zero_sub, ih]

theorem Outline.expandFirst_one (t : Outline) : t.expandFirst 1 = t.setCollapsed false := by
  cases t with
  | node label indent isCollapsed children =>
    rw [Outline.expandFirst, Forest.expandFirst_zero]
    cases children with
    | nil => rw [List.isEmpty_nil, Bool.and_true]; rfl
    | cons s rest => rw [List.isEmpty_cons, Bool.and_false]; rfl

section ExpandFirst

variable (t : Outline) (count : Nat)

theorem Outline.isCollapsed_expandFirst_succ :
    (t.expandFirst (count + 1)).isCollapsed = (t.isCollapsed && t.children.isEmpty) := by
  cases t; rfl

theorem Outline.children_expandFirst_succ :
    (t.expandFirst (count + 1)).children = Forest.expandFirst t.children count := by
  cases t; rfl

theorem Outline.withChildren_expandFirst_succ (more : Nat) :
    (t.expandFirst (count + 1)).withChildren (Forest.expandFirst t.children more)
      = t.expandFirst (more + 1) := by
  cases t; rfl

/-- The children of a node that is expanded are shown below it. -/
theorem Outline.shownBelow_expandFirst_succ :
    (t.expandFirst (count + 1)).shownBelow
      = Forest.flatten (Forest.expandFirst t.children count) := by
  rw [Outline.shownBelow_eq_flatten, Outline.children_expandFirst_succ]
  intro hmark
  rw [Outline.isCollapsed_expandFirst_succ, Bool.and_eq_true, List.isEmpty_iff] at hmark
  rw [Outline.children_expandFirst_succ, hmark.2]
  rfl

end ExpandFirst

/-- When there are not more nodes than that, all nodes are expanded. -/
theorem Forest.expandFirst_of_nodeCount_le (f : Forest) :
    ∀ count, Forest.nodeCount f ≤ count → f.expandFirst count = f.expandAll := by
  induction f using Forest.induction with
  | nil => intro count _; rfl
  | cons t rest ihchildren ihrest =>
    intro count hle
    rw [Forest.nodeCount_cons] at hle
    obtain ⟨count, rfl⟩ : ∃ n, count = n + 1 := ⟨count - 1, by omega⟩
    have hroot : t.expandFirst (count + 1) = t.expandAll := by
      have hchildren := ihchildren count (by omega)
      cases t with
      | node label indent isCollapsed children =>
        rw [Outline.expandFirst, Outline.expandAll]
        exact congrArg _ hchildren
    have hrest := ihrest (count + 1 - t.nodeCount) (by rw [t.nodeCount_eq]; omega)
    rw [Forest.expandFirst, Forest.expandAll, hroot, hrest]

theorem Forest.length_flatten_expandAll (f : Forest) :
    (Forest.flatten f.expandAll).length = Forest.nodeCount f := by
  induction f using Forest.induction with
  | nil => rfl
  | cons t rest ihchildren ihrest =>
    rw [Forest.expandAll, Forest.flatten_cons, List.length_cons, List.length_append,
      Outline.shownBelow_expandAll, ihchildren, ihrest, Forest.nodeCount_cons]
    omega

/-- **When the first nodes are expanded, the next one is shown**: there is a node with the number of
those that are expanded, as long as these are not all. -/
theorem Forest.lt_length_flatten_expandFirst (f : Forest) :
    ∀ count < Forest.nodeCount f, count < (Forest.flatten (f.expandFirst count)).length := by
  induction f using Forest.induction with
  | nil => intro count hlt; exact hlt
  | cons t rest ihchildren ihrest =>
    intro count hlt
    rw [Forest.nodeCount_cons] at hlt
    rw [Forest.expandFirst, Forest.flatten_cons, List.length_cons, List.length_append]
    cases count with
    | zero => exact Nat.zero_lt_succ _
    | succ count =>
      rw [Outline.shownBelow_expandFirst_succ]
      by_cases hbelow : count < Forest.nodeCount t.children
      · have hchildren := ihchildren count hbelow
        omega
      · -- all children are expanded, and the next node comes after them
        have hle : Forest.nodeCount t.children ≤ count := Nat.le_of_not_lt hbelow
        have hcount : count + 1 - t.nodeCount = count - Forest.nodeCount t.children := by
          rw [t.nodeCount_eq]
          omega
        have hrest := ihrest (count - Forest.nodeCount t.children) (by omega)
        rw [Forest.expandFirst_of_nodeCount_le _ count hle, Forest.length_flatten_expandAll, hcount]
        omega

/-! ### Sweeps -/

/-- **A step of a sweep expands one node more.** The node that has the number of those that are
expanded already is the next one in a walk through all nodes. -/
theorem Forest.setCollapsed_expandFirst (f : Forest) :
    ∀ count, (f.expandFirst count).setCollapsed count false = f.expandFirst (count + 1) := by
  induction f using Forest.induction with
  | nil => intro count; rfl
  | cons t rest ihchildren ihrest =>
    intro count
    cases count with
    | zero =>
      have hzero : 1 - t.nodeCount = 0 := by
        rw [t.nodeCount_eq]
        omega
      rw [Forest.expandFirst_zero, Forest.setCollapsed, Forest.modifyAt_root, Forest.expandFirst,
        Outline.expandFirst_one, hzero, Forest.expandFirst_zero]
    | succ count =>
      have hsucc : t.nodeCount = 1 + Forest.nodeCount t.children := t.nodeCount_eq
      rw [Forest.expandFirst, Forest.expandFirst, Forest.setCollapsed]
      by_cases hbelow : count < Forest.nodeCount t.children
      · have hne : t.children ≠ [] := fun hnil => by
          rw [hnil] at hbelow
          exact absurd hbelow (Nat.not_lt_zero count)
        have hexpanded : (t.expandFirst (count + 1)).isCollapsed = false := by
          rw [Outline.isCollapsed_expandFirst_succ, List.isEmpty_eq_false_iff.mpr hne, Bool.and_false]
        have hlt : count < (Forest.flatten (t.expandFirst (count + 1)).children).length := by
          rw [Outline.children_expandFirst_succ]
          exact Forest.lt_length_flatten_expandFirst t.children count hbelow
        have hchildren := ihchildren count
        rw [Forest.setCollapsed] at hchildren
        have hstart : count + 1 - t.nodeCount = count + 1 + 1 - t.nodeCount := by omega
        rw [Forest.modifyAt_below _ _ hexpanded hlt, Outline.children_expandFirst_succ, hchildren,
          Outline.withChildren_expandFirst_succ, hstart]
      · have hle : Forest.nodeCount t.children ≤ count := Nat.le_of_not_lt hbelow
        have hdone := Forest.expandFirst_of_nodeCount_le t.children
        have hshown : (t.expandFirst (count + 1)).shownBelow.length = Forest.nodeCount t.children := by
          rw [Outline.shownBelow_expandFirst_succ, hdone count hle, Forest.length_flatten_expandAll]
        have hroot : t.expandFirst (count + 1) = t.expandFirst (count + 1 + 1) := by
          rw [← Outline.withChildren_expandFirst_succ t count (count + 1),
            hdone (count + 1) (Nat.le_succ_of_le hle), ← hdone count hle,
            Outline.withChildren_expandFirst_succ]
        have hrest := ihrest (count - Forest.nodeCount t.children)
        rw [Forest.setCollapsed] at hrest
        rw [Forest.modifyAt_after _ _ (by rw [hshown]; exact hle), hshown,
          show count + 1 - t.nodeCount = count - Forest.nodeCount t.children by omega, hrest, hroot,
          show count + 1 + 1 - t.nodeCount = count - Forest.nodeCount t.children + 1 by omega]

/-- The forest after a sweep: the nodes with the numbers below the given one are marked as expanded,
one after the other. -/
def Forest.sweep (f : Forest) (count : Nat) : Forest :=
  (List.range count).foldl (fun g k => g.setCollapsed k false) f

theorem Forest.sweep_eq_expandFirst (f : Forest) (count : Nat) :
    f.sweep count = f.expandFirst count := by
  induction count with
  | zero => exact f.expandFirst_zero.symm
  | succ count ih =>
    rw [Forest.sweep] at ih
    rw [Forest.sweep, List.range_succ, List.foldl_append, ih, List.foldl_cons, List.foldl_nil,
      Forest.setCollapsed_expandFirst]

/-- **A sweep over all numbers expands everything.** After as many steps as there are nodes, whatever
was hidden before, no node with children is collapsed, and otherwise the forest is what it was: all
labels, indents and children are the same, and nodes without children have their marks. So all nodes
are shown. -/
theorem Forest.sweep_nodeCount (f : Forest) :
    f.sweep (Forest.nodeCount f) = f.expandAll ∧
    (∀ path t, Forest.get? f path = some t →
      ∃ u, Forest.get? (f.sweep (Forest.nodeCount f)) path = some u ∧ u.frame = t.frame ∧
        (t.children ≠ [] → u.isCollapsed = false) ∧ (t.children = [] → u = t)) ∧
    (Forest.flatten (f.sweep (Forest.nodeCount f))).length = Forest.nodeCount f := by
  have hsweep : f.sweep (Forest.nodeCount f) = f.expandAll := by
    rw [Forest.sweep_eq_expandFirst, Forest.expandFirst_of_nodeCount_le f _ (Nat.le_refl _)]
  refine ⟨hsweep, ?_, by rw [hsweep, Forest.length_flatten_expandAll]⟩
  intro path t ht
  have hmark := t.isCollapsed_expandAll
  refine ⟨t.expandAll, by rw [hsweep, Forest.get?_expandAll, ht, Option.map_some],
    t.frame_expandAll, ?_, ?_⟩
  · intro hne
    rw [hmark, List.isEmpty_eq_false_iff.mpr hne, Bool.and_false]
  · intro hleaf
    rw [hleaf, List.isEmpty_nil, Bool.and_true] at hmark
    exact Outline.eq_of_frame hleaf t.frame_expandAll hmark

-- the child is collapsed, too, and is met after its parent is expanded
example :
    let f : Forest := [.node "a" 1 true [.node "b" 2 true [.node "c" 3 true []]], .leaf "d" 1]
    f.sweep 4 = [.node "a" 1 false [.node "b" 2 false [.node "c" 3 true []]], .leaf "d" 1] := by
  rfl

end GoOutline
