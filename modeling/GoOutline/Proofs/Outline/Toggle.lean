import GoOutline.Proofs.Outline.Visible

/-!
# Toggling by number

A change to the node with a given number leaves the rows before it as they are, replaces the rows of
the node and of what is shown below it, and moves the rows after them. The nodes above the changed
one do change, as the change is somewhere below them, but their rows do not.

* `Forest.number_induction`: induction on a forest and a number. The number is that of the first
  root, of a node that is shown below it, or of a node after those.
* `Forest.modifyAt_root`, `Forest.modifyAt_below`, `Forest.modifyAt_after`: a change by number in
  these cases.
* `rowsFrom`: the rows of some nodes, numbered from a given number on.
* `Forest.exists_splice`: what a change by number does to the rows, whatever the change is.
* `Forest.rows_toggle`: what toggling a node does to the rows.
-/

namespace GoOutline

/-! ### Nodes by number -/

theorem Outline.shownBelow_of_expanded {t : Outline} (h : t.isCollapsed = false) :
    t.shownBelow = Forest.flatten t.children := by
  rw [Outline.shownBelow, h]
  rfl

theorem Outline.expanded_of_lt_shownBelow {t : Outline} {k : Nat} (h : k < t.shownBelow.length) :
    t.isCollapsed = false := by
  rw [Outline.shownBelow] at h
  cases hc : t.isCollapsed with
  | false => rfl
  | true => rw [hc] at h; exact absurd h (Nat.not_lt_zero k)

/-- Induction on a forest and a number of a node in it. The node is the first root, or it is shown
below this root, which is expanded then, or it comes after all that is shown of this root. -/
theorem Forest.number_induction {P : Forest → Nat → Prop} (nil : ∀ k, P [] k)
    (root : ∀ (t : Outline) (rest : Forest), P (t :: rest) 0)
    (below : ∀ (t : Outline) (rest : Forest) (k : Nat), t.isCollapsed = false →
      k < (Forest.flatten t.children).length → P t.children k → P (t :: rest) (k + 1))
    (after : ∀ (t : Outline) (rest : Forest) (k : Nat), t.shownBelow.length ≤ k →
      P rest (k - t.shownBelow.length) → P (t :: rest) (k + 1))
    (f : Forest) (k : Nat) : P f k := by
  induction f using Forest.induction generalizing k with
  | nil => exact nil k
  | cons t rest ihchildren ihrest =>
    cases k with
    | zero => exact root t rest
    | succ k =>
      rcases Nat.lt_or_ge k t.shownBelow.length with hlt | hge
      · have hexpanded := Outline.expanded_of_lt_shownBelow hlt
        rw [Outline.shownBelow_of_expanded hexpanded] at hlt
        exact below t rest k hexpanded hlt (ihchildren k)
      · exact after t rest k hge (ihrest _)

section Numbers

variable {t : Outline} {k : Nat} (rest : Forest)

theorem Forest.getElem?_flatten_below (hexpanded : t.isCollapsed = false)
    (hlt : k < (Forest.flatten t.children).length) :
    (Forest.flatten (t :: rest))[k + 1]? = (Forest.flatten t.children)[k]? := by
  rw [Forest.flatten_cons, List.getElem?_cons_succ, Outline.shownBelow_of_expanded hexpanded,
    List.getElem?_append_left hlt]

theorem Forest.getElem?_flatten_after (hge : t.shownBelow.length ≤ k) :
    (Forest.flatten (t :: rest))[k + 1]? = (Forest.flatten rest)[k - t.shownBelow.length]? := by
  rw [Forest.flatten_cons, List.getElem?_cons_succ, List.getElem?_append_right hge]

end Numbers

/-! ### Changes by number -/

/-- A node with other children. -/
def Outline.withChildren (children : Forest) : Outline → Outline
  | .node label indent isCollapsed _ => .node label indent isCollapsed children

section WithChildren

variable (children : Forest) (t : Outline)

@[simp] theorem Outline.label_withChildren : (t.withChildren children).label = t.label := by
  cases t; rfl

@[simp] theorem Outline.indent_withChildren : (t.withChildren children).indent = t.indent := by
  cases t; rfl

@[simp] theorem Outline.isCollapsed_withChildren :
    (t.withChildren children).isCollapsed = t.isCollapsed := by
  cases t; rfl

@[simp] theorem Outline.children_withChildren : (t.withChildren children).children = children := by
  cases t; rfl

end WithChildren

/-- A change below a node is a change among its children. -/
theorem Outline.modify_cons (change : Outline → Outline) (i : Nat) (path : Path) (t : Outline) :
    t.modify change (i :: path)
      = t.withChildren (Forest.modify t.children change (i :: path)) := by
  cases t; rfl

theorem Forest.length_modifyAt (f : Forest) (change : Outline → Outline) (number : Nat) :
    (Forest.modifyAt f change number).length = f.length := by
  rw [Forest.modifyAt]
  cases Forest.locate? f number with
  | none => rfl
  | some path =>
    cases path with
    | nil => rfl
    | cons i path => exact List.length_modify _ f i

theorem Forest.length_visiblePaths (f : Forest) :
    (Forest.visiblePaths f).length = (Forest.flatten f).length := by
  have h := congrArg List.length (Forest.map_get?_visiblePaths f)
  rwa [List.length_map, List.length_map] at h

theorem Outline.length_pathsBelow (t : Outline) : t.pathsBelow.length = t.shownBelow.length := by
  rw [Outline.pathsBelow, Outline.shownBelow]
  cases t.isCollapsed with
  | true => rfl
  | false => exact Forest.length_visiblePaths t.children

/-- Among more outlines the same places have larger first numbers. -/
theorem Forest.visiblePathsFrom_succ (f : Forest) :
    ∀ i : Nat, Forest.visiblePathsFrom (i + 1) f
      = (Forest.visiblePathsFrom i f).map (List.modifyHead (· + 1)) := by
  induction f with
  | nil => intro i; rfl
  | cons t rest ih =>
    intro i
    rw [Forest.visiblePathsFrom_cons, Forest.visiblePathsFrom_cons, ih (i + 1), List.map_cons,
      List.map_append, List.map_map]
    rfl

/-- The search in an outline: a place that is shown below its root. -/
theorem Forest.locate?_below {t : Outline} {k : Nat} (hexpanded : t.isCollapsed = false)
    (hlt : k < (Forest.flatten t.children).length) (rest : Forest) :
    Forest.locate? (t :: rest) (k + 1) = (Forest.locate? t.children k).map (0 :: ·) := by
  have hpaths : k < (t.pathsBelow.map (0 :: ·)).length := by
    rwa [List.length_map, Outline.length_pathsBelow, Outline.shownBelow_of_expanded hexpanded]
  rw [Forest.locate?_eq, Forest.locate?_eq, Forest.visiblePaths, Forest.visiblePathsFrom_cons,
    List.getElem?_cons_succ, List.getElem?_append_left hpaths, List.getElem?_map,
    Outline.pathsBelow, hexpanded]
  rfl

/-- The search after an outline: the places of the outline are left behind. -/
theorem Forest.locate?_after {t : Outline} {k : Nat} (h : t.shownBelow.length ≤ k)
    (rest : Forest) :
    Forest.locate? (t :: rest) (k + 1)
      = (Forest.locate? rest (k - t.shownBelow.length)).map (List.modifyHead (· + 1)) := by
  have hle : (t.pathsBelow.map (0 :: ·)).length ≤ k := by
    rwa [List.length_map, Outline.length_pathsBelow]
  rw [Forest.locate?_eq, Forest.locate?_eq, Forest.visiblePaths, Forest.visiblePathsFrom_cons,
    List.getElem?_cons_succ, List.getElem?_append_right hle, List.length_map,
    Outline.length_pathsBelow, Forest.visiblePathsFrom_succ, List.getElem?_map]
  rfl

/-- A place that is found has a first number. -/
theorem Forest.eq_cons_of_locate? {f : Forest} {k : Nat} {path : Path}
    (h : Forest.locate? f k = some path) : ∃ i below, path = i :: below := by
  rw [Forest.locate?_eq] at h
  obtain ⟨i, below, rfl, -⟩ := Forest.eq_cons_of_mem_visiblePathsFrom (List.mem_of_getElem? h)
  exact ⟨i, below, rfl⟩

section ModifyAt

variable (change : Outline → Outline) (t : Outline) (rest : Forest)

theorem Forest.modifyAt_root : Forest.modifyAt (t :: rest) change 0 = change t :: rest := by
  rw [Forest.modifyAt, Forest.locate?_eq, Forest.visiblePaths, Forest.visiblePathsFrom_cons]
  rfl

variable {t} {k : Nat}

theorem Forest.modifyAt_below (hexpanded : t.isCollapsed = false)
    (hlt : k < (Forest.flatten t.children).length) :
    Forest.modifyAt (t :: rest) change (k + 1)
      = t.withChildren (Forest.modifyAt t.children change k) :: rest := by
  rw [Forest.modifyAt, Forest.modifyAt, Forest.locate?_below hexpanded hlt]
  cases hpath : Forest.locate? t.children k with
  | none => cases t; rfl
  | some path =>
    obtain ⟨i, below, rfl⟩ := Forest.eq_cons_of_locate? hpath
    show t.modify change (i :: below) :: rest = _
    rw [Outline.modify_cons]

theorem Forest.modifyAt_after (hge : t.shownBelow.length ≤ k) :
    Forest.modifyAt (t :: rest) change (k + 1)
      = t :: Forest.modifyAt rest change (k - t.shownBelow.length) := by
  rw [Forest.modifyAt, Forest.modifyAt, Forest.locate?_after hge]
  cases hpath : Forest.locate? rest (k - t.shownBelow.length) with
  | none => rfl
  | some path =>
    obtain ⟨i, below, rfl⟩ := Forest.eq_cons_of_locate? hpath
    rfl

end ModifyAt

/-! ### Rows of some of the nodes -/

/-- The rows that show the given nodes, numbered from the given number on. -/
def rowsFrom : Nat → List Outline → List Row
  | _, [] => []
  | first, t :: ts => t.row first :: rowsFrom (first + 1) ts

/-- A row that is shown further down. -/
def Row.later (count : Nat) (r : Row) : Row := { r with value := r.value + count }

@[simp] theorem length_rowsFrom (ts : List Outline) :
    ∀ first : Nat, (rowsFrom first ts).length = ts.length := by
  induction ts with
  | nil => intro first; rfl
  | cons t ts ih => intro first; rw [rowsFrom, List.length_cons, List.length_cons, ih]

theorem rowsFrom_append (ts us : List Outline) :
    ∀ first : Nat, rowsFrom first (ts ++ us)
      = rowsFrom first ts ++ rowsFrom (first + ts.length) us := by
  induction ts with
  | nil => intro first; rfl
  | cons t ts ih =>
    intro first
    rw [List.cons_append, rowsFrom, rowsFrom, ih, List.cons_append, List.length_cons,
      show first + 1 + ts.length = first + (ts.length + 1) by omega]

theorem rowsFrom_add (count : Nat) (ts : List Outline) :
    ∀ first : Nat, rowsFrom (first + count) ts = (rowsFrom first ts).map (Row.later count) := by
  induction ts with
  | nil => intro first; rfl
  | cons t ts ih =>
    intro first
    rw [rowsFrom, rowsFrom, List.map_cons, ← ih (first + 1), Nat.add_right_comm]
    rfl

theorem getElem?_rowsFrom (ts : List Outline) :
    ∀ first i : Nat, (rowsFrom first ts)[i]? = ts[i]?.map (Outline.row (first + i)) := by
  induction ts with
  | nil => intro first i; rfl
  | cons t ts ih =>
    intro first i
    cases i with
    | zero => rfl
    | succ i =>
      rw [rowsFrom, List.getElem?_cons_succ, List.getElem?_cons_succ, ih,
        show first + 1 + i = first + (i + 1) by omega]

/-- The rows of a forest are the rows of the nodes that are shown. -/
theorem Forest.rows_eq (f : Forest) : Forest.rows f = rowsFrom 0 (Forest.flatten f) := by
  apply List.ext_getElem?
  intro i
  rw [Forest.rows, List.getElem?_mapIdx, getElem?_rowsFrom, Nat.zero_add]

theorem Forest.value_of_getElem?_rows (f : Forest) {i : Nat} {r : Row}
    (h : (Forest.rows f)[i]? = some r) : r.value = i := by
  rw [Forest.rows, List.getElem?_mapIdx] at h
  obtain ⟨t, -, rfl⟩ := Option.map_eq_some_iff.mp h
  rfl

/-- Nodes that look alike have the same rows. -/
theorem rowsFrom_congr (ts : List Outline) :
    ∀ us : List Outline, ts.map (Outline.row 0) = us.map (Outline.row 0) →
      ∀ first : Nat, rowsFrom first ts = rowsFrom first us := by
  induction ts with
  | nil =>
    intro us h first
    rw [List.map_nil, eq_comm, List.map_eq_nil_iff] at h
    rw [h]
  | cons t ts ih =>
    intro us h first
    cases us with
    | nil => cases h
    | cons u us =>
      rw [List.map_cons, List.map_cons, List.cons.injEq] at h
      obtain ⟨hrow, hrows⟩ := h
      have hfirst : t.row first = u.row first :=
        congrArg (fun r : Row => { r with value := first }) hrow
      rw [rowsFrom, rowsFrom, hfirst, ih us hrows]

theorem Outline.isCollapsible_iff (t : Outline) : t.isCollapsible = true ↔ t.children ≠ [] := by
  rw [Outline.isCollapsible, Bool.not_eq_true', ne_eq, ← List.isEmpty_iff, Bool.not_eq_true]

theorem Outline.isCollapsible_congr {t u : Outline} (h : u.children.length = t.children.length) :
    u.isCollapsible = t.isCollapsible := by
  have hempty : u.children.isEmpty = t.children.isEmpty := by
    rw [Bool.eq_iff_iff, List.isEmpty_iff_length_eq_zero, List.isEmpty_iff_length_eq_zero, h]
  rw [Outline.isCollapsible, Outline.isCollapsible, hempty]

/-- The row of a node does not tell what its children are, only whether there are any. -/
theorem Outline.row_withChildren {children : Forest} {t : Outline}
    (h : children.length = t.children.length) (value : Nat) :
    (t.withChildren children).row value = t.row value := by
  have hcollapsible : (t.withChildren children).isCollapsible = t.isCollapsible :=
    Outline.isCollapsible_congr (by rw [Outline.children_withChildren, h])
  rw [Outline.row, Outline.row, Outline.marker, Outline.marker, hcollapsible]
  simp

/-! ### What a change does to the rows -/

/-- **A change by number replaces what is shown of one node.** The nodes before it look as they did.
What is shown of the node gives way to what is shown of the changed node, and the nodes after that
are the same. -/
theorem Forest.exists_splice (f : Forest) (k : Nat) (t : Outline)
    (h : (Forest.flatten f)[k]? = some t) :
    ∃ before after : List Outline, before.length = k ∧
      Forest.flatten f = before ++ (t.flatten ++ after) ∧
      ∀ change : Outline → Outline,
        (Forest.flatten (Forest.modifyAt f change k)).map (Outline.row 0)
          = (before ++ ((change t).flatten ++ after)).map (Outline.row 0) := by
  induction f, k using Forest.number_induction with
  | nil k => cases h
  | root s rest =>
    obtain rfl : s = t := by simpa [Forest.flatten_cons] using h
    refine ⟨[], Forest.flatten rest, rfl, rfl, ?_⟩
    intro change
    rw [Forest.modifyAt_root]
    rfl
  | below s rest k hexpanded hlt ih =>
    rw [Forest.getElem?_flatten_below rest hexpanded hlt] at h
    obtain ⟨before, after, hlen, hflatten, hchange⟩ := ih h
    refine ⟨s :: before, after ++ Forest.flatten rest, by rw [List.length_cons, hlen], ?_, ?_⟩
    · rw [Forest.flatten_cons, Outline.shownBelow_of_expanded hexpanded, hflatten]
      simp only [List.cons_append, List.append_assoc]
    · -- the root changes, as one of its children does, but its row stays the same
      intro change
      have hroot := Outline.row_withChildren (Forest.length_modifyAt s.children change k) 0
      rw [Forest.modifyAt_below change rest hexpanded hlt, Forest.flatten_cons,
        Outline.shownBelow_of_expanded (by rwa [Outline.isCollapsed_withChildren]),
        Outline.children_withChildren, List.map_cons, List.map_append, hroot, hchange,
        ← List.map_append, ← List.map_cons]
      simp only [List.cons_append, List.append_assoc]
  | after s rest k hge ih =>
    rw [Forest.getElem?_flatten_after rest hge] at h
    obtain ⟨before, after, hlen, hflatten, hchange⟩ := ih h
    refine ⟨s :: (s.shownBelow ++ before), after, ?_, ?_, ?_⟩
    · rw [List.length_cons, List.length_append, hlen]
      omega
    · rw [Forest.flatten_cons, hflatten]
      simp only [List.cons_append, List.append_assoc]
    · intro change
      rw [Forest.modifyAt_after change rest hge, Forest.flatten_cons, List.map_cons,
        List.map_append, hchange, ← List.map_append, ← List.map_cons]
      simp only [List.cons_append, List.append_assoc]

theorem Outline.withChildren_children (t : Outline) : t.withChildren t.children = t := by
  cases t; rfl

/-- A change that keeps the node with the number, if there is one, keeps the forest. -/
theorem Forest.modifyAt_eq_self {change : Outline → Outline} (f : Forest) (k : Nat)
    (h : ∀ t, (Forest.flatten f)[k]? = some t → change t = t) :
    Forest.modifyAt f change k = f := by
  induction f, k using Forest.number_induction with
  | nil k => rfl
  | root s rest =>
    rw [Forest.modifyAt_root, h s (by rw [Forest.flatten_cons]; rfl)]
  | below s rest k hexpanded hlt ih =>
    rw [Forest.getElem?_flatten_below rest hexpanded hlt] at h
    rw [Forest.modifyAt_below change rest hexpanded hlt, ih h, Outline.withChildren_children]
  | after s rest k hge ih =>
    rw [Forest.getElem?_flatten_after rest hge] at h
    rw [Forest.modifyAt_after change rest hge, ih h]

/-! ### Toggling -/

theorem Outline.toggle_of_leaf {t : Outline} (h : t.children = []) : t.toggle = t := by
  cases t with
  | node label indent isCollapsed children =>
    obtain rfl : children = [] := h
    rfl

/-- A node with children is the same after toggling except for its mark. -/
theorem Outline.toggle_of_children {t : Outline} (h : t.children ≠ []) :
    t.toggle = .node t.label t.indent (!t.isCollapsed) t.children := by
  cases t with
  | node label indent isCollapsed children =>
    cases children with
    | nil => exact absurd rfl h
    | cons s ts => rfl

/-- The row of a node with children tells by its marker whether the node is collapsed. -/
theorem row_node_of_children (label : String) (indent : Nat) (isCollapsed : Bool)
    {children : Forest} (h : children ≠ []) (value : Nat) :
    (Outline.node label indent isCollapsed children).row value
      = ⟨(if isCollapsed then "[+] " else "[-] ") ++ label, indent, isCollapsed, value⟩ := by
  cases children with
  | nil => exact absurd rfl h
  | cons s ts => rfl

/-- The rows of a forest around a node with children when the node is collapsed or expanded. -/
theorem rowsFrom_flatten_node (before after : List Outline) (label : String) (indent : Nat)
    {children : Forest} (h : children ≠ []) :
    rowsFrom 0 (before ++ ((Outline.node label indent true children).flatten ++ after))
        = rowsFrom 0 before ++ ⟨"[+] " ++ label, indent, true, before.length⟩
          :: rowsFrom (before.length + 1) after ∧
      rowsFrom 0 (before ++ ((Outline.node label indent false children).flatten ++ after))
        = rowsFrom 0 before ++ ⟨"[-] " ++ label, indent, false, before.length⟩
          :: (rowsFrom (before.length + 1) (Forest.flatten children)
            ++ (rowsFrom (before.length + 1) after).map
              (Row.later (Forest.flatten children).length)) := by
  constructor
  · rw [rowsFrom_append, Nat.zero_add]
    show _ ++ (Outline.row before.length _ :: rowsFrom (before.length + 1) after) = _
    rw [row_node_of_children label indent true h]
    rfl
  · rw [rowsFrom_append, Nat.zero_add]
    show _ ++ (Outline.row before.length _
      :: rowsFrom (before.length + 1) (Forest.flatten children ++ after)) = _
    rw [row_node_of_children label indent false h, rowsFrom_append,
      rowsFrom_add (Forest.flatten children).length after]
    rfl

/-- **Toggling a node cuts rows out or puts rows in.** Rows are numbered from zero before and after.
Nothing changes when there is no node with the number or when it has no children. Otherwise the rows
before it stay, its own row changes its marker and its mark, and the rows that are shown below it
when it is expanded go or come; the rows after them move up or down by the number of those. -/
theorem Forest.rows_toggle (f : Forest) (k : Nat) :
    (∀ (i : Nat) (r : Row), (Forest.rows f)[i]? = some r → r.value = i) ∧
    (∀ (i : Nat) (r : Row), (Forest.rows (Forest.toggle f k))[i]? = some r → r.value = i) ∧
    ((Forest.rows f).length ≤ k → Forest.toggle f k = f) ∧
    (∀ t, Forest.nodeAt? f k = some t → t.children = [] → Forest.toggle f k = f) ∧
    (∀ t, Forest.nodeAt? f k = some t → t.children ≠ [] →
      ∃ before hidden after : List Row, before.length = k ∧
        hidden = rowsFrom (k + 1) (Forest.flatten t.children) ∧
        (t.isCollapsed = false →
          Forest.rows f = before ++ ⟨"[-] " ++ t.label, t.indent, false, k⟩
            :: (hidden ++ after.map (Row.later hidden.length)) ∧
          Forest.rows (Forest.toggle f k)
            = before ++ ⟨"[+] " ++ t.label, t.indent, true, k⟩ :: after) ∧
        (t.isCollapsed = true →
          Forest.rows f = before ++ ⟨"[+] " ++ t.label, t.indent, true, k⟩ :: after ∧
          Forest.rows (Forest.toggle f k)
            = before ++ ⟨"[-] " ++ t.label, t.indent, false, k⟩
              :: (hidden ++ after.map (Row.later hidden.length)))) := by
  refine ⟨fun i r => Forest.value_of_getElem?_rows f,
    fun i r => Forest.value_of_getElem?_rows (Forest.toggle f k), ?_, ?_, ?_⟩
  · intro hk
    rw [Forest.rows, List.length_mapIdx] at hk
    apply Forest.modifyAt_eq_self f k
    intro t ht
    rw [List.getElem?_eq_none hk] at ht
    cases ht
  · intro t ht hleaf
    apply Forest.modifyAt_eq_self f k
    intro s hs
    rw [Forest.nodeAt?_eq, hs] at ht
    obtain rfl := Option.some.inj ht
    exact Outline.toggle_of_leaf hleaf
  · intro t ht hchildren
    rw [Forest.nodeAt?_eq] at ht
    obtain ⟨before, after, rfl, hflatten, hchange⟩ := Forest.exists_splice f k t ht
    have hrows := Forest.rows_eq f
    have htoggled : Forest.rows (Forest.toggle f before.length)
        = rowsFrom 0 (before ++ (t.toggle.flatten ++ after)) := by
      rw [Forest.rows_eq]
      exact rowsFrom_congr _ _ (hchange Outline.toggle) 0
    obtain ⟨hcollapsed, hexpanded⟩ :=
      rowsFrom_flatten_node before after t.label t.indent hchildren
    have ht : t = .node t.label t.indent t.isCollapsed t.children := by cases t; rfl
    rw [hflatten] at hrows
    rw [Outline.toggle_of_children hchildren] at htoggled
    refine ⟨rowsFrom 0 before, _, rowsFrom (before.length + 1) after, length_rowsFrom before 0, rfl,
      ?_, ?_⟩
    · intro hc
      rw [ht, hc, hexpanded] at hrows
      rw [hc, Bool.not_false, hcollapsed] at htoggled
      rw [length_rowsFrom]
      exact ⟨hrows, htoggled⟩
    · intro hc
      rw [ht, hc, hcollapsed] at hrows
      rw [hc, Bool.not_true, hexpanded] at htoggled
      rw [length_rowsFrom]
      exact ⟨hrows, htoggled⟩

-- the child that is hidden already stays hidden, and only its own row comes back
example :
    let f : Forest := [.node "a" 1 true [.node "b" 2 true [.leaf "c" 3]], .leaf "d" 1]
    Forest.rows f = [⟨"[+] a", 1, true, 0⟩, ⟨"    d", 1, false, 1⟩] ∧
      Forest.rows (Forest.toggle f 0)
        = [⟨"[-] a", 1, false, 0⟩, ⟨"[+] b", 2, true, 1⟩, ⟨"    d", 1, false, 2⟩] := by
  decide

end GoOutline
