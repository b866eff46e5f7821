import Mathlib.Data.List.Lex
import GoOutline.Outline.Path
import GoOutline.Outline.Row

/-!
# Visible nodes

A place of a forest is a path, and a place is visible when no node above it is collapsed. The nodes
that are shown are compared with the visible places, and so is the search that counts down to a
node without listing any.

* `Forest.induction`: what holds of no outlines and, with its children and the rest, of one more
  outline holds of every forest.
* `Outline.shownBelow`: the nodes that are shown below a node.
* `Forest.IsVisible`: there is a node at the end of a path and all nodes above it are expanded.
* `Forest.visiblePaths`: the visible places from top to bottom.
* `Forest.mem_visiblePaths`, `Forest.pairwise_visiblePathsFrom`: the listed places are the visible
  ones, each listed once and in the order in which the nodes are met on a walk.
* `Forest.map_get?_visiblePaths`, `Forest.locate?_eq`: the shown nodes stand at the visible places,
  and the search by number ends at the place with that number.
* `Forest.length_flatten_eq_nodeCount_iff`: all nodes are shown when no node with children is
  collapsed.
-/

namespace GoOutline

/-! ### Forests one outline at a time -/

/-- Induction on a forest: the children of the first outline are a smaller forest, and so is what
comes after it. -/
theorem Forest.induction {P : Forest → Prop} (nil : P [])
    (cons : ∀ (t : Outline) (rest : Forest), P t.children → P rest → P (t :: rest))
    (f : Forest) : P f :=
  @Outline.rec_1 (fun t => ∀ rest, P rest → P (t :: rest)) P
    (fun label indent isCollapsed children ih rest hrest =>
      cons (.node label indent isCollapsed children) rest ih hrest)
    nil (fun _ rest ih hrest => ih rest hrest) f

/-- The nodes that are shown below a node, from top to bottom. -/
def Outline.shownBelow (t : Outline) : List Outline :=
  if t.isCollapsed then [] else Forest.flatten t.children

theorem Outline.flatten_eq (t : Outline) : t.flatten = t :: t.shownBelow := by
  cases t with
  | node label indent isCollapsed children => rfl

@[simp] theorem Forest.flatten_nil : Forest.flatten [] = [] := rfl

theorem Forest.flatten_cons (t : Outline) (rest : Forest) :
    Forest.flatten (t :: rest) = t :: (t.shownBelow ++ Forest.flatten rest) := by
  show t.flatten ++ Forest.flatten rest = _
  rw [Outline.flatten_eq, List.cons_append]

@[simp] theorem Forest.nodeCount_nil : Forest.nodeCount [] = 0 := rfl

theorem Forest.nodeCount_cons (t : Outline) (rest : Forest) :
    Forest.nodeCount (t :: rest) = 1 + Forest.nodeCount t.children + Forest.nodeCount rest := by
  cases t with
  | node label indent isCollapsed children => rfl

/-! ### Nodes by path -/

@[simp] theorem Forest.get?_nil (f : Forest) : Forest.get? f [] = none := rfl

@[simp] theorem Forest.get?_cons (f : Forest) (i : Nat) (path : Path) :
    Forest.get? f (i :: path) = f[i]?.bind (Outline.get? path) := rfl

@[simp] theorem Outline.get?_nil (t : Outline) : t.get? [] = some t := rfl

/-- Below a node, a path goes on among the children. -/
@[simp] theorem Outline.get?_cons (t : Outline) (i : Nat) (path : Path) :
    t.get? (i :: path) = Forest.get? t.children (i :: path) := rfl

/-- A property of all nodes of a forest, one outline at a time. -/
theorem Forest.forall_get?_cons {P : Outline → Prop} (t : Outline) (rest : Forest) :
    (∀ path s, Forest.get? (t :: rest) path = some s → P s) ↔
      P t ∧ (∀ path s, Forest.get? t.children path = some s → P s) ∧
        ∀ path s, Forest.get? rest path = some s → P s := by
  constructor
  · intro h
    refine ⟨h [0] t rfl, ?_, ?_⟩
    · rintro (_ | ⟨i, path⟩) s hs
      · cases hs
      · exact h (0 :: i :: path) s hs
    · rintro (_ | ⟨i, path⟩) s hs
      · cases hs
      · exact h ((i + 1) :: path) s hs
  · rintro ⟨ht, hchildren, hrest⟩ (_ | ⟨_ | i, path⟩) s hs
    · cases hs
    · rcases path with _ | ⟨j, path⟩
      · obtain rfl : t = s := by simpa using hs
        exact ht
      · exact hchildren (j :: path) s (by simpa using hs)
    · exact hrest (i :: path) s (by simpa using hs)

/-! ### Visible places -/

/-- There is a node at the end of the path below another one, and the nodes before it on the path
are expanded. -/
def Outline.IsVisible (t : Outline) (path : Path) : Prop :=
  (t.get? path).isSome ∧
    ∀ above, above <+: path → above ≠ path → ∀ s, t.get? above = some s → s.isCollapsed = false

/-- There is a node at the end of the path, and no node above it is collapsed. -/
def Forest.IsVisible (f : Forest) (path : Path) : Prop :=
  (Forest.get? f path).isSome ∧
    ∀ above, above <+: path → above ≠ path →
      ∀ s, Forest.get? f above = some s → s.isCollapsed = false

theorem Forest.not_isVisible_nil (f : Forest) : ¬ Forest.IsVisible f [] := by
  intro h
  exact Bool.noConfusion h.1

theorem Outline.isVisible_nil (t : Outline) : t.IsVisible [] := by
  refine ⟨rfl, ?_⟩
  intro above habove hne
  exact absurd (List.prefix_nil.mp habove) hne

/-- A place is visible among roots when it is visible below its root. -/
theorem Forest.isVisible_cons (f : Forest) (i : Nat) (path : Path) :
    Forest.IsVisible f (i :: path) ↔ ∃ t, f[i]? = some t ∧ t.IsVisible path := by
  constructor
  · rintro ⟨hsome, habove⟩
    rw [Forest.get?_cons] at hsome
    obtain ⟨t, ht⟩ := Option.isSome_iff_exists.mp (Option.isSome_of_isSome_bind hsome)
    refine ⟨t, ht, by simpa [ht] using hsome, ?_⟩
    intro above hpre hne s hs
    refine habove (i :: above) ((List.prefix_cons_inj i).mpr hpre) (by simpa using hne) s ?_
    rw [Forest.get?_cons, ht]
    exact hs
  · rintro ⟨t, ht, hsome, habove⟩
    refine ⟨by simpa [ht] using hsome, ?_⟩
    rintro (_ | ⟨j, above⟩) hpre hne s hs
    · cases hs
    · obtain ⟨rfl, hbelow⟩ := List.cons_prefix_cons.mp hpre
      rw [Forest.get?_cons, ht] at hs
      exact habove above hbelow (by simpa using hne) s hs

/-- What is visible below a node is visible among its children, and the node is expanded. -/
theorem Outline.isVisible_cons (t : Outline) (i : Nat) (path : Path) :
    t.IsVisible (i :: path) ↔ t.isCollapsed = false ∧ Forest.IsVisible t.children (i :: path) := by
  constructor
  · rintro ⟨hsome, habove⟩
    refine ⟨habove [] List.nil_prefix (by simp) t rfl, hsome, ?_⟩
    rintro (_ | ⟨j, above⟩) hpre hne s hs
    · cases hs
    · exact habove (j :: above) hpre hne s hs
  · rintro ⟨ht, hsome, habove⟩
    refine ⟨hsome, ?_⟩
    rintro (_ | ⟨j, above⟩) hpre hne s hs
    · obtain rfl : t = s := by simpa using hs
      exact ht
    · exact habove (j :: above) hpre hne s hs

mutual

/-- The visible places below a node, from top to bottom; the first one is its own. -/
def Outline.visiblePaths : Outline → List Path
  | .node _ _ isCollapsed children =>
    [] :: if isCollapsed then [] else Forest.visiblePathsFrom 0 children

/-- The visible places of a forest whose first outline has the given number. -/
def Forest.visiblePathsFrom : Nat → Forest → List Path
  | _, [] => []
  | i, t :: rest => t.visiblePaths.map (i :: ·) ++ Forest.visiblePathsFrom (i + 1) rest

end

/-- The visible places of a forest, from top to bottom. -/
def Forest.visiblePaths (f : Forest) : List Path := Forest.visiblePathsFrom 0 f

/-- The visible places below a node without its own. -/
def Outline.pathsBelow (t : Outline) : List Path :=
  if t.isCollapsed then [] else Forest.visiblePathsFrom 0 t.children

theorem Outline.mem_pathsBelow (t : Outline) (path : Path) :
    path ∈ t.pathsBelow ↔ t.isCollapsed = false ∧ path ∈ Forest.visiblePathsFrom 0 t.children := by
  rw [Outline.pathsBelow]
  cases t.isCollapsed <;> simp

@[simp] theorem Forest.visiblePathsFrom_nil (i : Nat) : Forest.visiblePathsFrom i [] = [] := rfl

theorem Forest.visiblePathsFrom_cons (i : Nat) (t : Outline) (rest : Forest) :
    Forest.visiblePathsFrom i (t :: rest)
      = [i] :: (t.pathsBelow.map (i :: ·) ++ Forest.visiblePathsFrom (i + 1) rest) := by
  cases t with
  | node label indent isCollapsed children => rfl

/-- **The listed places are the visible ones.** -/
theorem Forest.mem_visiblePathsFrom (f : Forest) :
    ∀ (i : Nat) (path : Path), path ∈ Forest.visiblePathsFrom i f ↔
      ∃ j below t, path = (i + j) :: below ∧ f[j]? = some t ∧ t.IsVisible below := by
  induction f using Forest.induction with
  | nil => intro i path; simp
  | cons t rest ihchildren ihrest =>
    intro i path
    have hbelow : ∀ below, t.IsVisible below ↔ below = [] ∨ below ∈ t.pathsBelow := by
      rintro (_ | ⟨j, below⟩)
      · exact iff_of_true t.isVisible_nil (Or.inl rfl)
      · rw [Outline.isVisible_cons, Outline.mem_pathsBelow, ihchildren, Forest.isVisible_cons]
        simp
    rw [Forest.visiblePathsFrom_cons, List.mem_cons, List.mem_append, ihrest]
    constructor
    · rintro (rfl | hchild | ⟨j, below, s, rfl, hs, hvisible⟩)
      · exact ⟨0, [], t, rfl, rfl, t.isVisible_nil⟩
      · obtain ⟨below, hmem, rfl⟩ := List.mem_map.mp hchild
        exact ⟨0, below, t, rfl, rfl, (hbelow below).mpr (Or.inr hmem)⟩
      · exact ⟨j + 1, below, s, by rw [Nat.add_right_comm, Nat.add_assoc], hs, hvisible⟩
    · rintro ⟨_ | j, below, s, rfl, hs, hvisible⟩
      · obtain rfl : t = s := by simpa using hs
        rcases (hbelow below).mp hvisible with rfl | hmem
        · exact Or.inl rfl
        · exact Or.inr (Or.inl (List.mem_map.mpr ⟨below, hmem, rfl⟩))
      · exact Or.inr (Or.inr ⟨j, below, s, by rw [Nat.add_right_comm, Nat.add_assoc], hs, hvisible⟩)

theorem Forest.mem_visiblePaths (f : Forest) (path : Path) :
    path ∈ Forest.visiblePaths f ↔ Forest.IsVisible f path := by
  rw [Forest.visiblePaths, Forest.mem_visiblePathsFrom]
  constructor
  · rintro ⟨i, below, t, rfl, ht, hvisible⟩
    rw [Nat.zero_add]
    exact (Forest.isVisible_cons f i below).mpr ⟨t, ht, hvisible⟩
  · intro h
    rcases path with _ | ⟨i, below⟩
    · exact absurd h (Forest.not_isVisible_nil f)
    · obtain ⟨t, ht, hvisible⟩ := (Forest.isVisible_cons f i below).mp h
      exact ⟨i, below, t, by rw [Nat.zero_add], ht, hvisible⟩

/-- A listed place begins with the number of an outline of the forest. -/
theorem Forest.eq_cons_of_mem_visiblePathsFrom {f : Forest} {i : Nat} {path : Path}
    (h : path ∈ Forest.visiblePathsFrom i f) : ∃ j below, path = j :: below ∧ i ≤ j := by
  obtain ⟨j, below, -, rfl, -⟩ := (Forest.mem_visiblePathsFrom f i path).mp h
  exact ⟨i + j, below, rfl, Nat.le_add_right i j⟩

/-- **The visible places are listed as they are met on a walk**: lexicographically, so that a node
stands before what is below it, and that before the next sibling. -/
theorem Forest.pairwise_visiblePathsFrom (f : Forest) :
    ∀ i : Nat, (Forest.visiblePathsFrom i f).Pairwise (· < ·) := by
  induction f using Forest.induction with
  | nil => intro i; exact List.Pairwise.nil
  | cons t rest ihchildren ihrest =>
    intro i
    have hbelow : t.pathsBelow.Pairwise (· < ·) := by
      rw [Outline.pathsBelow]
      cases t.isCollapsed with
      | true => exact List.Pairwise.nil
      | false => exact ihchildren 0
    have hlater : ∀ path later, later ∈ Forest.visiblePathsFrom (i + 1) rest → i :: path < later := by
      intro path later hmem
      obtain ⟨j, tail, rfl, hj⟩ := Forest.eq_cons_of_mem_visiblePathsFrom hmem
      exact List.cons_lt_cons_iff.mpr (Or.inl (by omega))
    rw [Forest.visiblePathsFrom_cons, List.pairwise_cons, List.pairwise_append, List.pairwise_map]
    refine ⟨?_, ?_, ihrest (i + 1), ?_⟩
    · intro later hmem
      rcases List.mem_append.mp hmem with hmem | hmem
      · obtain ⟨path, hpath, rfl⟩ := List.mem_map.mp hmem
        obtain ⟨j, tail, rfl, -⟩ :=
          Forest.eq_cons_of_mem_visiblePathsFrom ((t.mem_pathsBelow path).mp hpath).2
        exact List.cons_lt_cons_iff.mpr (Or.inr ⟨rfl, List.nil_lt_cons _ _⟩)
      · exact hlater [] later hmem
    · exact hbelow.imp fun h => List.cons_lt_cons_iff.mpr (Or.inr ⟨rfl, h⟩)
    · intro above habove later hmem
      obtain ⟨path, -, rfl⟩ := List.mem_map.mp habove
      exact hlater path later hmem

/-! ### The nodes that are shown -/

/-- The nodes at the visible places are the nodes that are shown. The forest may have outlines
before the first one of those that are listed. -/
theorem Forest.map_get?_visiblePathsFrom (ts : Forest) :
    ∀ (i : Nat) (f : Forest), f.drop i = ts →
      (Forest.visiblePathsFrom i ts).map (Forest.get? f) = (Forest.flatten ts).map some := by
  induction ts using Forest.induction with
  | nil => intro i f _; rfl
  | cons t rest ihchildren ihrest =>
    intro i f hf
    have hroot : f[i]? = some t := by
      rw [← List.head?_drop, hf, List.head?_cons]
    have hrest : f.drop (i + 1) = rest := by
      rw [← List.tail_drop, hf, List.tail_cons]
    have hbelow : (t.pathsBelow.map (i :: ·)).map (Forest.get? f) = t.shownBelow.map some := by
      have hget : ∀ path ∈ t.pathsBelow,
          Forest.get? f (i :: path) = Forest.get? t.children path := by
        intro path hpath
        obtain ⟨j, tail, rfl, -⟩ :=
          Forest.eq_cons_of_mem_visiblePathsFrom ((t.mem_pathsBelow path).mp hpath).2
        rw [Forest.get?_cons, hroot]
        rfl
      rw [List.map_map]
      refine (List.map_congr_left hget).trans ?_
      rw [Outline.pathsBelow, Outline.shownBelow]
      cases t.isCollapsed with
      | true => rfl
      | false => exact ihchildren 0 t.children rfl
    have hfirst : Forest.get? f [i] = some t := by
      rw [Forest.get?_cons, hroot]
      rfl
    rw [Forest.visiblePathsFrom_cons, Forest.flatten_cons, List.map_cons, List.map_cons, hfirst,
      List.map_append, List.map_append, hbelow, ihrest (i + 1) f hrest]

theorem Forest.map_get?_visiblePaths (f : Forest) :
    (Forest.visiblePaths f).map (Forest.get? f) = (Forest.flatten f).map some :=
  Forest.map_get?_visiblePathsFrom f 0 f rfl

/-! ### The search by number -/

/-- How a search among listed paths ends. -/
def Search.among (paths : List Path) (count : Nat) : Search :=
  match paths[count]? with
  | some path => .found path
  | none => .left (count - paths.length)

theorem Search.among_cons_succ (path : Path) (paths : List Path) (count : Nat) :
    Search.among (path :: paths) (count + 1) = Search.among paths count := by
  rw [Search.among, Search.among, List.getElem?_cons_succ, List.length_cons, Nat.add_sub_add_right]

/-- A search that leaves the paths below a node goes on with the places still to go. -/
theorem Search.among_append (i : Nat) (below paths : List Path) (count : Nat) :
    Search.among (below.map (i :: ·) ++ paths) count =
      match Search.among below count with
      | .found path => .found (i :: path)
      | .left rest => Search.among paths rest := by
  rcases Nat.lt_or_ge count below.length with hlt | hge
  · have hmap : count < (below.map (i :: ·)).length := by rwa [List.length_map]
    rw [Search.among, Search.among, List.getElem?_append_left hmap, List.getElem?_map,
      List.getElem?_eq_getElem hlt]
    rfl
  · have hmap : (below.map (i :: ·)).length ≤ count := by rwa [List.length_map]
    have hleft : Search.among below count = .left (count - below.length) := by
      rw [Search.among, List.getElem?_eq_none hge]
    rw [hleft]
    show Search.among (below.map (i :: ·) ++ paths) count = Search.among paths (count - below.length)
    rw [Search.among, Search.among, List.getElem?_append_right hmap, List.length_append,
      List.length_map, Nat.sub_sub]

/-- **Counting down while walking is looking up in the list of visible places.** -/
theorem Forest.seek_eq_among (f : Forest) :
    ∀ i count : Nat, Forest.seek f i count = Search.among (Forest.visiblePathsFrom i f) count := by
  induction f using Forest.induction with
  | nil => intro i count; rfl
  | cons t rest ihchildren ihrest =>
    intro i count
    have hbelow : ∀ count, t.seek (count + 1) = Search.among t.pathsBelow count := by
      intro count
      cases t with
      | node label indent isCollapsed children =>
        cases isCollapsed with
        | true => rfl
        | false => exact ihchildren 0 count
    rw [Forest.visiblePathsFrom_cons, Forest.seek]
    cases count with
    | zero => cases t with | node => rfl
    | succ count =>
      rw [Search.among_cons_succ, Search.among_append, hbelow]
      cases Search.among t.pathsBelow count with
      | found path => rfl
      | left rest' => exact ihrest (i + 1) rest'

/-- The search by number ends at the visible place with that number. -/
theorem Forest.locate?_eq (f : Forest) (number : Nat) :
    Forest.locate? f number = (Forest.visiblePaths f)[number]? := by
  rw [Forest.locate?, Forest.seek_eq_among, Search.among, Forest.visiblePaths]
  cases (Forest.visiblePathsFrom 0 f)[number]? <;> rfl

/-- The node that is found by its number is the one that is shown under this number. -/
theorem Forest.nodeAt?_eq (f : Forest) (number : Nat) :
    Forest.nodeAt? f number = (Forest.flatten f)[number]? := by
  have h : ((Forest.visiblePaths f).map (Forest.get? f))[number]?
      = ((Forest.flatten f).map some)[number]? := by
    rw [Forest.map_get?_visiblePaths]
  rw [List.getElem?_map, List.getElem?_map] at h
  rw [Forest.nodeAt?, Forest.locate?_eq]
  cases hpath : (Forest.visiblePaths f)[number]? with
  | none =>
    rw [hpath] at h
    cases hnode : (Forest.flatten f)[number]? with
    | none => rfl
    | some t => rw [hnode] at h; cases h
  | some path =>
    rw [hpath] at h
    cases hnode : (Forest.flatten f)[number]? with
    | none => rw [hnode] at h; cases h
    | some t => rw [hnode] at h; exact Option.some.inj h

/-! ### How many nodes are shown -/

theorem Outline.length_shownBelow_le (t : Outline) :
    t.shownBelow.length ≤ (Forest.flatten t.children).length := by
  rw [Outline.shownBelow]
  cases t.isCollapsed with
  | true => exact Nat.zero_le _
  | false => exact le_refl _

theorem Forest.length_flatten_le (f : Forest) :
    (Forest.flatten f).length ≤ Forest.nodeCount f := by
  induction f using Forest.induction with
  | nil => exact le_refl 0
  | cons t rest ihchildren ihrest =>
    have hbelow := t.length_shownBelow_le
    rw [Forest.flatten_cons, Forest.nodeCount_cons, List.length_cons, List.length_append]
    omega

theorem Forest.nodeCount_eq_zero_iff (f : Forest) : Forest.nodeCount f = 0 ↔ f = [] := by
  cases f with
  | nil => exact iff_of_true rfl rfl
  | cons t rest =>
    rw [Forest.nodeCount_cons]
    exact iff_of_false (by omega) (List.cons_ne_nil t rest)

/-- **All nodes are shown exactly when no node with children is collapsed.** -/
theorem Forest.length_flatten_eq_nodeCount_iff (f : Forest) :
    (Forest.flatten f).length = Forest.nodeCount f ↔
      ∀ path t, Forest.get? f path = some t → t.isCollapsible → t.isCollapsed = false := by
  induction f using Forest.induction with
  | nil =>
    refine iff_of_true rfl ?_
    rintro (_ | ⟨i, path⟩) t h
    · cases h
    · cases h
  | cons t rest ihchildren ihrest =>
    have hrest := Forest.length_flatten_le rest
    have hchildren := Forest.length_flatten_le t.children
    -- a collapsed node hides all of its children, so it shows all of them when there are none
    have hbelow : t.shownBelow.length = Forest.nodeCount t.children ↔
        (t.isCollapsible → t.isCollapsed = false) ∧
          (Forest.flatten t.children).length = Forest.nodeCount t.children := by
      rw [Outline.shownBelow, Outline.isCollapsible]
      cases t.isCollapsed with
      | false => simp
      | true =>
        rw [if_pos rfl, List.length_nil, eq_comm, Forest.nodeCount_eq_zero_iff]
        cases t.children with
        | nil => simp
        | cons s ts => simp
    have hle := t.length_shownBelow_le
    rw [Forest.forall_get?_cons, ← ihchildren, ← ihrest, ← and_assoc, ← hbelow,
      Forest.flatten_cons, Forest.nodeCount_cons, List.length_cons, List.length_append]
    omega

theorem Forest.map_indent_rows (f : Forest) :
    (Forest.rows f).map Row.indent = (Forest.flatten f).map Outline.indent := by
  apply List.ext_getElem?
  intro k
  rw [Forest.rows, List.getElem?_map, List.getElem?_map, List.getElem?_mapIdx, Option.map_map]
  rfl

/-- **What is shown is what is visible.** The nodes that are shown stand at the visible places, each
place once and in the order of a walk, and keep their own indents. The search by number ends at the
place that the number has among them, a change by number is a change at this place, and there is no
node exactly when the number is too large. Not more nodes are shown than there are, and all of them
exactly when no node with children is collapsed. -/
theorem Forest.flatten_iff_visible (f : Forest) :
    (∀ path, path ∈ Forest.visiblePaths f ↔ Forest.IsVisible f path) ∧
    (Forest.visiblePaths f).Pairwise (· < ·) ∧
    (Forest.flatten f).map some = (Forest.visiblePaths f).map (Forest.get? f) ∧
    (Forest.rows f).map Row.indent = (Forest.flatten f).map Outline.indent ∧
    (∀ k, Forest.locate? f k = (Forest.visiblePaths f)[k]?) ∧
    (∀ k, Forest.nodeAt? f k = (Forest.flatten f)[k]?) ∧
    (∀ k, Forest.nodeAt? f k = none ↔ (Forest.flatten f).length ≤ k) ∧
    (∀ k change, Forest.modifyAt f change k
      = ((Forest.visiblePaths f)[k]?).elim f (Forest.modify f change)) ∧
    (Forest.flatten f).length ≤ Forest.nodeCount f ∧
    ((Forest.flatten f).length = Forest.nodeCount f ↔
      ∀ path t, Forest.get? f path = some t → t.isCollapsible → t.isCollapsed = false) := by
  refine ⟨Forest.mem_visiblePaths f, Forest.pairwise_visiblePathsFrom f 0,
    (Forest.map_get?_visiblePaths f).symm, Forest.map_indent_rows f, Forest.locate?_eq f,
    Forest.nodeAt?_eq f, ?_, ?_, Forest.length_flatten_le f,
    Forest.length_flatten_eq_nodeCount_iff f⟩
  · intro k
    rw [Forest.nodeAt?_eq, List.getElem?_eq_none_iff]
  · intro k change
    rw [Forest.modifyAt, Forest.locate?_eq]
    cases (Forest.visiblePaths f)[k]? <;> rfl

end GoOutline
