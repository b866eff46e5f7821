import GoOutline.Proofs.Outline.Steps

/-!
# What steps leave alone

A step puts a mark on one node. Everything else about a forest stays as it was, over runs of any
length: which nodes there are, in which order, with which labels and indents. The marks of hidden
nodes stay too, as a step reaches only nodes that are shown.

* `Outline.frame`: what a mark does not change about a node.
* `Outline.MarksOnly`: a change to the mark of a node, and only if the node has children.
* `Forest.map_get?_modify`: the nodes of a forest one by one, after such a change at a path.
* `Forest.map_get?_perform`: the same after a step; the path is that of the node with its number.
* `Forest.marks_perform`: a step marks this node, if it has children, and no other.
* `Forest.nodeCount_run`, `Forest.map_frame_run`, `Forest.get?_run_of_leaf`: what a run keeps.
* `Forest.isCollapsed_run_of_hidden`: a node that is hidden at every step keeps its mark.
* `Forest.frame_run`: all of this together.
-/

namespace GoOutline

/-! ### Changes to a mark -/

/-- What a mark does not change about a node: its label, its indent and how many children it has. -/
def Outline.frame (t : Outline) : String × Nat × Nat := (t.label, t.indent, t.children.length)

/-- A change of at most the mark of a node. A node without children stays the same. -/
structure Outline.MarksOnly (change : Outline → Outline) : Prop where
  label_eq : ∀ t, (change t).label = t.label
  indent_eq : ∀ t, (change t).indent = t.indent
  children_eq : ∀ t, (change t).children = t.children
  leaf_eq : ∀ t, t.children = [] → change t = t

theorem Outline.MarksOnly.frame_eq {change : Outline → Outline} (h : Outline.MarksOnly change)
    (t : Outline) : (change t).frame = t.frame := by
  rw [Outline.frame, Outline.frame, h.label_eq, h.indent_eq, h.children_eq]

theorem Outline.frame_withChildren {children : Forest} {t : Outline}
    (h : children.length = t.children.length) : (t.withChildren children).frame = t.frame := by
  rw [Outline.frame, Outline.frame, Outline.label_withChildren, Outline.indent_withChildren,
    Outline.children_withChildren, h]

theorem Outline.marksOnly_setCollapsed (mark : Outline → Bool) :
    Outline.MarksOnly fun t => t.setCollapsed (mark t) := by
  refine ⟨?_, ?_, ?_, ?_⟩
  · intro t
    rcases t with ⟨label, indent, isCollapsed, _ | ⟨s, rest⟩⟩ <;> rfl
  · intro t
    rcases t with ⟨label, indent, isCollapsed, _ | ⟨s, rest⟩⟩ <;> rfl
  · intro t
    rcases t with ⟨label, indent, isCollapsed, _ | ⟨s, rest⟩⟩ <;> rfl
  · intro t ht
    rcases t with ⟨label, indent, isCollapsed, _ | ⟨s, rest⟩⟩
    · rfl
    · cases ht

theorem Outline.isCollapsed_setCollapsed_eq (isCollapsed : Bool) (t : Outline) :
    (t.setCollapsed isCollapsed).isCollapsed
      = if t.isCollapsible then isCollapsed else t.isCollapsed := by
  rcases t with ⟨label, indent, mark, _ | ⟨s, rest⟩⟩ <;> rfl

theorem Outline.isCollapsed_setCollapsed {t : Outline} (h : t.children ≠ []) (isCollapsed : Bool) :
    (t.setCollapsed isCollapsed).isCollapsed = isCollapsed := by
  rw [Outline.isCollapsed_setCollapsed_eq, if_pos (t.isCollapsible_iff.mpr h)]

theorem Outline.length_children_of_frame {t u : Outline} (h : u.frame = t.frame) :
    u.children.length = t.children.length := congrArg (fun frame => frame.2.2) h

/-- A node is known by its frame, its mark and its children. -/
theorem Outline.eq_of_children {t u : Outline} (hchildren : u.children = t.children)
    (hframe : u.frame = t.frame) (hmark : u.isCollapsed = t.isCollapsed) : u = t := by
  cases t with
  | node label indent isCollapsed children =>
    cases u with
    | node label' indent' isCollapsed' children' =>
      obtain ⟨hlabel, hrest⟩ := Prod.mk.inj hframe
      obtain rfl : label' = label := hlabel
      obtain rfl : indent' = indent := (Prod.mk.inj hrest).1
      obtain rfl : isCollapsed' = isCollapsed := hmark
      obtain rfl : children' = children := hchildren
      rfl

/-- A node without children is known by its frame and its mark. -/
theorem Outline.eq_of_frame {t u : Outline} (hleaf : t.children = []) (hframe : u.frame = t.frame)
    (hmark : u.isCollapsed = t.isCollapsed) : u = t := by
  have hlength := Outline.length_children_of_frame hframe
  rw [hleaf] at hlength
  exact Outline.eq_of_children (by rw [hleaf, List.eq_nil_of_length_eq_zero hlength]) hframe hmark

/-! ### Nodes one by one -/

section Modify

variable {change : Outline → Outline}

/-- After a change at a path below a node, the node at this path has changed its mark, and all other
nodes have the frames and marks that they had. -/
theorem Outline.map_get?_modify (h : Outline.MarksOnly change) (p : Path) :
    ∀ (t : Outline) (path : Path),
      ((t.modify change p).get? path).map (fun s => (s.frame, s.isCollapsed))
        = (t.get? path).map fun s =>
          (s.frame, if path = p then (change s).isCollapsed else s.isCollapsed) := by
  induction p with
  | nil =>
    intro t path
    cases path with
    | nil =>
      show some ((change t).frame, (change t).isCollapsed) = some (t.frame, (change t).isCollapsed)
      rw [h.frame_eq]
    | cons j path =>
      show ((change t).get? (j :: path)).map _ = _
      rw [Outline.get?_cons, Outline.get?_cons, h.children_eq]
      simp
  | cons i p ih =>
    intro t path
    rw [Outline.modify_cons]
    cases path with
    | nil =>
      have hlength : (Forest.modify t.children change (i :: p)).length = t.children.length :=
        List.length_modify _ t.children i
      have hframe := Outline.frame_withChildren hlength
      simp [hframe]
    | cons j path =>
      rw [Outline.get?_cons, Outline.get?_cons, Forest.get?_cons, Forest.get?_cons,
        Outline.children_withChildren, Forest.modify]
      by_cases hij : i = j
      · subst hij
        rw [List.getElem?_modify_eq]
        cases t.children[i]? with
        | none => rfl
        | some s => simpa using ih s path
      · have hne : j :: path ≠ i :: p := fun heq => hij (List.cons.inj heq).1.symm
        rw [List.getElem?_modify_ne _ _ hij]
        simp only [if_neg hne]

theorem Forest.map_get?_modify (h : Outline.MarksOnly change) (f : Forest) (i : Nat) (p : Path)
    (path : Path) :
    (Forest.get? (Forest.modify f change (i :: p)) path).map (fun s => (s.frame, s.isCollapsed))
      = (Forest.get? f path).map fun s =>
        (s.frame, if path = i :: p then (change s).isCollapsed else s.isCollapsed) := by
  -- a forest is what is below a node, so this is about paths that are not empty
  have hnode := Outline.map_get?_modify h (i :: p) (.node "" 0 false f) path
  cases path with
  | nil => rfl
  | cons j path => exact hnode

end Modify

/-! ### One step -/

/-- After a step, the node that has the number of the step, if there is one, has the mark of the step
unless it has no children. All other nodes have the marks that they had, and all nodes have the frames
that they had. -/
theorem Forest.map_get?_perform (f : Forest) (s : Forest.Step) (path : Path) :
    (Forest.get? (f.perform s) path).map (fun t => (t.frame, t.isCollapsed))
      = (Forest.get? f path).map fun t =>
        (t.frame, if (Forest.visiblePaths f)[s.number]? = some path
          then (t.setCollapsed (s.mark t)).isCollapsed else t.isCollapsed) := by
  rw [Forest.perform_eq_modifyAt, Forest.modifyAt, Forest.locate?_eq]
  cases hplace : (Forest.visiblePaths f)[s.number]? with
  | none => simp
  | some p =>
    obtain ⟨i, below, rfl, -⟩ :=
      Forest.eq_cons_of_mem_visiblePathsFrom (List.mem_of_getElem? hplace)
    have hchange := Forest.map_get?_modify (Outline.marksOnly_setCollapsed s.mark) f i below path
    simpa [eq_comm] using hchange

theorem Forest.map_frame_perform (f : Forest) (s : Forest.Step) (path : Path) :
    (Forest.get? (f.perform s) path).map Outline.frame = (Forest.get? f path).map Outline.frame := by
  have h := congrArg (Option.map Prod.fst) (Forest.map_get?_perform f s path)
  rw [Option.map_map, Option.map_map] at h
  exact h

/-- The node at a path after a step. -/
theorem Forest.exists_get?_perform {f : Forest} {path : Path} {t : Outline}
    (ht : Forest.get? f path = some t) (s : Forest.Step) :
    ∃ u, Forest.get? (f.perform s) path = some u ∧ u.frame = t.frame ∧
      u.isCollapsed = if (Forest.visiblePaths f)[s.number]? = some path
        then (t.setCollapsed (s.mark t)).isCollapsed else t.isCollapsed := by
  have h := Forest.map_get?_perform f s path
  rw [ht, Option.map_some] at h
  obtain ⟨u, hu, hface⟩ := Option.map_eq_some_iff.mp h
  exact ⟨u, hu, (Prod.mk.inj hface).1, (Prod.mk.inj hface).2⟩

theorem Forest.get?_perform_of_leaf {f : Forest} {path : Path} {t : Outline}
    (ht : Forest.get? f path = some t) (hleaf : t.children = []) (s : Forest.Step) :
    Forest.get? (f.perform s) path = some t := by
  obtain ⟨u, hu, hframe, hmark⟩ := Forest.exists_get?_perform ht s
  rw [(Outline.marksOnly_setCollapsed s.mark).leaf_eq t hleaf, ite_self] at hmark
  rw [hu, Outline.eq_of_frame hleaf hframe hmark]

/-- **A step marks the node with its number and no other.** The mark of a node changes only if the
node is shown under the number of the step and has children, and then it is the mark of the step. -/
theorem Forest.marks_perform {f : Forest} {path : Path} {t : Outline}
    (ht : Forest.get? f path = some t) (s : Forest.Step) :
    ∃ u, Forest.get? (f.perform s) path = some u ∧
      (u.isCollapsed ≠ t.isCollapsed → (Forest.visiblePaths f)[s.number]? = some path ∧
        (Forest.flatten f)[s.number]? = some t ∧ t.children ≠ []) ∧
      ((Forest.visiblePaths f)[s.number]? = some path → t.children ≠ [] →
        u.isCollapsed = s.mark t) := by
  obtain ⟨u, hu, -, hmark⟩ := Forest.exists_get?_perform ht s
  refine ⟨u, hu, ?_, ?_⟩
  · intro hne
    have hplace : (Forest.visiblePaths f)[s.number]? = some path := by
      by_contra hplace
      rw [if_neg hplace] at hmark
      exact hne hmark
    refine ⟨hplace, ?_, ?_⟩
    · rw [← Forest.nodeAt?_eq, Forest.nodeAt?, Forest.locate?_eq, hplace]
      exact ht
    · intro hleaf
      rw [Forest.get?_perform_of_leaf ht hleaf s] at hu
      cases hu
      exact hne rfl
  · intro hplace hchildren
    rw [if_pos hplace] at hmark
    rw [hmark, Outline.isCollapsed_setCollapsed hchildren]

theorem Forest.map_isCollapsed_perform_of_hidden {f : Forest} {path : Path}
    (hhidden : ¬ Forest.IsVisible f path) (s : Forest.Step) :
    (Forest.get? (f.perform s) path).map Outline.isCollapsed
      = (Forest.get? f path).map Outline.isCollapsed := by
  have hplace : (Forest.visiblePaths f)[s.number]? ≠ some path := by
    intro hplace
    exact hhidden ((Forest.mem_visiblePaths f path).mp (List.mem_of_getElem? hplace))
  have h := congrArg (Option.map Prod.snd) (Forest.map_get?_perform f s path)
  rw [Option.map_map, Option.map_map] at h
  simpa [Function.comp_def, hplace] using h

/-- A change of marks keeps the number of all nodes. -/
theorem Forest.nodeCount_modifyAt {change : Outline → Outline} (h : Outline.MarksOnly change)
    (f : Forest) (k : Nat) : Forest.nodeCount (Forest.modifyAt f change k) = Forest.nodeCount f := by
  induction f, k using Forest.number_induction with
  | nil k => rfl
  | root t rest =>
    rw [Forest.modifyAt_root, Forest.nodeCount_cons, Forest.nodeCount_cons, h.children_eq]
  | below t rest k hexpanded hlt ih =>
    rw [Forest.modifyAt_below change rest hexpanded hlt, Forest.nodeCount_cons,
      Forest.nodeCount_cons, Outline.children_withChildren, ih]
  | after t rest k hge ih =>
    rw [Forest.modifyAt_after change rest hge, Forest.nodeCount_cons, Forest.nodeCount_cons, ih]

/-! ### Runs -/

theorem Forest.nodeCount_run (f : Forest) (steps : List Forest.Step) :
    Forest.nodeCount (f.run steps) = Forest.nodeCount f := by
  refine Forest.run_induction (P := fun g => Forest.nodeCount g = Forest.nodeCount f) ?_ steps f rfl
  intro g s hg
  rw [Forest.perform_eq_modifyAt,
    Forest.nodeCount_modifyAt (Outline.marksOnly_setCollapsed s.mark), hg]

theorem Forest.map_frame_run (f : Forest) (steps : List Forest.Step) (path : Path) :
    (Forest.get? (f.run steps) path).map Outline.frame
      = (Forest.get? f path).map Outline.frame := by
  refine Forest.run_induction
    (P := fun g => (Forest.get? g path).map Outline.frame
      = (Forest.get? f path).map Outline.frame) ?_ steps f rfl
  intro g s hg
  rw [Forest.map_frame_perform, hg]

theorem Forest.get?_run_of_leaf {f : Forest} {path : Path} {t : Outline}
    (ht : Forest.get? f path = some t) (hleaf : t.children = []) (steps : List Forest.Step) :
    Forest.get? (f.run steps) path = some t := by
  refine Forest.run_induction (P := fun g => Forest.get? g path = some t) ?_ steps f ht
  intro g s hg
  exact Forest.get?_perform_of_leaf hg hleaf s

/-- **A node that is hidden at every step keeps its mark.** The last step may show it again. -/
theorem Forest.isCollapsed_run_of_hidden (path : Path) (steps : List Forest.Step) :
    ∀ f : Forest, (∀ n < steps.length, ¬ Forest.IsVisible (f.run (steps.take n)) path) →
      (Forest.get? (f.run steps) path).map Outline.isCollapsed
        = (Forest.get? f path).map Outline.isCollapsed := by
  induction steps with
  | nil => intro f _; rfl
  | cons s steps ih =>
    intro f hhidden
    have hfirst : ¬ Forest.IsVisible f path := hhidden 0 (Nat.zero_lt_succ _)
    have hlater : ∀ n < steps.length,
        ¬ Forest.IsVisible ((f.perform s).run (steps.take n)) path := by
      intro n hn
      exact hhidden (n + 1) (Nat.succ_lt_succ hn)
    show (Forest.get? ((f.perform s).run steps) path).map Outline.isCollapsed = _
    rw [ih (f.perform s) hlater, Forest.map_isCollapsed_perform_of_hidden hfirst]

/-- **Steps change nothing but marks.** After any run the same nodes stand at the same places with
their labels, their indents and as many children as before, there are as many nodes as before, and the
nodes without children are exactly what they were. The next step marks the node that is shown under
its number just before, if this node has children, and changes no other mark. The mark of a node that
is hidden at each step of a run is the same at the end, also when it is shown again by then. -/
theorem Forest.frame_run (f : Forest) (steps : List Forest.Step) :
    (∀ path, (Forest.get? (f.run steps) path).map Outline.frame
      = (Forest.get? f path).map Outline.frame) ∧
    Forest.nodeCount (f.run steps) = Forest.nodeCount f ∧
    (∀ path t, Forest.get? f path = some t → t.children = [] →
      Forest.get? (f.run steps) path = some t) ∧
    (∀ (s : Forest.Step) (path : Path) (t : Outline), Forest.get? (f.run steps) path = some t →
      ∃ u, Forest.get? ((f.run steps).perform s) path = some u ∧
        (u.isCollapsed ≠ t.isCollapsed →
          (Forest.visiblePaths (f.run steps))[s.number]? = some path ∧
            (Forest.flatten (f.run steps))[s.number]? = some t ∧ t.children ≠ []) ∧
        ((Forest.visiblePaths (f.run steps))[s.number]? = some path → t.children ≠ [] →
          u.isCollapsed = s.mark t)) ∧
    (∀ path, (∀ n < steps.length, ¬ Forest.IsVisible (f.run (steps.take n)) path) →
      (Forest.get? (f.run steps) path).map Outline.isCollapsed
        = (Forest.get? f path).map Outline.isCollapsed) := by
  refine ⟨Forest.map_frame_run f steps, Forest.nodeCount_run f steps, ?_, ?_, ?_⟩
  · intro path t ht hleaf
    exact Forest.get?_run_of_leaf ht hleaf steps
  · intro s path t ht
    exact Forest.marks_perform ht s
  · intro path hhidden
    exact Forest.isCollapsed_run_of_hidden path steps f hhidden

-- the inner node is collapsed, hidden with the outer one, and still collapsed when it is shown again
example :
    let f : Forest := [.node "a" 1 false [.node "b" 2 false [.leaf "c" 3]]]
    Forest.rows (f.run [.toggle 1, .toggle 0, .toggle 1, .toggle 0])
      = [⟨"[-] a", 1, false, 0⟩, ⟨"[+] b", 2, true, 1⟩] := by
  decide

end GoOutline
