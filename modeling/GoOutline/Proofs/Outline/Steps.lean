import GoOutline.Proofs.Outline.Levels
import GoOutline.Proofs.Outline.Toggle

/-!
# Steps

A forest is changed in steps, and the nodes are numbered anew after each of them. A step may put a
mark on one node; what it cannot do is move a node or collapse one that has nothing to hide.

* `Forest.Step`, `Forest.perform`, `Forest.run`: a step, and many of them one after the other.
* `Forest.perform_eq_modifyAt`: a step marks the node that has its number.
* `Forest.IsLaidOut`: the indents go with the depths, and only nodes with children are collapsed.
* `Forest.isLaidOut_modifyAt`, `Forest.isLaidOut_run`: a step keeps this, and so does a run.
-/

namespace GoOutline

/-! ### Steps -/

/-- A change to the node that is shown under a number. -/
inductive Forest.Step where
  | toggle (number : Nat)
  | setCollapsed (number : Nat) (isCollapsed : Bool)
deriving DecidableEq

/-- The number of the node that a step is about. -/
def Forest.Step.number : Forest.Step → Nat
  | toggle number => number
  | setCollapsed number _ => number

/-- The mark that a step puts on a node with children. -/
def Forest.Step.mark : Forest.Step → Outline → Bool
  | toggle _, t => !t.isCollapsed
  | setCollapsed _ isCollapsed, _ => isCollapsed

/-- The forest after a step. -/
def Forest.perform (f : Forest) : Forest.Step → Forest
  | .toggle number => f.toggle number
  | .setCollapsed number isCollapsed => f.setCollapsed number isCollapsed

/-- The forest after some steps, each of which sees what the steps before it have made. -/
def Forest.run (f : Forest) (steps : List Forest.Step) : Forest := steps.foldl Forest.perform f

theorem Forest.perform_eq_modifyAt (f : Forest) (s : Forest.Step) :
    f.perform s = f.modifyAt (fun t => t.setCollapsed (s.mark t)) s.number := by
  cases s <;> rfl

/-- What each step keeps is kept by a run. -/
theorem Forest.run_induction {P : Forest → Prop} (step : ∀ f s, P f → P (f.perform s)) :
    ∀ (steps : List Forest.Step) (f : Forest), P f → P (f.run steps) := by
  intro steps
  induction steps with
  | nil => intro f hf; exact hf
  | cons s steps ih => intro f hf; exact ih (f.perform s) (step f s hf)

/-! ### Layout -/

mutual

/-- The root has the given indent, each node below stands one step deeper than the node it belongs
to, and only nodes with children are collapsed. -/
def Outline.IsLaidOut (level : Nat) : Outline → Prop
  | .node _ indent isCollapsed children =>
    indent = level ∧ (isCollapsed = true → children ≠ []) ∧ Forest.IsLaidOut (level + 1) children

/-- `Outline.IsLaidOut` for several outlines, whose roots have the same indent. -/
def Forest.IsLaidOut (level : Nat) : Forest → Prop
  | [] => True
  | t :: rest => t.IsLaidOut level ∧ Forest.IsLaidOut level rest

end

theorem Outline.isLaidOut_iff (level : Nat) (t : Outline) :
    t.IsLaidOut level ↔ t.indent = level ∧ (t.isCollapsed = true → t.children ≠ []) ∧
      Forest.IsLaidOut (level + 1) t.children := by
  cases t; rfl

theorem Forest.isLaidOut_nil (level : Nat) : Forest.IsLaidOut level [] := trivial

theorem Forest.isLaidOut_cons (level : Nat) (t : Outline) (rest : Forest) :
    Forest.IsLaidOut level (t :: rest) ↔ t.IsLaidOut level ∧ Forest.IsLaidOut level rest := Iff.rfl

/-- A forest that is placed at a level is laid out there. -/
theorem Forest.isLaidOut_placed (f : Forest) :
    ∀ level : Nat, Forest.IsLaidOut level (Forest.placed level f) := by
  induction f using Forest.induction with
  | nil => intro level; exact Forest.isLaidOut_nil level
  | cons t rest ihchildren ihrest =>
    intro level
    rw [Forest.placed_cons, Forest.isLaidOut_cons, Outline.isLaidOut_iff, Outline.indent_placed,
      Outline.isCollapsed_placed, Outline.children_placed]
    exact ⟨⟨rfl, fun h => Bool.noConfusion h, ihchildren (level + 1)⟩, ihrest level⟩

/-- A mark is put on nodes with children only, and nothing else changes. -/
theorem Outline.isLaidOut_setCollapsed {level : Nat} {t : Outline} (h : t.IsLaidOut level)
    (isCollapsed : Bool) : (t.setCollapsed isCollapsed).IsLaidOut level := by
  cases t with
  | node label indent mark children =>
    cases children with
    | nil => exact h
    | cons s rest =>
      obtain ⟨hindent, -, hchildren⟩ := h
      exact ⟨hindent, fun _ => List.cons_ne_nil s rest, hchildren⟩

/-- A change by number keeps the layout if it keeps the one of the node it is about. -/
theorem Forest.isLaidOut_modifyAt {change : Outline → Outline}
    (hchange : ∀ level t, t.IsLaidOut level → (change t).IsLaidOut level) (f : Forest) (k : Nat) :
    ∀ level : Nat, f.IsLaidOut level → (f.modifyAt change k).IsLaidOut level := by
  induction f, k using Forest.number_induction with
  | nil k => intro level h; exact h
  | root t rest =>
    intro level h
    rw [Forest.modifyAt_root]
    exact ⟨hchange level t h.1, h.2⟩
  | below t rest k hexpanded hlt ih =>
    intro level h
    obtain ⟨ht, hrest⟩ := h
    obtain ⟨hindent, -, hchildren⟩ := (t.isLaidOut_iff level).mp ht
    rw [Forest.modifyAt_below change rest hexpanded hlt, Forest.isLaidOut_cons,
      Outline.isLaidOut_iff, Outline.indent_withChildren, Outline.isCollapsed_withChildren,
      Outline.children_withChildren, hexpanded]
    exact ⟨⟨hindent, fun h => Bool.noConfusion h, ih (level + 1) hchildren⟩, hrest⟩
  | after t rest k hge ih =>
    intro level h
    rw [Forest.modifyAt_after change rest hge]
    exact ⟨h.1, ih level h.2⟩

theorem Forest.isLaidOut_run {f : Forest} {level : Nat} (h : f.IsLaidOut level)
    (steps : List Forest.Step) : (f.run steps).IsLaidOut level := by
  refine Forest.run_induction (P := Forest.IsLaidOut level) ?_ steps f h
  intro f s hf
  rw [Forest.perform_eq_modifyAt]
  exact Forest.isLaidOut_modifyAt (fun _ _ ht => Outline.isLaidOut_setCollapsed ht _) f s.number
    level hf

theorem Forest.length_run (f : Forest) (steps : List Forest.Step) :
    (f.run steps).length = f.length := by
  refine Forest.run_induction (P := fun g => g.length = f.length) ?_ steps f rfl
  intro g s hg
  rw [Forest.perform_eq_modifyAt, Forest.length_modifyAt, hg]

end GoOutline
