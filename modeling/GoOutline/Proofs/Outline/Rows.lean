import GoOutline.Proofs.Outline.Steps

/-!
# Rows as an outline

The rows of a forest are a flat list of texts with indents. Here is what such a list looks like when
the forest is laid out, and that it says as much as the forest without what is hidden.

* `Row.BeginsWith`, `Outline.row_beginsWith_iff`: the marker at the start of a row.
* `IsOutline`: after a row that is expanded comes a deeper one, and after any other row none.
* `Forest.next_of_isLaidOut`: the node that is shown after another one.
* `Forest.isOutline_rows`: the rows of a forest that is laid out are so.
* `Forest.pruned`: a forest without the children of its collapsed nodes.
* `Forest.pruned_eq_of_rows`: the rows of a forest tell where it ends in a longer list of rows, and
  what it is up to what is hidden.
* `Forest.rows_eq_iff`: two forests that are laid out have the same rows exactly when they are the
  same up to what is hidden.
-/

namespace GoOutline

/-! ### Markers -/

/-- The text of a row begins in the given way. -/
def Row.BeginsWith (r : Row) (start : String) : Prop := start.toList <+: r.text.toList

instance (r : Row) (start : String) : Decidable (r.BeginsWith start) :=
  inferInstanceAs (Decidable (_ <+: _))

theorem Outline.marker_eq_expanded_iff (t : Outline) :
    t.marker = "[-] " ↔ t.children ≠ [] ∧ t.isCollapsed = false := by
  rw [Outline.marker, Outline.isCollapsible]
  cases t.children <;> cases t.isCollapsed <;> simp

theorem Outline.marker_eq_collapsed_iff (t : Outline) :
    t.marker = "[+] " ↔ t.children ≠ [] ∧ t.isCollapsed = true := by
  rw [Outline.marker, Outline.isCollapsible]
  cases t.children <;> cases t.isCollapsed <;> simp

theorem Outline.length_marker (t : Outline) : t.marker.toList.length = 4 := by
  rw [Outline.marker]
  split
  · split <;> rfl
  · rfl

/-- All markers are equally long, so a row begins with no other marker than its own. -/
theorem Outline.row_beginsWith_iff (t : Outline) (value : Nat) {start : String}
    (h : start.toList.length = 4) : (t.row value).BeginsWith start ↔ t.marker = start := by
  have htext : (t.row value).text.toList = t.marker.toList ++ t.label.toList :=
    String.toList_append
  rw [Row.BeginsWith, htext]
  constructor
  · intro hstart
    have hmarker : t.marker.toList <+: t.marker.toList ++ t.label.toList :=
      List.prefix_append _ _
    have hlength : t.marker.toList.length = start.toList.length := by
      rw [h, Outline.length_marker]
    have hbegins := List.prefix_of_prefix_length_le hmarker hstart (le_of_eq hlength)
    exact String.toList_inj.mp (hbegins.eq_of_length hlength)
  · rintro rfl
    exact List.prefix_append _ _

/-! ### What comes after a row -/

/-- Rows that make an outline. The first one stands at the margin. A row whose node is expanded is
followed by one that stands one step deeper, and it is the only kind of row that is. Any other row
is followed, if at all, by one that stands no deeper but still inside the margin. -/
structure IsOutline (rows : List Row) : Prop where
  first : ∃ r, rows[0]? = some r ∧ r.indent = 1
  deeper_iff : ∀ (k : Nat) (r : Row), rows[k]? = some r →
    ((∃ next, rows[k + 1]? = some next ∧ next.indent = r.indent + 1) ↔ r.BeginsWith "[-] ")
  next_le : ∀ (k : Nat) (r next : Row), rows[k]? = some r →
    r.BeginsWith "[+] " ∨ r.BeginsWith "    " → rows[k + 1]? = some next →
      1 ≤ next.indent ∧ next.indent ≤ r.indent
  isCollapsed_iff : ∀ r ∈ rows, r.isCollapsed = true ↔ r.BeginsWith "[+] "

theorem Forest.head?_flatten (f : Forest) : (Forest.flatten f).head? = f.head? := by
  cases f with
  | nil => rfl
  | cons t rest => rw [Forest.flatten_cons, List.head?_cons, List.head?_cons]

/-- What comes first in a forest and the nodes after it stands no deeper than the roots. -/
theorem Forest.indent_head?_le {f : Forest} {level : Nat} (hf : f.IsLaidOut level)
    {after : List Outline} (hafter : ∀ u, after.head? = some u → u.indent ≤ level) (u : Outline)
    (hu : (Forest.flatten f ++ after).head? = some u) : u.indent ≤ level := by
  rw [List.head?_append, Forest.head?_flatten] at hu
  cases f with
  | nil => exact hafter u hu
  | cons t rest =>
    obtain rfl : t = u := Option.some.inj hu
    exact le_of_eq ((t.isLaidOut_iff level).mp hf.1).1

/-- Nothing is shown below a node that is collapsed or has no children. -/
theorem Outline.shownBelow_of_marker_ne (t : Outline) (h : t.marker ≠ "[-] ") :
    t.shownBelow = [] := by
  rw [Outline.shownBelow]
  cases hc : t.isCollapsed with
  | true => rfl
  | false =>
    have hleaf : t.children = [] := by
      by_contra hne
      exact h (t.marker_eq_expanded_iff.mpr ⟨hne, hc⟩)
    rw [hleaf]
    rfl

/-- **The node that is shown after another one.** After a node that is expanded and has children
comes the first of them. After any other node comes one that is no deeper. The forest may be
followed by more nodes, of which the first one is not deeper than the roots. -/
theorem Forest.next_of_isLaidOut (f : Forest) (k : Nat) (t : Outline) :
    ∀ (level : Nat) (after : List Outline), f.IsLaidOut level →
      (∀ u, after.head? = some u → u.indent ≤ level) → (Forest.flatten f)[k]? = some t →
      (t.marker = "[-] " →
        ∃ u, (Forest.flatten f ++ after)[k + 1]? = some u ∧ u.indent = t.indent + 1) ∧
      (t.marker ≠ "[-] " →
        ∀ u, (Forest.flatten f ++ after)[k + 1]? = some u → u.indent ≤ t.indent) := by
  induction f, k using Forest.number_induction with
  | nil k =>
    intro level after _ _ ht
    cases ht
  | root s rest =>
    intro level after hf hafter ht
    obtain rfl : s = t := by simpa [Forest.flatten_cons] using ht
    obtain ⟨hs, hrest⟩ := hf
    obtain ⟨hindent, -, hchildren⟩ := (s.isLaidOut_iff level).mp hs
    have hnext : (Forest.flatten (s :: rest) ++ after)[0 + 1]?
        = (s.shownBelow ++ (Forest.flatten rest ++ after)).head? := by
      rw [Forest.flatten_cons, List.cons_append, List.getElem?_cons_succ, List.append_assoc,
        List.head?_eq_getElem?]
    rw [hnext, hindent]
    constructor
    · intro hmarker
      obtain ⟨hne, hexpanded⟩ := s.marker_eq_expanded_iff.mp hmarker
      obtain ⟨c, cs, hcs⟩ := List.exists_cons_of_ne_nil hne
      rw [hcs] at hchildren
      refine ⟨c, ?_, ((c.isLaidOut_iff (level + 1)).mp hchildren.1).1⟩
      rw [Outline.shownBelow_of_expanded hexpanded, hcs, Forest.flatten_cons]
      rfl
    · intro hmarker u hu
      rw [s.shownBelow_of_marker_ne hmarker, List.nil_append] at hu
      exact Forest.indent_head?_le hrest hafter u hu
  | below s rest k hexpanded hlt ih =>
    intro level after hf hafter ht
    obtain ⟨hs, hrest⟩ := hf
    obtain ⟨-, -, hchildren⟩ := (s.isLaidOut_iff level).mp hs
    rw [Forest.getElem?_flatten_below rest hexpanded hlt] at ht
    have hafter' : ∀ u, (Forest.flatten rest ++ after).head? = some u → u.indent ≤ level + 1 := by
      intro u hu
      have hu' := Forest.indent_head?_le hrest hafter u hu
      omega
    have hnext : (Forest.flatten (s :: rest) ++ after)[k + 1 + 1]?
        = (Forest.flatten s.children ++ (Forest.flatten rest ++ after))[k + 1]? := by
      rw [Forest.flatten_cons, List.cons_append, List.getElem?_cons_succ,
        Outline.shownBelow_of_expanded hexpanded, List.append_assoc]
    rw [hnext]
    exact ih (level + 1) (Forest.flatten rest ++ after) hchildren hafter' ht
  | after s rest k hge ih =>
    intro level after hf hafter ht
    rw [Forest.getElem?_flatten_after rest hge] at ht
    have hnext : (Forest.flatten (s :: rest) ++ after)[k + 1 + 1]?
        = (Forest.flatten rest ++ after)[k - s.shownBelow.length + 1]? := by
      have hle : s.shownBelow.length ≤ k + 1 := by omega
      rw [Forest.flatten_cons, List.cons_append, List.getElem?_cons_succ, List.append_assoc,
        List.getElem?_append_right hle, show k + 1 - s.shownBelow.length
          = k - s.shownBelow.length + 1 by omega]
    rw [hnext]
    exact ih level after hf.2 hafter ht

/-- The nodes that are shown are laid out like the roots, and none of them is less deep. -/
theorem Forest.exists_isLaidOut_of_mem (f : Forest) :
    ∀ level : Nat, f.IsLaidOut level → ∀ u ∈ Forest.flatten f,
      ∃ depth, level ≤ depth ∧ u.IsLaidOut depth := by
  induction f using Forest.induction with
  | nil => intro level _ u hu; cases hu
  | cons t rest ihchildren ihrest =>
    intro level hf u hu
    rw [Forest.flatten_cons] at hu
    rcases List.mem_cons.mp hu with rfl | hu
    · exact ⟨level, le_refl level, hf.1⟩
    rcases List.mem_append.mp hu with hu | hu
    · rw [Outline.shownBelow] at hu
      split at hu
      · cases hu
      · obtain ⟨-, -, hchildren⟩ := (t.isLaidOut_iff level).mp hf.1
        obtain ⟨depth, hdepth, hlaid⟩ := ihchildren (level + 1) hchildren u hu
        exact ⟨depth, by omega, hlaid⟩
    · exact ihrest level hf.2 u hu

theorem Forest.getElem?_rows (f : Forest) (k : Nat) :
    (Forest.rows f)[k]? = (Forest.flatten f)[k]?.map (Outline.row k) := by
  rw [Forest.rows, List.getElem?_mapIdx]

/-- **The rows of a forest that is laid out from the margin on make an outline.** -/
theorem Forest.isOutline_rows {f : Forest} (hne : f ≠ []) (hf : f.IsLaidOut 1) :
    IsOutline (Forest.rows f) where
  first := by
    obtain ⟨t, rest, rfl⟩ := List.exists_cons_of_ne_nil hne
    exact ⟨t.row 0, by rw [Forest.getElem?_rows, Forest.flatten_cons]; rfl,
      ((t.isLaidOut_iff 1).mp hf.1).1⟩
  deeper_iff := by
    intro k r hr
    rw [Forest.getElem?_rows] at hr ⊢
    obtain ⟨t, ht, rfl⟩ := Option.map_eq_some_iff.mp hr
    obtain ⟨hdeeper, hnot⟩ := Forest.next_of_isLaidOut f k t 1 [] hf (fun u hu => by cases hu) ht
    rw [List.append_nil] at hdeeper hnot
    rw [t.row_beginsWith_iff k rfl]
    constructor
    · rintro ⟨next, hnext, hindent⟩
      obtain ⟨u, hu, rfl⟩ := Option.map_eq_some_iff.mp hnext
      by_contra hmarker
      have hle : u.indent ≤ t.indent := hnot hmarker u hu
      have heq : u.indent = t.indent + 1 := hindent
      omega
    · intro hmarker
      obtain ⟨u, hu, hindent⟩ := hdeeper hmarker
      exact ⟨u.row (k + 1), by rw [hu]; rfl, hindent⟩
  next_le := by
    intro k r next hr hmarker hnext
    rw [Forest.getElem?_rows] at hr hnext
    obtain ⟨t, ht, rfl⟩ := Option.map_eq_some_iff.mp hr
    obtain ⟨u, hu, rfl⟩ := Option.map_eq_some_iff.mp hnext
    obtain ⟨-, hnot⟩ := Forest.next_of_isLaidOut f k t 1 [] hf (fun u hu => by cases hu) ht
    rw [List.append_nil] at hnot
    have hother : t.marker ≠ "[-] " := by
      rw [t.row_beginsWith_iff k rfl, t.row_beginsWith_iff k rfl] at hmarker
      rcases hmarker with hmarker | hmarker
      · rw [hmarker]; decide
      · rw [hmarker]; decide
    obtain ⟨depth, hdepth, hlaid⟩ :=
      Forest.exists_isLaidOut_of_mem f 1 hf u (List.mem_of_getElem? hu)
    have hindent : u.indent = depth := ((u.isLaidOut_iff depth).mp hlaid).1
    exact ⟨le_of_le_of_eq hdepth hindent.symm, hnot hother u hu⟩
  isCollapsed_iff := by
    intro r hr
    obtain ⟨k, hk⟩ := List.mem_iff_getElem?.mp hr
    rw [Forest.getElem?_rows] at hk
    obtain ⟨t, ht, rfl⟩ := Option.map_eq_some_iff.mp hk
    rw [t.row_beginsWith_iff k rfl, t.marker_eq_collapsed_iff]
    obtain ⟨depth, -, hlaid⟩ := Forest.exists_isLaidOut_of_mem f 1 hf t (List.mem_of_getElem? ht)
    obtain ⟨-, hchildren, -⟩ := (t.isLaidOut_iff depth).mp hlaid
    exact ⟨fun hc => ⟨hchildren hc, hc⟩, fun h => h.2⟩

/-! ### What the rows tell -/

mutual

/-- An outline without the children of its collapsed nodes, which keep their marks. -/
def Outline.pruned : Outline → Outline
  | .node label indent isCollapsed children =>
    .node label indent isCollapsed (if isCollapsed then [] else Forest.pruned children)

/-- A forest without the children of its collapsed nodes, which keep their marks. -/
def Forest.pruned : Forest → Forest
  | [] => []
  | t :: rest => t.pruned :: Forest.pruned rest

end

/-- What is left of the children of a node. -/
def Outline.prunedBelow (t : Outline) : Forest :=
  if t.isCollapsed then [] else Forest.pruned t.children

theorem Outline.pruned_eq_iff (t u : Outline) :
    t.pruned = u.pruned ↔ t.label = u.label ∧ t.indent = u.indent ∧
      t.isCollapsed = u.isCollapsed ∧ t.prunedBelow = u.prunedBelow := by
  cases t with
  | node label indent isCollapsed children =>
    cases u with
    | node label' indent' isCollapsed' children' => exact Outline.node.injEq .. ▸ Iff.rfl

theorem Forest.pruned_cons (t : Outline) (rest : Forest) :
    Forest.pruned (t :: rest) = t.pruned :: Forest.pruned rest := rfl

theorem Forest.pruned_eq_nil_iff (f : Forest) : Forest.pruned f = [] ↔ f = [] := by
  cases f <;> simp [Forest.pruned]

/-- A row tells the marker, the label, the indent and the mark of its node. -/
theorem Outline.row_eq_iff (t u : Outline) (value : Nat) :
    t.row value = u.row value ↔ t.marker = u.marker ∧ t.label = u.label ∧
      t.indent = u.indent ∧ t.isCollapsed = u.isCollapsed := by
  constructor
  · intro h
    have htext : t.marker.toList ++ t.label.toList = u.marker.toList ++ u.label.toList := by
      rw [← String.toList_append, ← String.toList_append]
      exact congrArg (fun r : Row => r.text.toList) h
    obtain ⟨hmarker, hlabel⟩ :=
      List.append_inj htext (t.length_marker.trans u.length_marker.symm)
    exact ⟨String.toList_inj.mp hmarker, String.toList_inj.mp hlabel,
      congrArg Row.indent h, congrArg Row.isCollapsed h⟩
  · rintro ⟨hmarker, hlabel, hindent, hcollapsed⟩
    rw [Outline.row, Outline.row, hmarker, hlabel, hindent, hcollapsed]

/-- Nodes that are laid out and look the same once they are pruned have the same marker. -/
theorem Outline.marker_eq_of_pruned {t u : Outline} {level depth : Nat} (ht : t.IsLaidOut level)
    (hu : u.IsLaidOut depth) (h : t.pruned = u.pruned) : t.marker = u.marker := by
  obtain ⟨-, -, hcollapsed, hbelow⟩ := (t.pruned_eq_iff u).mp h
  obtain ⟨-, htchildren, -⟩ := (t.isLaidOut_iff level).mp ht
  obtain ⟨-, huchildren, -⟩ := (u.isLaidOut_iff depth).mp hu
  cases hc : t.isCollapsed with
  | true =>
    -- what a collapsed node has been pruned of is not seen, but there was something
    have hc' : u.isCollapsed = true := hcollapsed.symm.trans hc
    rw [t.marker_eq_collapsed_iff.mpr ⟨htchildren hc, hc⟩,
      u.marker_eq_collapsed_iff.mpr ⟨huchildren hc', hc'⟩]
  | false =>
    have hc' : u.isCollapsed = false := hcollapsed.symm.trans hc
    have hchildren : t.children = [] ↔ u.children = [] := by
      rw [Outline.prunedBelow, Outline.prunedBelow, hc, hc'] at hbelow
      rw [← Forest.pruned_eq_nil_iff t.children, ← Forest.pruned_eq_nil_iff u.children]
      exact iff_of_eq (congrArg (· = []) hbelow)
    have hcollapsible : t.isCollapsible = u.isCollapsible := by
      rw [Bool.eq_iff_iff, Outline.isCollapsible_iff, Outline.isCollapsible_iff, ne_eq, ne_eq,
        hchildren]
    rw [Outline.marker, Outline.marker, hcollapsible, hcollapsed]

/-- What is hidden has no rows. -/
theorem Forest.map_row_eq_of_pruned (f : Forest) :
    ∀ (level : Nat) (g : Forest), f.IsLaidOut level → g.IsLaidOut level →
      Forest.pruned f = Forest.pruned g →
      (Forest.flatten f).map (Outline.row 0) = (Forest.flatten g).map (Outline.row 0) := by
  induction f using Forest.induction with
  | nil =>
    intro level g _ _ h
    rw [(Forest.pruned_eq_nil_iff g).mp h.symm]
  | cons t rest ihchildren ihrest =>
    intro level g hf hg h
    cases g with
    | nil => cases h
    | cons u rest' =>
      rw [Forest.pruned_cons, Forest.pruned_cons, List.cons.injEq] at h
      obtain ⟨htu, hrest⟩ := h
      obtain ⟨hlabel, hindent, hcollapsed, hbelow⟩ := (t.pruned_eq_iff u).mp htu
      have hrow : t.row 0 = u.row 0 :=
        (t.row_eq_iff u 0).mpr
          ⟨Outline.marker_eq_of_pruned hf.1 hg.1 htu, hlabel, hindent, hcollapsed⟩
      have hshown : t.shownBelow.map (Outline.row 0) = u.shownBelow.map (Outline.row 0) := by
        obtain ⟨-, -, hchildren⟩ := (t.isLaidOut_iff level).mp hf.1
        obtain ⟨-, -, hchildren'⟩ := (u.isLaidOut_iff level).mp hg.1
        rw [Outline.shownBelow, Outline.shownBelow, ← hcollapsed]
        rw [Outline.prunedBelow, Outline.prunedBelow, ← hcollapsed] at hbelow
        cases hc : t.isCollapsed with
        | true => rfl
        | false =>
          rw [hc] at hbelow
          exact ihchildren (level + 1) u.children hchildren hchildren' hbelow
      rw [Forest.flatten_cons, Forest.flatten_cons, List.map_cons, List.map_cons, List.map_append,
        List.map_append, hrow, hshown, ihrest level rest' hf.2 hg.2 hrest]

/-- The first root of a forest is not one of the nodes after another one, which are less deep. -/
theorem Forest.map_row_ne_of_indent_lt {level : Nat} {t : Outline} (ht : t.IsLaidOut level)
    {after : List Outline} (hafter : ∀ u, after.head? = some u → u.indent < level)
    (rest : Forest) (after' : List Outline) :
    after.map (Outline.row 0)
      ≠ (Forest.flatten (t :: rest) ++ after').map (Outline.row 0) := by
  intro h
  rw [Forest.flatten_cons, List.cons_append, List.map_cons] at h
  cases after with
  | nil => cases h
  | cons u us =>
    rw [List.map_cons, List.cons.injEq] at h
    have hlt : u.indent < level := hafter u rfl
    have hindent : t.indent = level := ((t.isLaidOut_iff level).mp ht).1
    have hsame : u.indent = t.indent := ((u.row_eq_iff t 0).mp h.1).2.2.1
    omega

/-- **The rows of a forest tell where it ends and what it is, up to what is hidden.** Two forests at
the same level are each followed by more nodes, of which the first one is less deep than the roots.
If all the rows are the same, the forests are the same once they are pruned, and the rows after them
are the same. -/
theorem Forest.pruned_eq_of_rows (f : Forest) :
    ∀ (level : Nat) (g : Forest) (after after' : List Outline), f.IsLaidOut level →
      g.IsLaidOut level → (∀ u, after.head? = some u → u.indent < level) →
      (∀ u, after'.head? = some u → u.indent < level) →
      (Forest.flatten f ++ after).map (Outline.row 0)
        = (Forest.flatten g ++ after').map (Outline.row 0) →
      Forest.pruned f = Forest.pruned g ∧
        after.map (Outline.row 0) = after'.map (Outline.row 0) := by
  induction f using Forest.induction with
  | nil =>
    intro level g after after' _ hg hafter _ h
    cases g with
    | nil => exact ⟨rfl, h⟩
    | cons u rest' => exact absurd h (Forest.map_row_ne_of_indent_lt hg.1 hafter rest' after')
  | cons t rest ihchildren ihrest =>
    intro level g after after' hf hg hafter hafter' h
    cases g with
    | nil => exact absurd h.symm (Forest.map_row_ne_of_indent_lt hf.1 hafter' rest after)
    | cons u rest' =>
      obtain ⟨ht, hrest⟩ := hf
      obtain ⟨hu, hrest'⟩ := hg
      obtain ⟨-, -, hchildren⟩ := (t.isLaidOut_iff level).mp ht
      obtain ⟨-, -, hchildren'⟩ := (u.isLaidOut_iff level).mp hu
      rw [Forest.flatten_cons, Forest.flatten_cons, List.cons_append, List.cons_append,
        List.map_cons, List.map_cons, List.cons.injEq, List.append_assoc, List.append_assoc] at h
      obtain ⟨hrow, hrows⟩ := h
      obtain ⟨-, hlabel, hindent, hcollapsed⟩ := (t.row_eq_iff u 0).mp hrow
      have hbelow : t.prunedBelow = u.prunedBelow ∧
          (Forest.flatten rest ++ after).map (Outline.row 0)
            = (Forest.flatten rest' ++ after').map (Outline.row 0) := by
        rw [Outline.shownBelow, Outline.shownBelow, ← hcollapsed] at hrows
        rw [Outline.prunedBelow, Outline.prunedBelow, ← hcollapsed]
        cases hc : t.isCollapsed with
        | true =>
          rw [hc] at hrows
          exact ⟨rfl, hrows⟩
        | false =>
          rw [hc] at hrows
          refine ihchildren (level + 1) u.children _ _ hchildren hchildren' ?_ ?_ hrows
          · intro v hv
            have hle := Forest.indent_head?_le hrest (fun w hw => le_of_lt (hafter w hw)) v hv
            omega
          · intro v hv
            have hle := Forest.indent_head?_le hrest' (fun w hw => le_of_lt (hafter' w hw)) v hv
            omega
      obtain ⟨hpruned, hafters⟩ :=
        ihrest level rest' after after' hrest hrest' hafter hafter' hbelow.2
      refine ⟨?_, hafters⟩
      rw [Forest.pruned_cons, Forest.pruned_cons, hpruned,
        (t.pruned_eq_iff u).mpr ⟨hlabel, hindent, hcollapsed, hbelow.1⟩]

/-- Rows are numbered by their places, so the same rows are those of nodes that look alike. -/
theorem Forest.rows_eq_iff_map_row (f g : Forest) :
    Forest.rows f = Forest.rows g ↔
      (Forest.flatten f).map (Outline.row 0) = (Forest.flatten g).map (Outline.row 0) := by
  have hzero : ∀ f : Forest, (Forest.flatten f).map (Outline.row 0)
      = (Forest.rows f).map fun r => { r with value := 0 } := by
    intro f
    apply List.ext_getElem?
    intro k
    rw [List.getElem?_map, List.getElem?_map, Forest.getElem?_rows, Option.map_map]
    rfl
  constructor
  · intro h
    rw [hzero, hzero, h]
  · intro h
    rw [Forest.rows_eq, Forest.rows_eq]
    exact rowsFrom_congr _ _ h 0

/-- **Two forests that are laid out have the same rows exactly when they are the same up to what is
hidden.** -/
theorem Forest.rows_eq_iff {f g : Forest} {level : Nat} (hf : f.IsLaidOut level)
    (hg : g.IsLaidOut level) :
    Forest.rows f = Forest.rows g ↔ Forest.pruned f = Forest.pruned g := by
  rw [Forest.rows_eq_iff_map_row]
  constructor
  · intro h
    have hnone : ∀ u, ([] : List Outline).head? = some u → u.indent < level := by
      intro u hu
      cases hu
    refine (Forest.pruned_eq_of_rows f level g [] [] hf hg hnone hnone ?_).1
    rw [List.append_nil, List.append_nil, h]
  · exact Forest.map_row_eq_of_pruned f level g hf hg

end GoOutline
