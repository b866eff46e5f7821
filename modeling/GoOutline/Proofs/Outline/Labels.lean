import GoOutline.Proofs.Outline.Steps
import GoOutline.Proofs.Syntax.Words

/-!
# Line breaks in labels

A label is put together from fixed texts and from words of the source. The fixed texts have no line
breaks, so a label has one only if it shows a word that has one.

* `BreaksOnlyIn`: the line breaks in a text come from given words, one of which stands in the text.
* `Outline.AllLabels`, `Forest.AllLabels`: all labels of an outline have a property.
* `Forest.allLabels_run`: a run keeps the labels.
* `Forest.breaks_rows`: what the labels say about the rows.
* `Expr.breaks_brief`: the short text of an expression.
* `Expr.allLabels_outline`, `Stmt.allLabels_outline`, `File.allLabels_outline`: the labels in the
  outlines of all pieces of syntax.
-/

namespace GoOutline

/-! ### Texts -/

/-- The line breaks in a text come from some words: if the text has one, then one of the words has
one, too, and this word stands in the text. -/
def BreaksOnlyIn (ws : List String) (s : String) : Prop :=
  '\n' ∈ s.toList → ∃ w ∈ ws, '\n' ∈ w.toList ∧ w.toList <:+: s.toList

namespace BreaksOnlyIn

variable {ws : List String} {s t : String}

theorem of_not_mem (h : '\n' ∉ s.toList) : BreaksOnlyIn ws s := fun hbreak => absurd hbreak h

theorem of_mem (h : s ∈ ws) : BreaksOnlyIn ws s := fun hbreak =>
  ⟨s, h, hbreak, List.infix_refl s.toList⟩

theorem append (hs : BreaksOnlyIn ws s) (ht : BreaksOnlyIn ws t) : BreaksOnlyIn ws (s ++ t) := by
  intro hbreak
  rw [String.toList_append] at hbreak ⊢
  rcases List.mem_append.mp hbreak with h | h
  · obtain ⟨w, hw, hbreak, hinfix⟩ := hs h
    exact ⟨w, hw, hbreak, hinfix.trans (List.prefix_append _ _).isInfix⟩
  · obtain ⟨w, hw, hbreak, hinfix⟩ := ht h
    exact ⟨w, hw, hbreak, hinfix.trans (List.suffix_append _ _).isInfix⟩

/-- A text after a fixed one. -/
theorem after (h : BreaksOnlyIn ws t) (hs : '\n' ∉ s.toList) : BreaksOnlyIn ws (s ++ t) :=
  (of_not_mem hs).append h

/-- A text before a fixed one. -/
theorem before (h : BreaksOnlyIn ws s) (ht : '\n' ∉ t.toList) : BreaksOnlyIn ws (s ++ t) :=
  h.append (of_not_mem ht)

end BreaksOnlyIn

/-! ### Outlines -/

mutual

/-- Whether all labels of an outline have a property. -/
def Outline.AllLabels (P : String → Prop) : Outline → Prop
  | .node label _ _ children => P label ∧ Forest.AllLabels P children

/-- Whether all labels of a forest have a property. -/
def Forest.AllLabels (P : String → Prop) : Forest → Prop
  | [] => True
  | t :: rest => t.AllLabels P ∧ Forest.AllLabels P rest

end

section AllLabels

variable {P : String → Prop}

@[simp] theorem Outline.allLabels_branch (label : String) (level : Nat) (children : Forest) :
    (Outline.branch label level children).AllLabels P ↔ P label ∧ Forest.AllLabels P children :=
  Iff.rfl

@[simp] theorem Outline.allLabels_leaf (label : String) (level : Nat) :
    (Outline.leaf label level).AllLabels P ↔ P label := by
  show P label ∧ True ↔ P label
  rw [and_true]

@[simp] theorem Forest.allLabels_nil : Forest.AllLabels P [] := trivial

@[simp] theorem Forest.allLabels_cons (t : Outline) (rest : Forest) :
    Forest.AllLabels P (t :: rest) ↔ t.AllLabels P ∧ Forest.AllLabels P rest :=
  Iff.rfl

theorem Forest.allLabels_iff (f : Forest) : Forest.AllLabels P f ↔ ∀ t ∈ f, t.AllLabels P := by
  induction f with
  | nil => simp
  | cons t rest ih => rw [Forest.allLabels_cons, ih, List.forall_mem_cons]

@[simp] theorem Forest.allLabels_append (f g : Forest) :
    Forest.AllLabels P (f ++ g) ↔ Forest.AllLabels P f ∧ Forest.AllLabels P g := by
  simp only [Forest.allLabels_iff, List.forall_mem_append]

theorem Forest.allLabels_map {α : Type} {xs : List α} {build : α → Outline}
    (h : ∀ x ∈ xs, (build x).AllLabels P) : Forest.AllLabels P (xs.map build) := by
  rw [Forest.allLabels_iff]
  exact List.forall_mem_map.mpr h

theorem Forest.allLabels_flatMap {α : Type} {xs : List α} {build : α → Forest}
    (h : ∀ x ∈ xs, Forest.AllLabels P (build x)) : Forest.AllLabels P (xs.flatMap build) := by
  rw [Forest.allLabels_iff]
  intro t ht
  obtain ⟨x, hx, ht⟩ := List.mem_flatMap.mp ht
  exact (Forest.allLabels_iff _).mp (h x hx) t ht

/-- The labels of a forest are those of its roots and of what is below them. -/
theorem Forest.allLabels_cons_iff (t : Outline) (rest : Forest) :
    Forest.AllLabels P (t :: rest) ↔
      (P t.label ∧ Forest.AllLabels P t.children) ∧ Forest.AllLabels P rest := by
  cases t; rfl

theorem Forest.allLabels_modifyAt {change : Outline → Outline}
    (hchange : ∀ t : Outline, t.AllLabels P → (change t).AllLabels P) (f : Forest) (k : Nat)
    (h : Forest.AllLabels P f) : Forest.AllLabels P (f.modifyAt change k) := by
  induction f, k using Forest.number_induction with
  | nil k => exact h
  | root t rest =>
    rw [Forest.modifyAt_root]
    exact ⟨hchange t h.1, h.2⟩
  | below t rest k hexpanded hlt ih =>
    obtain ⟨⟨hlabel, hchildren⟩, hrest⟩ := (Forest.allLabels_cons_iff t rest).mp h
    rw [Forest.modifyAt_below change rest hexpanded hlt, Forest.allLabels_cons_iff,
      Outline.label_withChildren, Outline.children_withChildren]
    exact ⟨⟨hlabel, ih hchildren⟩, hrest⟩
  | after t rest k hge ih =>
    rw [Forest.modifyAt_after change rest hge]
    exact ⟨h.1, ih h.2⟩

theorem Outline.allLabels_setCollapsed {t : Outline} (h : t.AllLabels P) (isCollapsed : Bool) :
    (t.setCollapsed isCollapsed).AllLabels P := by
  rcases t with ⟨label, indent, mark, _ | ⟨s, rest⟩⟩ <;> exact h

/-- A run keeps what all labels have. -/
theorem Forest.allLabels_run {f : Forest} (h : Forest.AllLabels P f) (steps : List Forest.Step) :
    Forest.AllLabels P (f.run steps) := by
  refine Forest.run_induction (P := Forest.AllLabels P) ?_ steps f h
  intro f s hf
  rw [Forest.perform_eq_modifyAt]
  exact Forest.allLabels_modifyAt (fun t ht => Outline.allLabels_setCollapsed ht _) f s.number hf

theorem Forest.of_mem_flatten {f : Forest} (h : Forest.AllLabels P f) :
    ∀ t ∈ Forest.flatten f, P t.label := by
  induction f using Forest.induction with
  | nil =>
    intro t ht
    cases ht
  | cons s rest ihchildren ihrest =>
    obtain ⟨⟨hlabel, hchildren⟩, hrest⟩ := (Forest.allLabels_cons_iff s rest).mp h
    intro t ht
    rw [Forest.flatten_cons, List.mem_cons, List.mem_append] at ht
    rcases ht with rfl | ht | ht
    · exact hlabel
    · rw [Outline.shownBelow] at ht
      split at ht
      · cases ht
      · exact ihchildren hchildren t ht
    · exact ihrest hrest t ht

end AllLabels

theorem Outline.not_mem_marker (t : Outline) : '\n' ∉ t.marker.toList := by
  rw [Outline.marker]
  split
  · split <;> decide
  · decide

/-- Line breaks in rows come from words if those in labels do. -/
theorem Forest.breaks_rows {ws : List String} {f : Forest}
    (h : Forest.AllLabels (BreaksOnlyIn ws) f) : ∀ r ∈ Forest.rows f, BreaksOnlyIn ws r.text := by
  intro r hr
  obtain ⟨k, hk, rfl⟩ := List.mem_mapIdx.mp hr
  have hlabel := Forest.of_mem_flatten h _ (List.getElem_mem hk)
  exact hlabel.after (Outline.not_mem_marker _)

end GoOutline

namespace GoOutline.Syntax

variable {ws : List String}

/-! ### Expressions in short -/

theorem Operator.not_mem_text (op : Operator) : '\n' ∉ op.text.toList := by
  cases op <;> decide

theorem Expr.not_mem_kind (x : Expr) : '\n' ∉ x.kind.toList := by
  cases x <;> rw [Expr.kind] <;> decide

/-- Line breaks in the short text of an expression come from its words. -/
theorem Expr.breaks_brief : ∀ x : Expr, x.words ⊆ ws → BreaksOnlyIn ws x.brief
  | .ident name, h => .of_mem (h List.mem_cons_self)
  | .basicLit _ value, h => .of_mem (h List.mem_cons_self)
  | .selector x sel, h => by
    obtain ⟨hx, hsel⟩ := List.append_subset.mp h
    have hdot := (x.breaks_brief hx).before (t := ".") (by decide)
    exact hdot.append (.of_mem (hsel List.mem_cons_self))
  | .star x, h => (x.breaks_brief h).after (by decide)
  | .arrayType (some length) element, h => by
    obtain ⟨hlength, helement⟩ := List.append_subset.mp h
    have hlength := (length.breaks_brief hlength).after (s := "[") (by decide)
    exact (hlength.before (by decide)).append (element.breaks_brief helement)
  | .arrayType none element, h => (element.breaks_brief h).after (by decide)
  | .mapType key value, h => by
    obtain ⟨hkey, hvalue⟩ := List.append_subset.mp h
    have hkey := (key.breaks_brief hkey).after (s := "map[") (by decide)
    exact (hkey.before (by decide)).append (value.breaks_brief hvalue)
  | .chanType .send value, h => (value.breaks_brief h).after (by decide)
  | .chanType .receive value, h => (value.breaks_brief h).after (by decide)
  | .chanType .both value, h => (value.breaks_brief h).after (by decide)
  | .ellipsis (some element), h => (element.breaks_brief h).after (by decide)
  | .call fn _ _, h => (fn.breaks_brief (List.append_subset.mp h).1).before (by decide)
  | .index x i, h => by
    obtain ⟨hx, hi⟩ := List.append_subset.mp h
    have hx := (x.breaks_brief hx).before (t := "[") (by decide)
    exact (hx.append (i.breaks_brief hi)).before (by decide)
  | .indexList x _, h => (x.breaks_brief (List.append_subset.mp h).1).before (by decide)
  | .binary x op y, h => by
    obtain ⟨hx, hy⟩ := List.append_subset.mp h
    have hx := ((x.breaks_brief hx).before (t := " ") (by decide)).before op.not_mem_text
    exact (hx.before (by decide)).append (y.breaks_brief hy)
  | .unary op x, h => (x.breaks_brief h).after op.not_mem_text
  | .paren x, h => ((x.breaks_brief h).after (by decide)).before (by decide)
  | .compositeLit (some type) _, h =>
    (type.breaks_brief (List.append_subset.mp h).1).before (by decide)
  -- all other short texts are fixed
  | .slice .., _ | .typeAssert .., _ | .keyValue .., _ => .of_not_mem (Expr.not_mem_kind _)
  | .funcType _, _ | .interfaceType _, _ | .structType _, _ | .ellipsis none, _
  | .compositeLit none _, _ | .funcLit _ _, _ => by
    apply BreaksOnlyIn.of_not_mem
    rw [Expr.brief]
    decide

theorem Expr.breaks_after {s : String} (x : Expr) (hs : '\n' ∉ s.toList) (h : x.words ⊆ ws) :
    BreaksOnlyIn ws (s ++ x.brief) :=
  (x.breaks_brief h).after hs

theorem breaks_brief? (x : Option Expr) (h : exprWords? x ⊆ ws) : BreaksOnlyIn ws (brief? x) := by
  cases x with
  | none => exact .of_not_mem (by decide)
  | some x => exact x.breaks_brief h

/-! ### Declarations -/

theorem breaks_intercalate (names : List String) (h : names ⊆ ws) :
    BreaksOnlyIn ws (String.intercalate ", " names) := by
  induction names with
  | nil => exact .of_not_mem (by decide)
  | cons name names ih =>
    obtain ⟨hname, hnames⟩ := List.cons_subset.mp h
    cases names with
    | nil => exact .of_mem hname
    | cons next names =>
      rw [String.intercalate_cons_cons]
      exact ((BreaksOnlyIn.of_mem hname).before (by decide)).append (ih hnames)

theorem Field.allLabels_outline (level : Nat) (f : Field) (h : f.words ⊆ ws) :
    (f.outline level).AllLabels (BreaksOnlyIn ws) := by
  cases f with
  | mk names type tag =>
    simp only [Field.words, List.append_subset] at h
    obtain ⟨⟨hnames, htype⟩, htag⟩ := h
    have htitle : BreaksOnlyIn ws
        (if names.isEmpty then "(embedded)" else String.intercalate ", " names) := by
      split
      · exact .of_not_mem (by decide)
      · exact breaks_intercalate names hnames
    refine ⟨htitle.after (by decide), ⟨(type.breaks_brief htype).after (by decide), trivial⟩, ?_⟩
    cases tag with
    | none => trivial
    | some text =>
      have htext := BreaksOnlyIn.of_mem (htag List.mem_cons_self)
      exact ⟨⟨htext.after (by decide), trivial⟩, trivial⟩

theorem allLabels_fields (level : Nat) (fields : List Field) (h : fieldsWords fields ⊆ ws) :
    Forest.AllLabels (BreaksOnlyIn ws) (fields.map (Field.outline level)) := by
  rw [fieldsWords_eq_flatMap] at h
  refine Forest.allLabels_map fun f hf => f.allLabels_outline level ?_
  exact fun w hw => h (List.mem_flatMap.mpr ⟨f, hf, hw⟩)

theorem allLabels_outlineFields {title : String} (level : Nat) (fields : List Field)
    (htitle : '\n' ∉ title.toList) (h : fieldsWords fields ⊆ ws) :
    Forest.AllLabels (BreaksOnlyIn ws) (outlineFields title level fields) := by
  cases fields with
  | nil => trivial
  | cons f fields => exact ⟨⟨.of_not_mem htitle, allLabels_fields (level + 1) _ h⟩, trivial⟩

theorem allLabels_outlineType (level : Nat) (shape : Expr) (h : shape.words ⊆ ws) :
    (outlineType level shape).AllLabels (BreaksOnlyIn ws) := by
  cases shape with
  | structType fields => exact ⟨.of_not_mem (by decide), allLabels_fields _ fields h⟩
  | interfaceType elements => exact ⟨.of_not_mem (by decide), allLabels_fields _ elements h⟩
  | _ => exact ⟨.after (Expr.breaks_brief _ h) (by decide), trivial⟩

theorem allLabels_gathered {title : String} {level : Nat} {children : Forest}
    (htitle : '\n' ∉ title.toList) (h : Forest.AllLabels (BreaksOnlyIn ws) children) :
    Forest.AllLabels (BreaksOnlyIn ws) (gathered title level children) := by
  cases children with
  | nil => trivial
  | cons t rest => exact ⟨⟨.of_not_mem htitle, h⟩, trivial⟩

theorem Spec.allLabels_typeOutlines (level : Nat) (s : Spec) (h : s.words ⊆ ws) :
    Forest.AllLabels (BreaksOnlyIn ws) (s.typeOutlines level) := by
  cases s with
  | value => trivial
  | type name typeParams isAlias shape =>
    simp only [Spec.words, List.append_subset, List.cons_subset] at h
    obtain ⟨⟨⟨hname, -⟩, -⟩, hshape⟩ := h
    have hlabel := (BreaksOnlyIn.of_mem hname).after (s := "Type: ") (by decide)
    exact ⟨⟨hlabel, allLabels_outlineType (level + 1) shape hshape, trivial⟩, trivial⟩

theorem Spec.allLabels_constOutlines (level : Nat) (s : Spec) (h : s.words ⊆ ws) :
    Forest.AllLabels (BreaksOnlyIn ws) (s.constOutlines level) := by
  cases s with
  | value names shape values =>
    simp only [Spec.words, List.append_subset] at h
    refine Forest.allLabels_map fun name hname => ?_
    exact ⟨(BreaksOnlyIn.of_mem (h.1.1 hname)).after (by decide), trivial⟩
  | type => trivial

theorem Spec.allLabels_varOutlines (level : Nat) (s : Spec) (h : s.words ⊆ ws) :
    Forest.AllLabels (BreaksOnlyIn ws) (s.varOutlines level) := by
  cases s with
  | value names shape values =>
    simp only [Spec.words, List.append_subset] at h
    obtain ⟨⟨hnames, hshape⟩, -⟩ := h
    have hlabel (name : String) (hname : name ∈ names) : BreaksOnlyIn ws ("Var: " ++ name) :=
      (BreaksOnlyIn.of_mem (hnames hname)).after (by decide)
    cases shape with
    | none => exact Forest.allLabels_map fun name hname => ⟨hlabel name hname, trivial⟩
    | some shape =>
      have htype : BreaksOnlyIn ws ("Type: " ++ shape.brief) :=
        shape.breaks_after (by decide) hshape
      exact Forest.allLabels_map fun name hname =>
        ⟨hlabel name hname, ⟨htype, trivial⟩, trivial⟩
  | type => trivial

theorem allLabels_outlineSpecs (level : Nat) (keyword : Keyword) (specs : List Spec)
    (h : specsWords specs ⊆ ws) :
    Forest.AllLabels (BreaksOnlyIn ws) (outlineSpecs level keyword specs) := by
  rw [specsWords_eq_flatMap] at h
  have hspec (s : Spec) (hs : s ∈ specs) : s.words ⊆ ws := fun w hw =>
    h (List.mem_flatMap.mpr ⟨s, hs, hw⟩)
  cases keyword with
  | type => exact Forest.allLabels_flatMap fun s hs => s.allLabels_typeOutlines _ (hspec s hs)
  | const =>
    apply allLabels_gathered (by decide)
    exact Forest.allLabels_flatMap fun s hs => s.allLabels_constOutlines _ (hspec s hs)
  | var =>
    apply allLabels_gathered (by decide)
    exact Forest.allLabels_flatMap fun s hs => s.allLabels_varOutlines _ (hspec s hs)

/-! ### Expressions and statements -/

theorem breaks_operator {before after : String} (op : Operator) (hbefore : '\n' ∉ before.toList)
    (hafter : '\n' ∉ after.toList) : BreaksOnlyIn ws (before ++ op.text ++ after) :=
  ((BreaksOnlyIn.of_not_mem op.not_mem_text).after hbefore).before hafter

section Trees

-- a fixed label, one that shows an operator, and one that shows an expression in short
attribute [local simp] BreaksOnlyIn.of_not_mem breaks_operator Expr.breaks_after

mutual

/-- **Line breaks in the labels of an expression and of all below it come from its words.** -/
theorem Expr.allLabels_outline (level : Nat) :
    ∀ x : Expr, x.words ⊆ ws → (x.outline level).AllLabels (BreaksOnlyIn ws)
  | .call fn [] _, h => by
    have hfn := (List.append_subset.mp h).1
    simp (disch := first | assumption | decide) [Expr.outline]
  | .call fn (arg :: args) _, h => by
    obtain ⟨hfn, h⟩ := List.append_subset.mp h
    obtain ⟨harg, hargs⟩ := List.append_subset.mp h
    simp (disch := first | assumption | decide) [Expr.outline, arg.allLabels_outline,
      allLabels_outlineExprs _ args]
  | .binary x op y, h => by
    obtain ⟨hx, hy⟩ := List.append_subset.mp h
    simp (disch := first | assumption | decide) [Expr.outline, x.allLabels_outline,
      y.allLabels_outline]
  | .unary op x, h => by
    have hx : x.words ⊆ ws := h
    simp (disch := first | assumption | decide) [Expr.outline, x.allLabels_outline]
  | .selector x sel, h => by
    obtain ⟨hx, hsel⟩ := List.append_subset.mp h
    have hx := x.breaks_after (s := "SelectorExpr: ") (by decide) hx
    have hsel := BreaksOnlyIn.of_mem (hsel List.mem_cons_self)
    exact ⟨(hx.before (by decide)).append hsel, trivial⟩
  | .index x i, h => by
    obtain ⟨hx, hi⟩ := List.append_subset.mp h
    simp (disch := first | assumption | decide) [Expr.outline, x.allLabels_outline,
      i.allLabels_outline]
  | .compositeLit type elements, h => by
    obtain ⟨htype, helements⟩ := List.append_subset.mp h
    have hlabel := (breaks_brief? type htype).after (s := "CompositeLit: ") (by decide)
    exact ⟨hlabel, allLabels_outlineExprs (level + 1) elements helements⟩
  | .funcLit _ body, h => by
    obtain ⟨_, hbody⟩ := List.append_subset.mp h
    simp (disch := first | assumption | decide) [Expr.outline, allLabels_outlineStmts _ body]
  | .keyValue key value, h => by
    obtain ⟨hkey, hvalue⟩ := List.append_subset.mp h
    simp (disch := first | assumption | decide) [Expr.outline, value.allLabels_outline]
  | .typeAssert x (some type), h => by
    obtain ⟨hx, htype⟩ := List.append_subset.mp h
    have htype : type.words ⊆ ws := htype
    simp (disch := first | assumption | decide) [Expr.outline, x.allLabels_outline]
  | .typeAssert x none, h => by
    obtain ⟨hx, _⟩ := List.append_subset.mp h
    simp (disch := first | assumption | decide) [Expr.outline, x.allLabels_outline]
  | .star x, h => by
    have hx : x.words ⊆ ws := h
    simp (disch := first | assumption | decide) [Expr.outline, x.allLabels_outline]
  | .slice x low high _, h => by
    simp only [Expr.words, List.append_subset] at h
    obtain ⟨⟨⟨hx, hlow⟩, hhigh⟩, _⟩ := h
    simp (disch := first | assumption | decide) [Expr.outline, x.allLabels_outline,
      allLabels_outlineExpr? _ low, allLabels_outlineExpr? _ high]
  -- all other expressions are leaves that show them in short
  | .ident .., h | .basicLit .., h | .paren .., h | .indexList .., h | .arrayType .., h
  | .structType .., h | .funcType .., h | .interfaceType .., h | .mapType .., h | .chanType .., h
  | .ellipsis .., h => ⟨Expr.breaks_brief _ h, trivial⟩

theorem allLabels_outlineExprs (level : Nat) :
    ∀ xs : List Expr, exprsWords xs ⊆ ws →
      Forest.AllLabels (BreaksOnlyIn ws) (outlineExprs level xs)
  | [], _ => trivial
  | x :: xs, h => by
    obtain ⟨hx, hxs⟩ := List.append_subset.mp h
    exact ⟨x.allLabels_outline level hx, allLabels_outlineExprs level xs hxs⟩

theorem allLabels_outlineExpr? (level : Nat) :
    ∀ x : Option Expr, exprWords? x ⊆ ws →
      Forest.AllLabels (BreaksOnlyIn ws) (outlineExpr? level x)
  | none, _ => trivial
  | some x, h => ⟨x.allLabels_outline level h, trivial⟩

/-- **Line breaks in the labels of a statement and of all below it come from its words.** -/
theorem Stmt.allLabels_outline (level : Nat) :
    ∀ s : Stmt, s.words ⊆ ws → (s.outline level).AllLabels (BreaksOnlyIn ws)
  | .block body, h => by
    have hbody : stmtsWords body ⊆ ws := h
    simp (disch := first | assumption | decide) [Stmt.outline, allLabels_outlineStmts _ body]
  | .expr x, h => by
    have hx : x.words ⊆ ws := h
    simp (disch := first | assumption | decide) [Stmt.outline, x.allLabels_outline]
  | .assign lhs op rhs, h => by
    obtain ⟨hlhs, hrhs⟩ := List.append_subset.mp h
    simp (disch := first | assumption | decide) [Stmt.outline, allLabels_outlineExprs _ lhs,
      allLabels_outlineExprs _ rhs]
  | .return_ results, h => by
    have hresults : exprsWords results ⊆ ws := h
    simp (disch := first | assumption | decide) [Stmt.outline, allLabels_outlineExprs _ results]
  | .if_ init cond body otherwise, h => by
    simp only [Stmt.words, List.append_subset] at h
    obtain ⟨⟨⟨hinit, hcond⟩, hbody⟩, hotherwise⟩ := h
    simp (disch := first | assumption | decide) [Stmt.outline, allLabels_outlineStmt? _ init,
      cond.allLabels_outline, allLabels_outlineStmts _ body, allLabels_outlineStmt? _ otherwise]
  | .for_ init cond post body, h => by
    simp only [Stmt.words, List.append_subset] at h
    obtain ⟨⟨⟨hinit, hcond⟩, hpost⟩, hbody⟩ := h
    simp (disch := first | assumption | decide) [Stmt.outline, allLabels_outlineStmt? _ init,
      allLabels_outlineExpr? _ cond, allLabels_outlineStmt? _ post, allLabels_outlineStmts _ body]
  | .range key value _ x body, h => by
    simp only [Stmt.words, List.append_subset] at h
    obtain ⟨⟨⟨hkey, hvalue⟩, hx⟩, hbody⟩ := h
    simp (disch := first | assumption | decide) [Stmt.outline, allLabels_outlineExpr? _ key,
      allLabels_outlineExpr? _ value, x.allLabels_outline, allLabels_outlineStmts _ body]
  | .decl keyword specs, h => by
    have hspecs : specsWords specs ⊆ ws := h
    simp (disch := first | assumption | decide) [Stmt.outline, allLabels_outlineSpecs]
  | .defer x, h => by
    have hx : x.words ⊆ ws := h
    simp (disch := first | assumption | decide) [Stmt.outline, x.allLabels_outline]
  | .go x, h => by
    have hx : x.words ⊆ ws := h
    simp (disch := first | assumption | decide) [Stmt.outline, x.allLabels_outline]
  | .switch init tag body, h => by
    simp only [Stmt.words, List.append_subset] at h
    obtain ⟨⟨hinit, htag⟩, hbody⟩ := h
    simp (disch := first | assumption | decide) [Stmt.outline, allLabels_outlineStmt? _ init,
      allLabels_outlineExpr? _ tag, allLabels_outlineStmts _ body]
  | .typeSwitch init assign body, h => by
    simp only [Stmt.words, List.append_subset] at h
    obtain ⟨⟨hinit, hassign⟩, hbody⟩ := h
    simp (disch := first | assumption | decide) [Stmt.outline, allLabels_outlineStmt? _ init,
      assign.allLabels_outline, allLabels_outlineStmts _ body]
  | .caseClause list body, h => by
    obtain ⟨hlist, hbody⟩ := List.append_subset.mp h
    cases list <;>
      simp (disch := first | assumption | decide) [Stmt.outline, allLabels_outlineExprs _ _ hlist,
        allLabels_outlineStmts _ body]
  | .select body, h => by
    have hbody : stmtsWords body ⊆ ws := h
    simp (disch := first | assumption | decide) [Stmt.outline, allLabels_outlineStmts _ body]
  | .commClause comm body, h => by
    obtain ⟨hcomm, hbody⟩ := List.append_subset.mp h
    cases comm <;>
      simp (disch := first | assumption | decide) [Stmt.outline, allLabels_outlineStmt? _ _ hcomm,
        allLabels_outlineStmts _ body]
  | .incDec x op, h => by
    have hx : x.words ⊆ ws := h
    simp (disch := first | assumption | decide) [Stmt.outline, x.allLabels_outline]
  | .labeled label stmt, h => by
    obtain ⟨hlabel, hstmt⟩ := List.append_subset.mp h
    have hlabel := BreaksOnlyIn.of_mem (hlabel List.mem_cons_self)
    have hlabel := (hlabel.after (s := "LabeledStmt (") (by decide)).before (t := ")") (by decide)
    exact ⟨hlabel, stmt.allLabels_outline (level + 1) hstmt, trivial⟩
  | .send chan value, h => by
    obtain ⟨hchan, hvalue⟩ := List.append_subset.mp h
    simp (disch := first | assumption | decide) [Stmt.outline, chan.allLabels_outline,
      value.allLabels_outline]
  | .branch op (some label), h => by
    have hlabel := BreaksOnlyIn.of_mem (h List.mem_cons_self)
    have hop : BreaksOnlyIn ws ("BranchStmt (" ++ op.text ++ " ") :=
      breaks_operator op (by decide) (by decide)
    exact ⟨(hop.append hlabel).before (by decide), trivial⟩
  | .branch op none, _ => ⟨breaks_operator op (by decide) (by decide), trivial⟩
  | .empty, _ => ⟨.of_not_mem (by decide), trivial⟩

theorem allLabels_outlineStmts (level : Nat) :
    ∀ ss : List Stmt, stmtsWords ss ⊆ ws →
      Forest.AllLabels (BreaksOnlyIn ws) (outlineStmts level ss)
  | [], _ => trivial
  | s :: ss, h => by
    obtain ⟨hs, hss⟩ := List.append_subset.mp h
    exact ⟨s.allLabels_outline level hs, allLabels_outlineStmts level ss hss⟩

theorem allLabels_outlineStmt? (level : Nat) :
    ∀ s : Option Stmt, stmtWords? s ⊆ ws →
      Forest.AllLabels (BreaksOnlyIn ws) (outlineStmt? level s)
  | none, _ => trivial
  | some s, h => ⟨s.allLabels_outline level h, trivial⟩

end

end Trees

/-! ### Functions and files -/

theorem FuncDecl.breaks_title (f : FuncDecl) (h : f.words ⊆ ws) : BreaksOnlyIn ws f.title := by
  simp only [FuncDecl.words, List.append_subset, List.cons_subset] at h
  obtain ⟨⟨⟨hreceivers, hname, -⟩, -⟩, -⟩ := h
  have hname := BreaksOnlyIn.of_mem hname
  delta FuncDecl.title
  cases hreceiver : f.receivers.bind List.head? with
  | none => exact hname.after (by decide)
  | some receiver =>
    obtain ⟨receivers, hsome, hhead⟩ := Option.bind_eq_some_iff.mp hreceiver
    have hmem : receiver ∈ receivers := List.mem_of_head? hhead
    have htype : receiver.type.words ⊆ ws := by
      intro w hw
      apply hreceivers
      rw [hsome]
      refine List.mem_flatMap.mpr ⟨receiver, hmem, ?_⟩
      cases receiver with
      | mk names type tag => exact List.mem_append_left _ (List.mem_append_right _ hw)
    have hreceiver := receiver.type.breaks_after (s := "Method: (") (by decide) htype
    exact (hreceiver.before (by decide)).append hname

theorem FuncDecl.allLabels_outline (level : Nat) (f : FuncDecl) (h : f.words ⊆ ws) :
    (f.outline level).AllLabels (BreaksOnlyIn ws) := by
  have htitle := f.breaks_title h
  simp only [FuncDecl.words, List.append_subset] at h
  obtain ⟨⟨-, htype⟩, hbody⟩ := h
  have hbody : Forest.AllLabels (BreaksOnlyIn ws)
      (f.body.map (outlineBody (level + 1))).toList := by
    cases hsome : f.body with
    | none => trivial
    | some body =>
      rw [hsome, ← stmtsWords_eq_flatMap] at hbody
      exact ⟨⟨.of_not_mem (by decide), allLabels_outlineStmts _ body hbody⟩, trivial⟩
  cases hsignature : f.type with
  | mk typeParams params results =>
    rw [hsignature] at htype
    simp only [FuncType.words, List.append_subset] at htype
    obtain ⟨⟨-, hparams⟩, hresults⟩ := htype
    rw [FuncDecl.outline, hsignature, Outline.allLabels_branch, Forest.allLabels_append,
      Forest.allLabels_append]
    refine ⟨htitle, ⟨?_, ?_⟩, hbody⟩
    · exact allLabels_outlineFields (level + 1) params (by decide) hparams
    · exact allLabels_outlineFields (level + 1) results (by decide) hresults

theorem Decl.allLabels_outlines (level : Nat) (d : Decl) (h : d.words ⊆ ws) :
    Forest.AllLabels (BreaksOnlyIn ws) (d.outlines level) := by
  cases d with
  | general keyword specs =>
    rw [Decl.words, ← specsWords_eq_flatMap] at h
    exact allLabels_outlineSpecs level keyword specs h
  | func f => exact ⟨f.allLabels_outline level h, trivial⟩

/-- **Line breaks in the labels of a file come from its words**, if its name has none. -/
theorem File.allLabels_outline {name : String} (file : File) (hname : '\n' ∉ name.toList)
    (h : file.words ⊆ ws) : (file.outline name).AllLabels (BreaksOnlyIn ws) := by
  simp only [File.words, List.append_subset, List.cons_subset] at h
  obtain ⟨⟨⟨hpackage, -⟩, himports⟩, hdecls⟩ := h
  have himports : Forest.AllLabels (BreaksOnlyIn ws)
      (file.imports.map (ImportSpec.outline 3)) := by
    refine Forest.allLabels_map fun i hi => ⟨.after (.of_mem (himports ?_)) (by decide), trivial⟩
    exact List.mem_flatMap.mpr ⟨i, hi, List.mem_append_right _ List.mem_cons_self⟩
  have hdecls : Forest.AllLabels (BreaksOnlyIn ws) (file.decls.flatMap (Decl.outlines 2)) := by
    refine Forest.allLabels_flatMap fun d hd => d.allLabels_outlines 2 fun w hw => hdecls ?_
    exact List.mem_flatMap.mpr ⟨d, hd, hw⟩
  rw [File.outline, Outline.allLabels_branch, List.cons_append, Forest.allLabels_cons,
    Forest.allLabels_append, Outline.allLabels_leaf]
  refine ⟨.after (.of_not_mem hname) (by decide), .after (.of_mem hpackage) (by decide), ?_, hdecls⟩
  exact allLabels_gathered (by decide) himports

end GoOutline.Syntax
