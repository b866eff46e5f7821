import GoOutline.Outline.OfFile
import GoOutline.Proofs.Outline.Visible

/-!
# Levels

The outline of a piece of syntax is built at a level that is handed down and counted up by hand.
Here the outline that is built at one level is compared with the one that is built at another: the
labels and the shape do not depend on the level, each node stands one step deeper than the node it
belongs to, and nothing is collapsed. The syntax tree may be any, also one that no text has.

* `Outline.placed`, `Forest.placed`: the same labels in the same shape, with the indents that go
  with a given level, and expanded.
* `Outline.get?_placed`, `Forest.get?_placed`: the node at the end of a path after placing.
* `placed_outlineSpecs`, `Expr.placed_outline`, `Stmt.placed_outline`, `FuncDecl.placed_outline`: an
  outline that is placed at a level is the one that is built at this level.
* `IsBuiltByLevel`: what this says of the nodes one by one.
* `File.outline_indents`: the indents in the outline of a file and of all its parts.
-/

namespace GoOutline

/-! ### Outlines at a level -/

mutual

/-- An outline with the same labels in the same shape. Its root has the given indent, each node
below stands one step deeper than the node it belongs to, and all nodes are expanded. -/
def Outline.placed (level : Nat) : Outline → Outline
  | .node label _ _ children => .node label level false (Forest.placed (level + 1) children)

/-- `Outline.placed` for several outlines, whose roots get the same indent. -/
def Forest.placed (level : Nat) : Forest → Forest
  | [] => []
  | t :: rest => t.placed level :: Forest.placed level rest

end

section Placed

variable (level other : Nat)

@[simp] theorem Outline.label_placed (t : Outline) : (t.placed level).label = t.label := by
  cases t; rfl

@[simp] theorem Outline.indent_placed (t : Outline) : (t.placed level).indent = level := by
  cases t; rfl

@[simp] theorem Outline.isCollapsed_placed (t : Outline) :
    (t.placed level).isCollapsed = false := by
  cases t; rfl

@[simp] theorem Outline.children_placed (t : Outline) :
    (t.placed level).children = Forest.placed (level + 1) t.children := by
  cases t; rfl

@[simp] theorem Outline.placed_branch (label : String) (children : Forest) :
    (Outline.branch label other children).placed level
      = .branch label level (Forest.placed (level + 1) children) := rfl

@[simp] theorem Outline.placed_leaf (label : String) :
    (Outline.leaf label other).placed level = .leaf label level := rfl

@[simp] theorem Forest.placed_nil : Forest.placed level [] = [] := rfl

@[simp] theorem Forest.placed_cons (t : Outline) (rest : Forest) :
    Forest.placed level (t :: rest) = t.placed level :: Forest.placed level rest := rfl

theorem Forest.placed_eq_map (f : Forest) :
    Forest.placed level f = f.map (Outline.placed level) := by
  induction f with
  | nil => rfl
  | cons t rest ih => rw [Forest.placed_cons, ih, List.map_cons]

@[simp] theorem Forest.placed_append (f g : Forest) :
    Forest.placed level (f ++ g) = Forest.placed level f ++ Forest.placed level g := by
  simp only [Forest.placed_eq_map, List.map_append]

end Placed

section PlacedLists

variable {α : Type} {level : Nat} {xs : List α}

/-- Nodes that are built one for each item are placed one by one. -/
theorem Forest.placed_map {build built : α → Outline}
    (h : ∀ x ∈ xs, (build x).placed level = built x) :
    Forest.placed level (xs.map build) = xs.map built := by
  rw [Forest.placed_eq_map, List.map_map]
  exact List.map_congr_left h

/-- Nodes that are built from items are placed item by item. -/
theorem Forest.placed_flatMap {build built : α → Forest}
    (h : ∀ x ∈ xs, Forest.placed level (build x) = built x) :
    Forest.placed level (xs.flatMap build) = xs.flatMap built := by
  induction xs with
  | nil => rfl
  | cons x xs ih =>
    have hx := h x List.mem_cons_self
    have hxs := ih fun y hy => h y (List.mem_cons_of_mem x hy)
    rw [List.flatMap_cons, Forest.placed_append, hx, hxs, List.flatMap_cons]

end PlacedLists

/-! ### Nodes by path -/

/-- The node at the end of a path is as deep as the path is long. -/
theorem Outline.get?_placed (path : Path) :
    ∀ (t : Outline) (level : Nat),
      (t.placed level).get? path = (t.get? path).map (Outline.placed (level + path.length)) := by
  induction path with
  | nil => intro t level; rfl
  | cons i path ih =>
    intro t level
    rw [Outline.get?_cons, Outline.get?_cons, Forest.get?_cons, Forest.get?_cons,
      Outline.children_placed, Forest.placed_eq_map, List.getElem?_map, List.length_cons]
    cases t.children[i]? with
    | none => rfl
    | some s =>
      show (s.placed (level + 1)).get? path
        = (s.get? path).map (Outline.placed (level + (path.length + 1)))
      rw [ih, show level + 1 + path.length = level + (path.length + 1) by omega]

theorem Forest.get?_placed (f : Forest) (level i : Nat) (below : Path) :
    Forest.get? (Forest.placed level f) (i :: below)
      = (Forest.get? f (i :: below)).map (Outline.placed (level + below.length)) := by
  rw [Forest.get?_cons, Forest.get?_cons, Forest.placed_eq_map, List.getElem?_map]
  cases f[i]? with
  | none => rfl
  | some t => exact Outline.get?_placed below t level

end GoOutline

namespace GoOutline.Syntax

/-! ### Declarations -/

theorem Field.placed_outline (level other : Nat) (f : Field) :
    (f.outline other).placed level = f.outline level := by
  cases f with
  | mk names type tag => cases tag <;> rfl

theorem placed_fields (level other : Nat) (fields : List Field) :
    Forest.placed level (fields.map (Field.outline other)) = fields.map (Field.outline level) :=
  Forest.placed_map fun f _ => f.placed_outline level other

theorem placed_outlineFields (title : String) (level other : Nat) (fields : List Field) :
    Forest.placed level (outlineFields title other fields) = outlineFields title level fields := by
  cases fields with
  | nil => rfl
  | cons f fields =>
    show [Outline.branch title level (Forest.placed (level + 1) _)] = _
    rw [placed_fields]
    rfl

theorem placed_outlineType (level other : Nat) (shape : Expr) :
    (outlineType other shape).placed level = outlineType level shape := by
  cases shape with
  | structType fields =>
    show Outline.branch "StructType" level (Forest.placed (level + 1) _) = _
    rw [placed_fields]
    rfl
  | interfaceType elements =>
    show Outline.branch "InterfaceType" level (Forest.placed (level + 1) _) = _
    rw [placed_fields]
    rfl
  | _ => rfl

theorem Spec.placed_typeOutlines (level other : Nat) (s : Spec) :
    Forest.placed level (s.typeOutlines other) = s.typeOutlines level := by
  cases s with
  | value => rfl
  | type name typeParams isAlias shape =>
    show [Outline.branch ("Type: " ++ name) level
      [(outlineType (other + 1) shape).placed (level + 1)]] = _
    rw [placed_outlineType]
    rfl

theorem Spec.placed_constOutlines (level other : Nat) (s : Spec) :
    Forest.placed level (s.constOutlines other) = s.constOutlines level := by
  cases s with
  | value names shape values =>
    exact Forest.placed_map fun _ _ => rfl
  | type => rfl

theorem Spec.placed_varOutlines (level other : Nat) (s : Spec) :
    Forest.placed level (s.varOutlines other) = s.varOutlines level := by
  cases s with
  | value names shape values =>
    cases shape with
    | none =>
      exact Forest.placed_map fun _ _ => rfl
    | some shape =>
      exact Forest.placed_map fun _ _ => rfl
  | type => rfl

/-- Whether there is a node around some others does not depend on the level. -/
theorem placed_gathered (title : String) (level other : Nat) (children : Forest) :
    Forest.placed level (gathered title other children)
      = gathered title level (Forest.placed (level + 1) children) := by
  cases children <;> rfl

theorem placed_outlineSpecs (level other : Nat) (keyword : Keyword) (specs : List Spec) :
    Forest.placed level (outlineSpecs other keyword specs) = outlineSpecs level keyword specs := by
  cases keyword with
  | type => exact Forest.placed_flatMap fun s _ => s.placed_typeOutlines level other
  | const =>
    show Forest.placed level (gathered "Const" other _) = gathered "Const" level _
    rw [placed_gathered, Forest.placed_flatMap fun s _ => s.placed_constOutlines _ _]
  | var =>
    show Forest.placed level (gathered "Var" other _) = gathered "Var" level _
    rw [placed_gathered, Forest.placed_flatMap fun s _ => s.placed_varOutlines _ _]

/-! ### Expressions and statements -/

mutual

/-- **The outline of an expression does not depend on the level but for the indents.** -/
theorem Expr.placed_outline (level other : Nat) :
    ∀ x : Expr, (x.outline other).placed level = x.outline level
  | .call fn [] _ => rfl
  | .call fn (arg :: args) _ => by
    simp [Expr.outline, arg.placed_outline, placed_outlineExprs _ _ args]
  | .binary x op y => by simp [Expr.outline, x.placed_outline, y.placed_outline]
  | .unary op x => by simp [Expr.outline, x.placed_outline]
  | .index x i => by simp [Expr.outline, x.placed_outline, i.placed_outline]
  | .compositeLit type elements => by simp [Expr.outline, placed_outlineExprs _ _ elements]
  | .funcLit _ body => by simp [Expr.outline, placed_outlineStmts _ _ body]
  | .keyValue key value => by simp [Expr.outline, value.placed_outline]
  | .typeAssert x (some type) => by simp [Expr.outline, x.placed_outline]
  | .typeAssert x none => by simp [Expr.outline, x.placed_outline]
  | .star x => by simp [Expr.outline, x.placed_outline]
  | .slice x low high _ => by
    simp [Expr.outline, x.placed_outline, placed_outlineExpr? _ _ low,
      placed_outlineExpr? _ _ high]
  -- all other expressions are leaves
  | .selector .. | .ident .. | .basicLit .. | .paren .. | .indexList .. | .arrayType ..
  | .structType .. | .funcType .. | .interfaceType .. | .mapType .. | .chanType ..
  | .ellipsis .. => rfl

theorem placed_outlineExprs (level other : Nat) :
    ∀ xs : List Expr, Forest.placed level (outlineExprs other xs) = outlineExprs level xs
  | [] => rfl
  | x :: xs => by simp [outlineExprs, x.placed_outline, placed_outlineExprs _ _ xs]

theorem placed_outlineExpr? (level other : Nat) :
    ∀ x : Option Expr, Forest.placed level (outlineExpr? other x) = outlineExpr? level x
  | none => rfl
  | some x => by simp [outlineExpr?, x.placed_outline]

/-- **The outline of a statement does not depend on the level but for the indents.** -/
theorem Stmt.placed_outline (level other : Nat) :
    ∀ s : Stmt, (s.outline other).placed level = s.outline level
  | .block body => by simp [Stmt.outline, placed_outlineStmts _ _ body]
  | .expr x => by simp [Stmt.outline, x.placed_outline]
  | .assign lhs op rhs => by
    simp [Stmt.outline, placed_outlineExprs _ _ lhs, placed_outlineExprs _ _ rhs]
  | .return_ results => by simp [Stmt.outline, placed_outlineExprs _ _ results]
  | .if_ init cond body otherwise => by
    simp [Stmt.outline, placed_outlineStmt? _ _ init, cond.placed_outline,
      placed_outlineStmts _ _ body, placed_outlineStmt? _ _ otherwise]
  | .for_ init cond post body => by
    simp [Stmt.outline, placed_outlineStmt? _ _ init, placed_outlineExpr? _ _ cond,
      placed_outlineStmt? _ _ post, placed_outlineStmts _ _ body]
  | .range key value _ x body => by
    simp [Stmt.outline, placed_outlineExpr? _ _ key, placed_outlineExpr? _ _ value,
      x.placed_outline, placed_outlineStmts _ _ body]
  | .decl keyword specs => by simp [Stmt.outline, placed_outlineSpecs]
  | .defer x => by simp [Stmt.outline, x.placed_outline]
  | .go x => by simp [Stmt.outline, x.placed_outline]
  | .switch init tag body => by
    simp [Stmt.outline, placed_outlineStmt? _ _ init, placed_outlineExpr? _ _ tag,
      placed_outlineStmts _ _ body]
  | .typeSwitch init assign body => by
    simp [Stmt.outline, placed_outlineStmt? _ _ init, assign.placed_outline,
      placed_outlineStmts _ _ body]
  | .caseClause list body => by
    simp [Stmt.outline, placed_outlineExprs _ _ list, placed_outlineStmts _ _ body]
  | .select body => by simp [Stmt.outline, placed_outlineStmts _ _ body]
  | .commClause comm body => by
    simp [Stmt.outline, placed_outlineStmt? _ _ comm, placed_outlineStmts _ _ body]
  | .incDec x op => by simp [Stmt.outline, x.placed_outline]
  | .labeled label s => by simp [Stmt.outline, s.placed_outline]
  | .send chan value => by simp [Stmt.outline, chan.placed_outline, value.placed_outline]
  | .branch op (some label) => rfl
  | .branch op none => rfl
  | .empty => rfl

theorem placed_outlineStmts (level other : Nat) :
    ∀ ss : List Stmt, Forest.placed level (outlineStmts other ss) = outlineStmts level ss
  | [] => rfl
  | s :: ss => by simp [outlineStmts, s.placed_outline, placed_outlineStmts _ _ ss]

theorem placed_outlineStmt? (level other : Nat) :
    ∀ s : Option Stmt, Forest.placed level (outlineStmt? other s) = outlineStmt? level s
  | none => rfl
  | some s => by simp [outlineStmt?, s.placed_outline]

end

/-! ### Functions and files -/

theorem FuncDecl.placed_outline (level other : Nat) (f : FuncDecl) :
    (f.outline other).placed level = f.outline level := by
  have hbody : Forest.placed (level + 1) (f.body.map (outlineBody (other + 1))).toList
      = (f.body.map (outlineBody (level + 1))).toList := by
    cases f.body with
    | none => rfl
    | some body => simp [outlineBody, placed_outlineStmts]
  rw [FuncDecl.outline, Outline.placed_branch, Forest.placed_append, Forest.placed_append,
    placed_outlineFields, placed_outlineFields, hbody, FuncDecl.outline]

theorem Decl.placed_outlines (level other : Nat) (d : Decl) :
    Forest.placed level (d.outlines other) = d.outlines level := by
  cases d with
  | general keyword specs => exact placed_outlineSpecs level other keyword specs
  | func f =>
    show [(f.outline other).placed level] = [f.outline level]
    rw [f.placed_outline]

/-- The root of a file stands at the first level. -/
theorem File.placed_outline (name : String) (file : File) :
    (file.outline name).placed 1 = file.outline name := by
  have himports : Forest.placed 3 (file.imports.map (ImportSpec.outline 3))
      = file.imports.map (ImportSpec.outline 3) :=
    Forest.placed_map fun _ _ => rfl
  have hdecls : Forest.placed 2 (file.decls.flatMap (Decl.outlines 2))
      = file.decls.flatMap (Decl.outlines 2) :=
    Forest.placed_flatMap fun d _ => d.placed_outlines 2 2
  rw [File.outline, Outline.placed_branch, List.cons_append, Forest.placed_cons,
    Outline.placed_leaf, Forest.placed_append, placed_gathered, himports, hdecls]

/-! ### Nodes one by one -/

/-- Nodes are built at each level in the same way. A node at the end of a path is as deep below the
level as the path goes on below its root, no node is collapsed, and at every other level there is a
node at the end of the same paths, with the same label. -/
structure IsBuiltByLevel (build : Nat → Forest) : Prop where
  indent_eq : ∀ (level i : Nat) (below : Path) (s : Outline),
    Forest.get? (build level) (i :: below) = some s → s.indent = level + below.length
  isCollapsed_eq : ∀ (level : Nat) (path : Path) (s : Outline),
    Forest.get? (build level) path = some s → s.isCollapsed = false
  label_eq : ∀ (level other : Nat) (path : Path),
    (Forest.get? (build level) path).map Outline.label
      = (Forest.get? (build other) path).map Outline.label

theorem isBuiltByLevel_of_placed {build : Nat → Forest}
    (h : ∀ level other, Forest.placed level (build other) = build level) :
    IsBuiltByLevel build where
  indent_eq := by
    intro level i below s hs
    rw [← h level level, Forest.get?_placed] at hs
    obtain ⟨t, -, rfl⟩ := Option.map_eq_some_iff.mp hs
    exact t.indent_placed _
  isCollapsed_eq := by
    intro level path s hs
    cases path with
    | nil => cases hs
    | cons i below =>
      rw [← h level level, Forest.get?_placed] at hs
      obtain ⟨t, -, rfl⟩ := Option.map_eq_some_iff.mp hs
      exact t.isCollapsed_placed _
  label_eq := by
    intro level other path
    cases path with
    | nil => rfl
    | cons i below =>
      rw [← h level other, Forest.get?_placed, Option.map_map]
      congr 1
      funext t
      exact t.label_placed _

theorem isBuiltByLevel_singleton {build : Nat → Outline}
    (h : ∀ level other, (build other).placed level = build level) :
    IsBuiltByLevel fun level => [build level] :=
  isBuiltByLevel_of_placed fun level other => congrArg (fun t => [t]) (h level other)

/-- **Each node stands one step deeper than the node it belongs to.** In the outline of a file the
root has the indent one, the indent of a child is that of its parent and one more at every depth,
and no node is collapsed. Declarations, statements, expressions and fields are built at every level
in the same way: their labels and their shape do not depend on the level, and a node has the level
and its own depth as its indent. -/
theorem File.outline_indents (name : String) (file : File) :
    ((file.outline name).indent = 1 ∧
      (∀ (path : Path) (i : Nat) (parent child : Outline),
        (file.outline name).get? path = some parent → parent.children[i]? = some child →
          child.indent = parent.indent + 1) ∧
      ∀ (path : Path) (s : Outline),
        (file.outline name).get? path = some s → s.isCollapsed = false) ∧
    (∀ d : Decl, IsBuiltByLevel d.outlines) ∧
    (∀ (keyword : Keyword) (specs : List Spec),
      IsBuiltByLevel fun level => outlineSpecs level keyword specs) ∧
    (∀ f : FuncDecl, IsBuiltByLevel fun level => [f.outline level]) ∧
    (∀ s : Stmt, IsBuiltByLevel fun level => [s.outline level]) ∧
    (∀ x : Expr, IsBuiltByLevel fun level => [x.outline level]) ∧
    ∀ f : Field, IsBuiltByLevel fun level => [f.outline level] := by
  have hnode : ∀ (path : Path) (s : Outline), (file.outline name).get? path = some s →
      ∃ t : Outline, s = t.placed (1 + path.length) := by
    intro path s hs
    rw [← File.placed_outline, Outline.get?_placed] at hs
    obtain ⟨t, -, rfl⟩ := Option.map_eq_some_iff.mp hs
    exact ⟨t, rfl⟩
  refine ⟨⟨rfl, ?_, ?_⟩, ?_, ?_, ?_, ?_, ?_, ?_⟩
  · intro path i parent child hparent hchild
    obtain ⟨t, rfl⟩ := hnode path parent hparent
    rw [Outline.children_placed, Forest.placed_eq_map, List.getElem?_map] at hchild
    obtain ⟨u, -, rfl⟩ := Option.map_eq_some_iff.mp hchild
    rw [Outline.indent_placed, Outline.indent_placed]
  · intro path s hs
    obtain ⟨t, rfl⟩ := hnode path s hs
    exact t.isCollapsed_placed _
  · intro d
    exact isBuiltByLevel_of_placed fun level other => d.placed_outlines level other
  · intro keyword specs
    exact isBuiltByLevel_of_placed fun level other => placed_outlineSpecs level other keyword specs
  · intro f
    exact isBuiltByLevel_singleton fun level other => f.placed_outline level other
  · intro s
    exact isBuiltByLevel_singleton fun level other => s.placed_outline level other
  · intro x
    exact isBuiltByLevel_singleton fun level other => x.placed_outline level other
  · intro f
    exact isBuiltByLevel_singleton fun level other => f.placed_outline level other

end GoOutline.Syntax
