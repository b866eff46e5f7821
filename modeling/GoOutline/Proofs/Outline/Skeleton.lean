import GoOutline.Proofs.Outline.Levels

/-!
# Statement skeletons

Between the nodes of statements the outline of a statement shows the nodes of its expressions and
of its declarations. What is left when those are deleted is the skeleton of the statement: a node
for each statement that can be reached through statement positions, and one for each body. The
syntax tree may be any, also one that no text has.

A label does not tell what a node stands for, since a name can be spelled like the kind of a
statement. So deleting is a relation that goes along the parts of the statement.

* `Nested`, `Stmt.nested`: what stands at the statement positions of a statement.
* `Nested.skeleton`: a node for each of them, under the one in which it stands.
* `Constituent`, `Stmt.constituents`: all parts that an outline shows, in the order of the source.
* `Stmt.outline_eq`: the outline of a statement has the outlines of its parts below it.
* `Pruned`: what is left of some nodes when those of expressions and declarations are deleted.
* `Stmt.pruned_outline_iff`: the skeleton is left of the outline, and nothing else.
-/

namespace GoOutline.Syntax

/-! ### Statement positions -/

/-- What stands at a statement position: a statement, or all statements of a body. -/
inductive Nested where
  | stmt (s : Stmt)
  | body (ss : List Stmt)

/-- What stands at the statement positions of a statement, in the order of the source. -/
def Stmt.nested : Stmt → List Nested
  | block ss => ss.map .stmt
  | if_ init _ body otherwise =>
    init.toList.map .stmt ++ .body body :: otherwise.toList.map .stmt
  | for_ init _ post body => init.toList.map .stmt ++ post.toList.map .stmt ++ [.body body]
  | range _ _ _ _ body => [.body body]
  | switch init _ body => init.toList.map .stmt ++ [.body body]
  | typeSwitch init guard body => init.toList.map .stmt ++ [.stmt guard, .body body]
  | caseClause _ ss => ss.map .stmt
  | select body => [.body body]
  | commClause comm ss => comm.toList.map .stmt ++ ss.map .stmt
  | labeled _ s => [.stmt s]
  | decl .. | empty | expr .. | send .. | incDec .. | assign .. | go .. | defer .. | return_ ..
  | branch .. => []

/-- The statement positions of a statement or of a body. -/
def Nested.inner : Nested → List Nested
  | stmt s => s.nested
  | body ss => ss.map .stmt

/-- What a label shows of a statement besides its kind: the operator or the branch word, the label
that is written, and whether a clause is the default. -/
def Stmt.detail : Stmt → String
  | assign _ op _ => " (" ++ op.text ++ ")"
  | incDec _ op => " (" ++ op.text ++ ")"
  | branch op none => " (" ++ op.text ++ ")"
  | branch op (some label) => " (" ++ op.text ++ " " ++ label ++ ")"
  | labeled label _ => " (" ++ label ++ ")"
  | caseClause [] _ => " (default)"
  | commClause none _ => " (default)"
  | _ => ""

/-- The label of a statement or of a body. -/
def Nested.label : Nested → String
  | stmt s => s.kind ++ s.detail
  | body _ => "BlockStmt"

theorem Nested.sizeOf_le_of_mem_list {n : Nested} {ss : List Stmt}
    (h : n ∈ ss.map Nested.stmt) : sizeOf n ≤ sizeOf ss := by
  obtain ⟨s, hs, rfl⟩ := List.mem_map.mp h
  have hlt := List.sizeOf_lt_of_mem hs
  rw [Nested.stmt.sizeOf_spec]
  omega

theorem Nested.sizeOf_le_of_mem_option {n : Nested} {s : Option Stmt}
    (h : n ∈ s.toList.map Nested.stmt) : sizeOf n ≤ sizeOf s := by
  cases s with
  | none => cases h
  | some s =>
    cases List.mem_singleton.mp h
    rw [Nested.stmt.sizeOf_spec, Option.some.sizeOf_spec]

theorem Nested.sizeOf_lt_of_mem_inner {m n : Nested} (h : m ∈ n.inner) : sizeOf m < sizeOf n := by
  have hlist := fun ss => @Nested.sizeOf_le_of_mem_list m ss
  have hoption := fun s => @Nested.sizeOf_le_of_mem_option m s
  cases n with
  | body ss =>
    have hle := hlist ss h
    rw [Nested.body.sizeOf_spec]
    omega
  | stmt s =>
    cases s <;> simp only [Nested.inner, Stmt.nested, List.mem_append, List.mem_cons,
      List.not_mem_nil, or_false] at h <;> grind

/-- A node for a statement or a body, above the nodes of what stands at its statement positions. -/
def Nested.skeleton (level : Nat) (n : Nested) : Outline :=
  Outline.branch n.label level (n.inner.attach.map fun m => m.val.skeleton (level + 1))
termination_by sizeOf n
decreasing_by exact sizeOf_lt_of_mem_inner m.property

theorem Nested.skeleton_eq (level : Nat) (n : Nested) :
    n.skeleton level = Outline.branch n.label level (n.inner.map (Nested.skeleton (level + 1))) := by
  rw [Nested.skeleton, List.attach_map_val]

/-! ### All parts -/

/-- A part of a statement that its outline shows. -/
inductive Constituent where
  | nested (n : Nested)
  | expr (x : Expr)
  | decl (keyword : Keyword) (specs : List Spec)

/-- A statement as a part. -/
def Constituent.stmt (s : Stmt) : Constituent := .nested (.stmt s)

/-- A body as a part. -/
def Constituent.body (ss : List Stmt) : Constituent := .nested (.body ss)

/-- The parts of a statement that its outline shows, in the order of the source. -/
def Stmt.constituents : Stmt → List Constituent
  | decl keyword specs => [.decl keyword specs]
  | empty => []
  | labeled _ s => [.stmt s]
  | expr x => [.expr x]
  | send chan value => [.expr chan, .expr value]
  | incDec x _ => [.expr x]
  | assign lhs _ rhs => lhs.map .expr ++ rhs.map .expr
  | go x => [.expr x]
  | defer x => [.expr x]
  | return_ results => results.map .expr
  | branch .. => []
  | block ss => ss.map .stmt
  | if_ init cond body otherwise =>
    init.toList.map .stmt ++ .expr cond :: .body body :: otherwise.toList.map .stmt
  | caseClause list ss => list.map .expr ++ ss.map .stmt
  | switch init tag body => init.toList.map .stmt ++ tag.toList.map .expr ++ [.body body]
  | typeSwitch init guard body => init.toList.map .stmt ++ [.stmt guard, .body body]
  | commClause comm ss => comm.toList.map .stmt ++ ss.map .stmt
  | select body => [.body body]
  | for_ init cond post body =>
    init.toList.map .stmt ++ cond.toList.map .expr ++ post.toList.map .stmt ++ [.body body]
  | range key value _ x body =>
    key.toList.map .expr ++ value.toList.map .expr ++ [.expr x, .body body]

/-- The parts of a statement or of a body. -/
def Nested.constituents : Nested → List Constituent
  | stmt s => s.constituents
  | body ss => ss.map .stmt

/-- The node of a statement or of a body. -/
def Nested.outline (level : Nat) : Nested → Outline
  | stmt s => s.outline level
  | body ss => outlineBody level ss

/-- The nodes of a part: a declaration has any number of them. -/
def Constituent.outlines (level : Nat) : Constituent → Forest
  | nested n => [n.outline level]
  | expr x => [x.outline level]
  | decl keyword specs => outlineSpecs level keyword specs

/-- What stands at a statement position, if the part does. -/
def Constituent.nested? : Constituent → Option Nested
  | nested n => some n
  | expr _ => none
  | decl .. => none

section Parts

variable (level : Nat)

theorem outlineExprs_eq (xs : List Expr) :
    outlineExprs level xs = (xs.map Constituent.expr).flatMap (Constituent.outlines level) := by
  induction xs with
  | nil => rfl
  | cons x xs ih =>
    rw [outlineExprs, ih]
    rfl

theorem outlineStmts_eq (ss : List Stmt) :
    outlineStmts level ss = (ss.map Constituent.stmt).flatMap (Constituent.outlines level) := by
  induction ss with
  | nil => rfl
  | cons s ss ih =>
    rw [outlineStmts, ih]
    rfl

theorem outlineExpr?_eq (x : Option Expr) :
    outlineExpr? level x = (x.toList.map Constituent.expr).flatMap (Constituent.outlines level) := by
  cases x <;> rfl

theorem outlineStmt?_eq (s : Option Stmt) :
    outlineStmt? level s = (s.toList.map Constituent.stmt).flatMap (Constituent.outlines level) := by
  cases s <;> rfl

end Parts

/-- **The outline of a statement has the outlines of its parts below it, in the order of the
source.** The label is that of its kind, with its operator or its label. -/
theorem Stmt.outline_eq (level : Nat) (s : Stmt) :
    s.outline level = Outline.branch (s.kind ++ s.detail) level
      (s.constituents.flatMap (Constituent.outlines (level + 1))) := by
  cases s with
  | empty => rfl
  | branch op label =>
    cases label <;> simp only [Stmt.outline, Stmt.kind, Stmt.detail, ← String.append_assoc] <;> rfl
  | caseClause list ss =>
    cases list <;> simp [Stmt.outline, Stmt.constituents, Stmt.kind, Stmt.detail, outlineExprs_eq,
      outlineStmts_eq]
  | commClause comm ss =>
    cases comm <;> simp [Stmt.outline, Stmt.constituents, Stmt.kind, Stmt.detail, outlineStmts_eq,
      outlineStmt?_eq]
  | _ =>
    simp [Stmt.outline, Stmt.constituents, Stmt.kind, Stmt.detail, outlineExprs_eq,
      outlineStmts_eq, outlineExpr?_eq, outlineStmt?_eq, Constituent.outlines, Constituent.stmt,
      Constituent.body, Nested.outline, outlineBody, ← String.append_assoc]

theorem Nested.outline_eq (level : Nat) (n : Nested) :
    n.outline level = Outline.branch n.label level
      (n.constituents.flatMap (Constituent.outlines (level + 1))) := by
  cases n with
  | stmt s => exact s.outline_eq level
  | body ss =>
    show Outline.branch "BlockStmt" level (outlineStmts (level + 1) ss) = _
    rw [outlineStmts_eq]
    rfl

@[simp] theorem filterMap_nested?_expr (xs : List Expr) :
    xs.filterMap (Constituent.nested? ∘ Constituent.expr) = [] :=
  List.filterMap_eq_nil_iff.mpr fun _ _ => rfl

@[simp] theorem filterMap_nested?_stmt (ss : List Stmt) :
    ss.filterMap (Constituent.nested? ∘ Constituent.stmt) = ss.map Nested.stmt :=
  congrFun List.filterMap_eq_map ss

/-- The parts that are neither expressions nor declarations are those at statement positions. -/
theorem Nested.filterMap_constituents (n : Nested) :
    n.constituents.filterMap Constituent.nested? = n.inner := by
  cases n with
  | body ss =>
    rw [Nested.constituents, List.filterMap_map, filterMap_nested?_stmt]
    rfl
  | stmt s =>
    cases s <;> simp [Nested.constituents, Stmt.constituents, Nested.inner, Stmt.nested,
      List.filterMap_cons, Constituent.nested?, Constituent.stmt, Constituent.body]

/-! ### Deleting -/

/-- What is left of the nodes of some parts when those of expressions and declarations are deleted,
at every depth. The nodes of the other parts keep their labels, their indents and their marks. -/
inductive Pruned : List Constituent → Forest → Forest → Prop where
  | nil : Pruned [] [] []
  | expr {x : Expr} {level : Nat} {ps : List Constituent} {f left : Forest} :
    Pruned ps f left → Pruned (.expr x :: ps) (x.outline level :: f) left
  | decl {keyword : Keyword} {specs : List Spec} {level : Nat} {ps : List Constituent}
    {f left : Forest} :
    Pruned ps f left → Pruned (.decl keyword specs :: ps) (outlineSpecs level keyword specs ++ f) left
  | nested {n : Nested} {label : String} {indent : Nat} {isCollapsed : Bool}
    {ps : List Constituent} {below leftBelow f left : Forest} :
    Pruned n.constituents below leftBelow → Pruned ps f left →
      Pruned (.nested n :: ps) (.node label indent isCollapsed below :: f)
        (.node label indent isCollapsed leftBelow :: left)

/-- The number of nodes of a declaration does not depend on the level. -/
theorem length_outlineSpecs (level other : Nat) (keyword : Keyword) (specs : List Spec) :
    (outlineSpecs level keyword specs).length = (outlineSpecs other keyword specs).length := by
  rw [← placed_outlineSpecs level other, Forest.placed_eq_map, List.length_map]

/-- Deleting leaves one forest at most. -/
theorem Pruned.eq {ps : List Constituent} {f left other : Forest} (h : Pruned ps f left)
    (hother : Pruned ps f other) : left = other := by
  induction h generalizing other with
  | nil => cases hother; rfl
  | @expr x level ps f left _ ih =>
    generalize hf : x.outline level :: f = g at hother
    cases hother with
    | expr h => exact ih ((List.cons.inj hf).2 ▸ h)
  | @decl keyword specs level ps f left _ ih =>
    generalize hf : outlineSpecs level keyword specs ++ f = g at hother
    cases hother with
    | @decl _ _ level' _ f' _ h =>
      have htail := List.append_inj_right hf (length_outlineSpecs level level' keyword specs)
      exact ih (htail ▸ h)
  | nested _ _ ihbelow ih =>
    cases hother with
    | nested hbelow h => rw [ihbelow hbelow, ih h]

/-- Of the outlines of some parts the skeletons of those at statement positions are left, if this
holds below each of them. -/
theorem pruned_outlines {ps : List Constituent}
    (h : ∀ n, Constituent.nested n ∈ ps → ∀ level,
      Pruned n.constituents (n.outline level).children (n.skeleton level).children) (level : Nat) :
    Pruned ps (ps.flatMap (Constituent.outlines level))
      ((ps.filterMap Constituent.nested?).map (Nested.skeleton level)) := by
  induction ps with
  | nil => exact .nil
  | cons p ps ih =>
    have hps := ih fun n hn => h n (List.mem_cons_of_mem p hn)
    cases p with
    | expr x => exact .expr hps
    | decl keyword specs => exact .decl hps
    | nested n =>
      have hn := h n List.mem_cons_self level
      show Pruned _ (n.outline level :: _) (n.skeleton level :: _)
      rw [n.outline_eq, n.skeleton_eq] at hn ⊢
      exact .nested hn hps

theorem Nested.pruned_children (n : Nested) (level : Nat) :
    Pruned n.constituents (n.outline level).children (n.skeleton level).children := by
  have hbelow := pruned_outlines
    (fun m hm => by
      have hmem : m ∈ n.inner := by
        rw [← n.filterMap_constituents]
        exact List.mem_filterMap.mpr ⟨_, hm, rfl⟩
      have hlt := sizeOf_lt_of_mem_inner hmem
      exact m.pruned_children)
    (level + 1)
  rw [n.filterMap_constituents] at hbelow
  rw [n.outline_eq, n.skeleton_eq]
  exact hbelow
termination_by sizeOf n

/-- **Deleting the nodes of expressions and declarations leaves the skeleton of a statement.** There
is a node for each statement at a statement position and for each body, under the node of the
statement or of the body in which it stands, in the order of the source and with the label of its
kind; and nothing else can be left. -/
theorem Stmt.pruned_outline_iff (s : Stmt) (level : Nat) (left : Forest) :
    Pruned [.stmt s] [s.outline level] left ↔ left = [(Nested.stmt s).skeleton level] := by
  have hskeleton : Pruned [.stmt s] [s.outline level] [(Nested.stmt s).skeleton level] :=
    pruned_outlines (fun n _ => n.pruned_children) level
  constructor
  · intro h
    exact h.eq hskeleton
  · intro h
    exact h ▸ hskeleton

end GoOutline.Syntax
