import GoOutline.Outline.Basic
import GoOutline.Syntax.Brief

/-!
# The outline of a source file

Every declaration, statement and expression gets a node at the indent that is given.

* `Expr.outline`, `Stmt.outline`: expressions and statements.
* `outlineSpecs`, `FuncDecl.outline`, `Decl.outlines`: declarations.
* `File.outline`: the whole file.
* `errorOutline`: what stands for a file that has a syntax error.
-/

namespace GoOutline.Syntax

open Outline (branch leaf)

/-! ### Fields and general declarations -/

/-- A node for a field, with its type and its tag. -/
def Field.outline (level : Nat) : Field → Outline
  | mk names type tag =>
    let title := if names.isEmpty then "(embedded)" else String.intercalate ", " names
    let tags := match tag with
      | some text => [leaf ("Tag: " ++ text) (level + 1)]
      | none => []
    branch ("Field: " ++ title) level (leaf ("Type: " ++ type.brief) (level + 1) :: tags)

/-- A node around some fields, unless there are none. -/
def outlineFields (title : String) (level : Nat) (fields : List Field) : List Outline :=
  if fields.isEmpty then [] else [branch title level (fields.map (Field.outline (level + 1)))]

/-- A node for what a type name stands for. -/
def outlineType (level : Nat) : Expr → Outline
  | .structType fields => branch "StructType" level (fields.map (Field.outline (level + 1)))
  | .interfaceType elements =>
    branch "InterfaceType" level (elements.map (Field.outline (level + 1)))
  | other => leaf ("TypeExpr: " ++ other.brief) level

/-- A node for a declared type; none for declared values. -/
def Spec.typeOutlines (level : Nat) : Spec → List Outline
  | type name _ _ shape => [branch ("Type: " ++ name) level [outlineType (level + 1) shape]]
  | value .. => []

/-- Nodes for declared constants; none for a type. -/
def Spec.constOutlines (level : Nat) : Spec → List Outline
  | value names _ _ => names.map fun name => leaf ("Const: " ++ name) level
  | type .. => []

/-- Nodes for declared variables, with their type if one is written; none for a type. -/
def Spec.varOutlines (level : Nat) : Spec → List Outline
  | value names (some shape) _ =>
    names.map fun name =>
      branch ("Var: " ++ name) level [leaf ("Type: " ++ shape.brief) (level + 1)]
  | value names none _ => names.map fun name => leaf ("Var: " ++ name) level
  | type .. => []

/-- A node around some others, unless there are none. -/
def gathered (title : String) (level : Nat) (children : List Outline) : List Outline :=
  if children.isEmpty then [] else [branch title level children]

/-- Nodes for a general declaration: one for each type, or one for all constants or variables. -/
def outlineSpecs (level : Nat) : Keyword → List Spec → List Outline
  | .type, specs => specs.flatMap (Spec.typeOutlines level)
  | .const, specs => gathered "Const" level (specs.flatMap (Spec.constOutlines (level + 1)))
  | .var, specs => gathered "Var" level (specs.flatMap (Spec.varOutlines (level + 1)))

/-! ### Expressions and statements -/

mutual

/-- A node for an expression. A selector is kept short, and so is what is called. -/
def Expr.outline (level : Nat) : Expr → Outline
  | .call fn [] _ => branch "CallExpr" level [leaf ("Fun: " ++ fn.brief) (level + 1)]
  | .call fn (arg :: args) _ =>
    branch "CallExpr" level
      [leaf ("Fun: " ++ fn.brief) (level + 1),
        branch "Args" (level + 1) (arg.outline (level + 2) :: outlineExprs (level + 2) args)]
  | .binary x op y =>
    branch ("BinaryExpr (" ++ op.text ++ ")") level [x.outline (level + 1), y.outline (level + 1)]
  | .unary op x => branch ("UnaryExpr (" ++ op.text ++ ")") level [x.outline (level + 1)]
  | .selector x sel => leaf ("SelectorExpr: " ++ x.brief ++ "." ++ sel) level
  | .index x i => branch "IndexExpr" level [x.outline (level + 1), i.outline (level + 1)]
  | .compositeLit type elements =>
    branch ("CompositeLit: " ++ brief? type) level (outlineExprs (level + 1) elements)
  | .funcLit _ body =>
    branch "FuncLit" level [branch "BlockStmt" (level + 1) (outlineStmts (level + 2) body)]
  | .keyValue key value =>
    branch "KeyValueExpr" level [leaf ("Key: " ++ key.brief) (level + 1), value.outline (level + 1)]
  | .typeAssert x (some type) =>
    branch "TypeAssertExpr" level
      [x.outline (level + 1), leaf ("Type: " ++ type.brief) (level + 1)]
  | .typeAssert x none => branch "TypeAssertExpr" level [x.outline (level + 1)]
  | .star x => branch "StarExpr" level [x.outline (level + 1)]
  | .slice x low high _ =>
    branch "SliceExpr" level
      (x.outline (level + 1) :: (outlineExpr? (level + 1) low ++ outlineExpr? (level + 1) high))
  | .ident name => leaf (Expr.ident name).brief level
  | .basicLit kind value => leaf (Expr.basicLit kind value).brief level
  | .paren x => leaf (Expr.paren x).brief level
  | .indexList x indices => leaf (Expr.indexList x indices).brief level
  | .arrayType length element => leaf (Expr.arrayType length element).brief level
  | .structType fields => leaf (Expr.structType fields).brief level
  | .funcType type => leaf (Expr.funcType type).brief level
  | .interfaceType elements => leaf (Expr.interfaceType elements).brief level
  | .mapType key value => leaf (Expr.mapType key value).brief level
  | .chanType dir value => leaf (Expr.chanType dir value).brief level
  | .ellipsis element => leaf (Expr.ellipsis element).brief level

/-- Nodes for some expressions. -/
def outlineExprs (level : Nat) : List Expr → List Outline
  | [] => []
  | x :: xs => x.outline level :: outlineExprs level xs

/-- A node for an expression, if there is one. -/
def outlineExpr? (level : Nat) : Option Expr → List Outline
  | some x => [x.outline level]
  | none => []

/-- A node for a statement. -/
def Stmt.outline (level : Nat) : Stmt → Outline
  | .block body => branch "BlockStmt" level (outlineStmts (level + 1) body)
  | .expr x => branch "ExprStmt" level [x.outline (level + 1)]
  | .assign lhs op rhs =>
    branch ("AssignStmt (" ++ op.text ++ ")") level
      (outlineExprs (level + 1) lhs ++ outlineExprs (level + 1) rhs)
  | .return_ results => branch "ReturnStmt" level (outlineExprs (level + 1) results)
  | .if_ init cond body otherwise =>
    branch "IfStmt" level
      (outlineStmt? (level + 1) init ++ [cond.outline (level + 1)]
        ++ [branch "BlockStmt" (level + 1) (outlineStmts (level + 2) body)]
        ++ outlineStmt? (level + 1) otherwise)
  | .for_ init cond post body =>
    branch "ForStmt" level
      (outlineStmt? (level + 1) init ++ outlineExpr? (level + 1) cond
        ++ outlineStmt? (level + 1) post
        ++ [branch "BlockStmt" (level + 1) (outlineStmts (level + 2) body)])
  | .range key value _ x body =>
    branch "RangeStmt" level
      (outlineExpr? (level + 1) key ++ outlineExpr? (level + 1) value
        ++ [x.outline (level + 1), branch "BlockStmt" (level + 1) (outlineStmts (level + 2) body)])
  | .decl keyword specs => branch "DeclStmt" level (outlineSpecs (level + 1) keyword specs)
  | .defer x => branch "DeferStmt" level [x.outline (level + 1)]
  | .go x => branch "GoStmt" level [x.outline (level + 1)]
  | .switch init tag body =>
    branch "SwitchStmt" level
      (outlineStmt? (level + 1) init ++ outlineExpr? (level + 1) tag
        ++ [branch "BlockStmt" (level + 1) (outlineStmts (level + 2) body)])
  | .typeSwitch init assign body =>
    branch "TypeSwitchStmt" level
      (outlineStmt? (level + 1) init
        ++ [assign.outline (level + 1),
          branch "BlockStmt" (level + 1) (outlineStmts (level + 2) body)])
  | .caseClause list body =>
    branch (if list.isEmpty then "CaseClause (default)" else "CaseClause") level
      (outlineExprs (level + 1) list ++ outlineStmts (level + 1) body)
  | .select body =>
    branch "SelectStmt" level [branch "BlockStmt" (level + 1) (outlineStmts (level + 2) body)]
  | .commClause comm body =>
    branch (if comm.isNone then "CommClause (default)" else "CommClause") level
      (outlineStmt? (level + 1) comm ++ outlineStmts (level + 1) body)
  | .incDec x op => branch ("IncDecStmt (" ++ op.text ++ ")") level [x.outline (level + 1)]
  | .branch op (some label) => leaf ("BranchStmt (" ++ op.text ++ " " ++ label ++ ")") level
  | .branch op none => leaf ("BranchStmt (" ++ op.text ++ ")") level
  | .labeled label stmt => branch ("LabeledStmt (" ++ label ++ ")") level [stmt.outline (level + 1)]
  | .send chan value =>
    branch "SendStmt" level [chan.outline (level + 1), value.outline (level + 1)]
  | .empty => leaf "EmptyStmt" level

/-- Nodes for some statements. -/
def outlineStmts (level : Nat) : List Stmt → List Outline
  | [] => []
  | s :: ss => s.outline level :: outlineStmts level ss

/-- A node for a statement, if there is one. -/
def outlineStmt? (level : Nat) : Option Stmt → List Outline
  | some s => [s.outline level]
  | none => []

end

/-! ### Files -/

/-- The node of the statements in a body. -/
def outlineBody (level : Nat) (body : List Stmt) : Outline :=
  branch "BlockStmt" level (outlineStmts (level + 1) body)

/-- The label of a function; the one of a method shows the type of its receiver. -/
def FuncDecl.title (f : FuncDecl) : String :=
  match f.receivers.bind List.head? with
  | some receiver => "Method: (" ++ receiver.type.brief ++ ") " ++ f.name
  | none => "Func: " ++ f.name

/-- A node for a function, with its parameters, its results and its body. -/
def FuncDecl.outline (level : Nat) (f : FuncDecl) : Outline :=
  branch f.title level
    (outlineFields "Params" (level + 1) f.type.params
      ++ outlineFields "Results" (level + 1) f.type.results
      ++ (f.body.map (outlineBody (level + 1))).toList)

/-- Nodes for a declaration. -/
def Decl.outlines (level : Nat) : Decl → List Outline
  | general keyword specs => outlineSpecs level keyword specs
  | func f => [f.outline level]

/-- A node for an import. -/
def ImportSpec.outline (level : Nat) (i : ImportSpec) : Outline := leaf ("Import: " ++ i.path) level

/-- The outline of a file with the given name. -/
def File.outline (name : String) (file : File) : Outline :=
  branch ("File: " ++ name) 1
    (leaf ("Package: " ++ file.package) 2
      :: gathered "Imports" 2 (file.imports.map (ImportSpec.outline 3))
      ++ file.decls.flatMap (Decl.outlines 2))

/-- What stands for a file in which there is an error. -/
def errorOutline (name error : String) : Outline := leaf (name ++ " (error: " ++ error ++ ")") 1

end GoOutline.Syntax
