import GoOutline.Syntax.Operator

/-!
# Syntax trees of Go files

The typed syntax tree of a source file.

* `Expr`: expressions and types, which share one kind of tree.
* `Stmt`: statements; the clauses of `switch` and `select` count as statements.
* `Spec`, `Field`, `FuncType`: the parts of declarations.
* `Decl`, `File`: a source file is a package name, imports and declarations.
* `Expr.kind`, `Stmt.kind`: the names of the kinds of trees.

Positions are not kept: nothing that is shown depends on them.
-/

namespace GoOutline.Syntax

/-- The kinds of basic literals. -/
inductive LiteralKind where
  | int | float | imaginary | char | string
deriving DecidableEq, Inhabited

/-- Which way values go through a channel. -/
inductive Direction where
  | both | send | receive
deriving DecidableEq, Inhabited

/-- The word that opens a general declaration. -/
inductive Keyword where
  | const | type | var
deriving DecidableEq, Inhabited

mutual

/-- Expressions and types. -/
inductive Expr where
  | ident (name : String)
  | basicLit (kind : LiteralKind) (value : String)
  | compositeLit (type : Option Expr) (elements : List Expr)
  | funcLit (type : FuncType) (body : List Stmt)
  | paren (x : Expr)
  | selector (x : Expr) (sel : String)
  | index (x : Expr) (index : Expr)
  | indexList (x : Expr) (indices : List Expr)
  | slice (x : Expr) (low high max : Option Expr)
  /-- There is no type in `x.(type)`, which stands in a type switch. -/
  | typeAssert (x : Expr) (type : Option Expr)
  /-- The last argument of `f(xs...)` is spread. -/
  | call (fn : Expr) (args : List Expr) (isSpread : Bool)
  /-- A pointer type, or what a pointer points to. -/
  | star (x : Expr)
  | unary (op : Operator) (x : Expr)
  | binary (x : Expr) (op : Operator) (y : Expr)
  | keyValue (key value : Expr)
  /-- A slice type has no length; the length of `[...]T` is a bare ellipsis. -/
  | arrayType (length : Option Expr) (element : Expr)
  | structType (fields : List Field)
  | funcType (type : FuncType)
  | interfaceType (elements : List Field)
  | mapType (key value : Expr)
  | chanType (dir : Direction) (value : Expr)
  /-- `...T` for a parameter, or the bare `...` of `[...]T`. -/
  | ellipsis (element : Option Expr)

/-- A parameter, a result, a field of a struct or an element of an interface. What is embedded has no
name. -/
inductive Field where
  | mk (names : List String) (type : Expr) (tag : Option String)

/-- The type of a function. -/
inductive FuncType where
  | mk (typeParams params results : List Field)

/-- One line of a general declaration. -/
inductive Spec where
  | value (names : List String) (type : Option Expr) (values : List Expr)
  | type (name : String) (typeParams : List Field) (isAlias : Bool) (type : Expr)

/-- Statements. -/
inductive Stmt where
  | decl (keyword : Keyword) (specs : List Spec)
  | empty
  | labeled (label : String) (stmt : Stmt)
  | expr (x : Expr)
  | send (chan value : Expr)
  | incDec (x : Expr) (op : Operator)
  | assign (lhs : List Expr) (op : Operator) (rhs : List Expr)
  | go (x : Expr)
  | defer (x : Expr)
  | return_ (results : List Expr)
  | branch (op : Operator) (label : Option String)
  | block (body : List Stmt)
  | if_ (init : Option Stmt) (cond : Expr) (body : List Stmt) (otherwise : Option Stmt)
  /-- The default clause has no expressions. -/
  | caseClause (list : List Expr) (body : List Stmt)
  | switch (init : Option Stmt) (tag : Option Expr) (body : List Stmt)
  | typeSwitch (init : Option Stmt) (assign : Stmt) (body : List Stmt)
  /-- The default clause has no communication. -/
  | commClause (comm : Option Stmt) (body : List Stmt)
  | select (body : List Stmt)
  | for_ (init : Option Stmt) (cond : Option Expr) (post : Option Stmt) (body : List Stmt)
  /-- There is no operator in `for range x`. -/
  | range (key value : Option Expr) (op : Option Operator) (x : Expr) (body : List Stmt)

end

instance : Inhabited Expr := ⟨.ident ""⟩
instance : Inhabited Stmt := ⟨.empty⟩
instance : Inhabited Field := ⟨.mk [] default none⟩
instance : Inhabited FuncType := ⟨.mk [] [] []⟩

/-! ### Parts -/

/-- The names of a field. -/
def Field.names : Field → List String
  | mk names _ _ => names

/-- The type of a field. -/
def Field.type : Field → Expr
  | mk _ type _ => type

/-- The tag of a field. -/
def Field.tag : Field → Option String
  | mk _ _ tag => tag

/-- The type parameters of a function. -/
def FuncType.typeParams : FuncType → List Field
  | mk typeParams _ _ => typeParams

/-- The parameters of a function. -/
def FuncType.params : FuncType → List Field
  | mk _ params _ => params

/-- The results of a function. -/
def FuncType.results : FuncType → List Field
  | mk _ _ results => results

/-! ### Files -/

/-- An import: a local name, if one is written, and the path with its quotes. -/
structure ImportSpec where
  name : Option String
  path : String
deriving DecidableEq, Inhabited

/-- A function or method. A method has receivers. -/
structure FuncDecl where
  receivers : Option (List Field)
  name : String
  type : FuncType
  body : Option (List Stmt)

/-- A declaration at the top level. -/
inductive Decl where
  | general (keyword : Keyword) (specs : List Spec)
  | func (f : FuncDecl)

/-- A source file. -/
structure File where
  package : String
  imports : List ImportSpec
  decls : List Decl

/-! ### Names of kinds -/

/-- The name of the kind of an expression. -/
def Expr.kind : Expr → String
  | ident .. => "Ident"
  | basicLit .. => "BasicLit"
  | compositeLit .. => "CompositeLit"
  | funcLit .. => "FuncLit"
  | paren .. => "ParenExpr"
  | selector .. => "SelectorExpr"
  | index .. => "IndexExpr"
  | indexList .. => "IndexListExpr"
  | slice .. => "SliceExpr"
  | typeAssert .. => "TypeAssertExpr"
  | call .. => "CallExpr"
  | star .. => "StarExpr"
  | unary .. => "UnaryExpr"
  | binary .. => "BinaryExpr"
  | keyValue .. => "KeyValueExpr"
  | arrayType .. => "ArrayType"
  | structType .. => "StructType"
  | funcType .. => "FuncType"
  | interfaceType .. => "InterfaceType"
  | mapType .. => "MapType"
  | chanType .. => "ChanType"
  | ellipsis .. => "Ellipsis"

/-- The name of the kind of a statement. -/
def Stmt.kind : Stmt → String
  | decl .. => "DeclStmt"
  | empty => "EmptyStmt"
  | labeled .. => "LabeledStmt"
  | expr .. => "ExprStmt"
  | send .. => "SendStmt"
  | incDec .. => "IncDecStmt"
  | assign .. => "AssignStmt"
  | go .. => "GoStmt"
  | defer .. => "DeferStmt"
  | return_ .. => "ReturnStmt"
  | branch .. => "BranchStmt"
  | block .. => "BlockStmt"
  | if_ .. => "IfStmt"
  | caseClause .. => "CaseClause"
  | switch .. => "SwitchStmt"
  | typeSwitch .. => "TypeSwitchStmt"
  | commClause .. => "CommClause"
  | select .. => "SelectStmt"
  | for_ .. => "ForStmt"
  | range .. => "RangeStmt"

end GoOutline.Syntax
