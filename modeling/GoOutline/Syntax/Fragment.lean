import GoOutline.Syntax.Concrete
import GoOutline.Syntax.File

/-!
# Fragments of syntax trees

What one node of a source text contributes to the typed syntax tree.

* `Fragment`: the contributions, one constructor for each sort.
* `Fragment.expr?`, `Fragment.stmt?`, …: a contribution as a value of one type, if it is of that
  sort.
* `Parts`: the contributions of the children of a node, with their fields.
-/

namespace GoOutline.Syntax

open GoOutline.Grammar (Terminal RuleName)

/-- What a node contributes. -/
inductive Fragment where
  /-- A token that only marks a place. -/
  | mark (t : Terminal)
  /-- A comment, which may stand anywhere. -/
  | comment
  /-- An expression or a type. -/
  | expr (x : Expr)
  /-- Expressions with commas between them. -/
  | exprs (xs : List Expr)
  /-- The types in the brackets after a generic name. -/
  | typeArgs (xs : List Expr)
  /-- An argument that is spread. -/
  | spread (x : Expr)
  /-- The arguments of a call. -/
  | args (xs : List Expr) (isSpread : Bool)
  /-- An element of a composite literal. -/
  | element (x : Expr)
  /-- The elements of a composite literal. -/
  | elements (xs : List Expr)
  /-- One parameter declaration. -/
  | param (f : Field)
  /-- A list of parameters, or of results. -/
  | params (fs : List Field)
  | typeParam (f : Field)
  | typeParams (fs : List Field)
  /-- A field of a struct. -/
  | member (f : Field)
  /-- The fields of a struct. -/
  | members (fs : List Field)
  /-- A method of an interface. -/
  | method (f : Field)
  | stmt (s : Stmt)
  /-- Statements without braces around them. -/
  | stmts (ss : List Stmt)
  /-- Statements in braces. -/
  | block (ss : List Stmt)
  /-- A clause of a `switch`; the default clause has no expressions. -/
  | switchCase (list : List Expr) (body : List Stmt)
  /-- A clause of a type switch. -/
  | typeCase (list : List Expr) (body : List Stmt)
  /-- The default clause of any switch or `select`. -/
  | defaultCase (body : List Stmt)
  /-- A clause of a `select`. -/
  | commCase (comm : Stmt) (body : List Stmt)
  | forClause (init : Option Stmt) (cond : Option Expr) (post : Option Stmt)
  | rangeClause (key value : Option Expr) (op : Option Operator) (x : Expr)
  | valueSpec (names : List String) (type : Option Expr) (values : List Expr)
  | typeSpec (name : String) (typeParams : List Field) (isAlias : Bool) (type : Expr)
  /-- The lines of a `var` group. -/
  | specs (ss : List Spec)
  | decl (keyword : Keyword) (specs : List Spec)
  | func (f : FuncDecl)
  | importSpec (i : ImportSpec)
  /-- The lines of an `import` group. -/
  | importSpecs (is : List ImportSpec)
  /-- An import declaration. -/
  | imports (is : List ImportSpec)
  | package (name : String)

namespace Fragment

/-- Whether the fragment is a comment. -/
def isComment : Fragment → Bool
  | comment => true
  | _ => false

/-- Whether the fragment is a part of its node: no mark and no comment. -/
def isPart : Fragment → Bool
  | mark _ | comment => false
  | _ => true

/-- An expression. -/
def expr? : Fragment → Option Expr
  | expr x => some x
  | _ => none

/-- A name: an expression that is an identifier. -/
def name? : Fragment → Option String
  | expr (.ident s) => some s
  | _ => none

/-- The text of a literal. -/
def literal? : Fragment → Option String
  | expr (.basicLit _ s) => some s
  | _ => none

/-- Several expressions, or one. -/
def exprs? : Fragment → Option (List Expr)
  | exprs xs => some xs
  | _ => none

/-- The operator that a token stands for. -/
def operator? : Fragment → Option Operator
  | mark t => t.spelling?.bind Operator.ofText?
  | _ => none

/-- A statement. -/
def stmt? : Fragment → Option Stmt
  | stmt s => some s
  | block ss => some (.block ss)
  | decl keyword lines => some (.decl keyword lines)
  | _ => none

/-- Statements in braces. -/
def block? : Fragment → Option (List Stmt)
  | block ss => some ss
  | _ => none

/-- An element of a composite literal. -/
def element? : Fragment → Option Expr
  | element x => some x
  | _ => none

/-- The elements of a composite literal. -/
def elements? : Fragment → Option (List Expr)
  | elements xs => some xs
  | _ => none

/-- A list of parameters. -/
def params? : Fragment → Option (List Field)
  | params fs => some fs
  | _ => none

/-- A list of type parameters. -/
def typeParams? : Fragment → Option (List Field)
  | typeParams fs => some fs
  | _ => none

/-- The types in brackets. -/
def typeArgs? : Fragment → Option (List Expr)
  | typeArgs xs => some xs
  | _ => none

/-- The arguments of a call. -/
def args? : Fragment → Option (List Expr × Bool)
  | args xs isSpread => some (xs, isSpread)
  | _ => none

/-- A line of a general declaration. -/
def spec? : Fragment → Option Spec
  | valueSpec names type values => some (.value names type values)
  | typeSpec name ps isAlias type => some (.type name ps isAlias type)
  | _ => none

/-- A line of an import declaration. -/
def importSpec? : Fragment → Option ImportSpec
  | importSpec i => some i
  | _ => none

/-- The lines of an import declaration, one or a group. -/
def imports? : Fragment → Option (List ImportSpec)
  | importSpec i => some [i]
  | importSpecs is => some is
  | _ => none

/-- The results of a signature: a list of them, or one type. -/
def results? : Fragment → Option (List Field)
  | params fs => some fs
  | expr x => some [.mk [] x none]
  | _ => none

/-- A parameter. -/
def param? : Fragment → Option Field
  | param f => some f
  | _ => none

/-- A type parameter. -/
def typeParam? : Fragment → Option Field
  | typeParam f => some f
  | _ => none

/-- A field of a struct. -/
def member? : Fragment → Option Field
  | member f => some f
  | _ => none

/-- The fields of a struct. -/
def members? : Fragment → Option (List Field)
  | members fs => some fs
  | _ => none

/-- An element of an interface: a method, or a type that is embedded. -/
def interfaceElement? : Fragment → Option Field
  | method f => some f
  | expr x => some (.mk [] x none)
  | _ => none

/-- An argument of a call, and whether it is spread. -/
def arg? : Fragment → Option (Expr × Bool)
  | expr x => some (x, false)
  | spread x => some (x, true)
  | _ => none

/-- The key or the value of an element: an expression, or a composite literal without its type. -/
def entry? : Fragment → Option Expr
  | expr x => some x
  | elements xs => some (.compositeLit none xs)
  | _ => none

/-- Statements without braces. -/
def stmts? : Fragment → Option (List Stmt)
  | stmts ss => some ss
  | _ => none

/-- What comes after `else`: a block or another `if`. -/
def otherwise? : Fragment → Option Stmt
  | block ss => some (.block ss)
  | stmt (.if_ init cond body otherwise) => some (.if_ init cond body otherwise)
  | _ => none

/-- A clause of a `switch`. -/
def switchEntry? : Fragment → Option Stmt
  | switchCase list body => some (.caseClause list body)
  | defaultCase body => some (.caseClause [] body)
  | _ => none

/-- A clause of a type switch. -/
def typeSwitchEntry? : Fragment → Option Stmt
  | typeCase list body => some (.caseClause list body)
  | defaultCase body => some (.caseClause [] body)
  | _ => none

/-- A clause of a `select`. -/
def selectEntry? : Fragment → Option Stmt
  | commCase comm body => some (.commClause (some comm) body)
  | defaultCase body => some (.commClause none body)
  | _ => none

end Fragment

/-! ### Parts of a node -/

/-- The contributions of the children of a node, with their fields. -/
abbrev Parts := List (Option Grammar.Field × Fragment)

namespace Parts

/-- The first part with a field. -/
def part? (ps : Parts) (f : Grammar.Field) : Option Fragment :=
  (ps.find? fun p => p.1 == some f).map (·.2)

/-- The parts with a field, without marks and comments. -/
def parts (ps : Parts) (f : Grammar.Field) : List Fragment :=
  (ps.filter fun p => p.1 == some f && p.2.isPart).map (·.2)

/-- All parts but marks and comments. -/
def named (ps : Parts) : List Fragment := (ps.map (·.2)).filter Fragment.isPart

/-- The parts without a field, without marks and comments. -/
def others (ps : Parts) : List Fragment :=
  (ps.filter fun p => p.1 == none && p.2.isPart).map (·.2)

/-- The marks, in order. -/
def marks (ps : Parts) : List Terminal :=
  ps.filterMap fun p => match p.2 with
    | .mark t => some t
    | _ => none

/-- The part with a field, as a value of one type. -/
def get? {α : Type} (ps : Parts) (f : Grammar.Field) (as : Fragment → Option α) : Option α :=
  (ps.part? f).bind as

/-- The part with a field, if there is one, as a value of one type. There is no answer if the part is
of another sort. -/
def optional? {α : Type} (ps : Parts) (f : Grammar.Field) (as : Fragment → Option α) :
    Option (Option α) :=
  match ps.part? f with
  | none => some none
  | some p => (as p).map some

/-- The parts with a field, as values of one type. -/
def all? {α : Type} (ps : Parts) (f : Grammar.Field) (as : Fragment → Option α) :
    Option (List α) :=
  (ps.parts f).mapM as

/-- The only part that is no mark and no comment, as a value of one type. -/
def only? {α : Type} (ps : Parts) (as : Fragment → Option α) : Option α :=
  match ps.named with
  | [p] => as p
  | _ => none

end Parts

end GoOutline.Syntax
