import GoOutline.Syntax.File

/-!
# The shape of syntax trees

The type of syntax trees admits more than source files have. Here is what a tree from a source file
looks like at every depth.

* `ExprPlace`, `StmtPlace`: where an expression or a statement stands.
* `Expr.fits`, `Stmt.fits`: every part is one that may stand at its place, and every operator is one
  that its node may have.
* `File.isWellShaped`: the same for a whole file.
-/

namespace GoOutline.Syntax

/-! ### Operators -/

namespace Operator

/-- The operators before an expression. There is no `*`, which has a node of its own. -/
def isUnary : Operator → Bool
  | add | sub | not | xor | and | arrow | tilde => true
  | _ => false

/-- The operators between two expressions. -/
def isBinary : Operator → Bool
  | add | sub | mul | quo | rem | and | or | xor | shl | shr | andNot
  | lAnd | lOr | eql | neq | lss | leq | gtr | geq => true
  | _ => false

/-- `=`, `:=` and the operators that compute and assign. -/
def isAssignment : Operator → Bool
  | assign | define
  | addAssign | subAssign | mulAssign | quoAssign | remAssign | andAssign | orAssign | xorAssign
  | shlAssign | shrAssign | andNotAssign => true
  | _ => false

/-- `=` and `:=`. -/
def isPlainAssignment : Operator → Bool
  | assign | define => true
  | _ => false

/-- Whether a branch may have the word with the label: `goto` needs one, `fallthrough` has none. -/
def isBranch (label : Option String) : Operator → Bool
  | break_ | continue_ => true
  | goto => label.isSome
  | fallthrough => label.isNone
  | _ => false

end Operator

/-! ### Places -/

/-- Where an expression stands. -/
inductive ExprPlace where
  | plain
  /-- An element of a composite literal. -/
  | element
  /-- The key or the value of such an element. -/
  | entry
  /-- The length of an array type. -/
  | length
  /-- The type of a parameter, a result or a receiver. -/
  | parameter
  /-- What a type switch looks at. -/
  | subject
deriving DecidableEq

/-- Where a statement stands. -/
inductive StmtPlace where
  | plain
  /-- A clause of a `switch` or a type switch. -/
  | switchEntry
  /-- A clause of a `select`. -/
  | selectEntry
  /-- What comes after `else`. -/
  | otherwise
  /-- What a type switch looks at, perhaps bound to a name. -/
  | guard
deriving DecidableEq

/-! ### Trees -/

mutual

/-- Whether an expression may stand at a place, and so for all its parts. -/
def Expr.fits (p : ExprPlace) : Expr → Bool
  | .ident _ => p != .subject
  | .basicLit _ _ => p != .subject
  | .compositeLit none elements => (p == .element || p == .entry) && fitExprs .element elements
  | .compositeLit (some type) elements =>
    p != .subject && type.fits .plain && fitExprs .element elements
  | .funcLit type body => p != .subject && type.fits && fitStmts .plain body
  | .paren x => p != .subject && x.fits .plain
  | .selector x _ => p != .subject && x.fits .plain
  | .index x i => p != .subject && x.fits .plain && i.fits .plain
  | .indexList x indices =>
    p != .subject && x.fits .plain && 2 ≤ indices.length && fitExprs .plain indices
  | .slice x low high max =>
    p != .subject && x.fits .plain && fitExpr? .plain low && fitExpr? .plain high
      && fitExpr? .plain max
  | .typeAssert x none => p == .subject && x.fits .plain
  | .typeAssert x (some type) => p != .subject && x.fits .plain && type.fits .plain
  | .call fn args _ => p != .subject && fn.fits .plain && fitExprs .plain args
  | .star x => p != .subject && x.fits .plain
  | .unary op x => p != .subject && op.isUnary && x.fits .plain
  | .binary x op y => p != .subject && x.fits .plain && op.isBinary && y.fits .plain
  | .keyValue key value => p == .element && key.fits .entry && value.fits .entry
  | .arrayType length element => p != .subject && fitExpr? .length length && element.fits .plain
  | .structType fields => p != .subject && fitFields .plain fields
  | .funcType type => p != .subject && type.fits
  | .interfaceType elements => p != .subject && fitFields .plain elements
  | .mapType key value => p != .subject && key.fits .plain && value.fits .plain
  | .chanType _ value => p != .subject && value.fits .plain
  | .ellipsis none => p == .length
  | .ellipsis (some element) => p == .parameter && element.fits .plain

/-- `Expr.fits` for several expressions. -/
def fitExprs (p : ExprPlace) : List Expr → Bool
  | [] => true
  | x :: xs => x.fits p && fitExprs p xs

/-- `Expr.fits` for an expression that may be absent. -/
def fitExpr? (p : ExprPlace) : Option Expr → Bool
  | none => true
  | some x => x.fits p

/-- Whether the type of a field may stand at a place. -/
def Field.fits (p : ExprPlace) : Field → Bool
  | .mk _ type _ => type.fits p

/-- `Field.fits` for several fields. -/
def fitFields (p : ExprPlace) : List Field → Bool
  | [] => true
  | f :: fs => f.fits p && fitFields p fs

/-- Whether all parameters and results are as they should be. -/
def FuncType.fits : FuncType → Bool
  | .mk typeParams params results =>
    fitFields .plain typeParams && fitFields .parameter params && fitFields .parameter results

/-- Whether a line may stand in a declaration with the keyword. -/
def Spec.fits (keyword : Keyword) : Spec → Bool
  | .value names type values =>
    keyword != .type && !names.isEmpty && fitExpr? .plain type && fitExprs .plain values
  | .type _ typeParams _ type =>
    keyword == .type && fitFields .plain typeParams && type.fits .plain

/-- `Spec.fits` for several lines. -/
def fitSpecs (keyword : Keyword) : List Spec → Bool
  | [] => true
  | s :: ss => s.fits keyword && fitSpecs keyword ss

/-- Whether a statement may stand at a place, and so for all its parts. -/
def Stmt.fits (p : StmtPlace) : Stmt → Bool
  | .decl keyword specs => p == .plain && fitSpecs keyword specs
  | .empty => p == .plain
  | .labeled _ stmt => p == .plain && stmt.fits .plain
  | .expr x => p == .plain && x.fits .plain || p == .guard && x.fits .subject
  | .send chan value => p == .plain && chan.fits .plain && value.fits .plain
  | .incDec x op => p == .plain && x.fits .plain && (op == .inc || op == .dec)
  | .assign lhs op rhs =>
    fitExprs .plain lhs
      && (p == .plain && op.isAssignment && fitExprs .plain rhs
        || p == .guard && op == .define && rhs.length == 1 && fitExprs .subject rhs)
  | .go x => p == .plain && x.fits .plain
  | .defer x => p == .plain && x.fits .plain
  | .return_ results => p == .plain && fitExprs .plain results
  | .branch op label => p == .plain && op.isBranch label
  | .block body => (p == .plain || p == .otherwise) && fitStmts .plain body
  | .if_ init cond body otherwise =>
    (p == .plain || p == .otherwise) && fitStmt? .plain init && cond.fits .plain
      && fitStmts .plain body && fitStmt? .otherwise otherwise
  | .caseClause list body => p == .switchEntry && fitExprs .plain list && fitStmts .plain body
  | .switch init tag body =>
    p == .plain && fitStmt? .plain init && fitExpr? .plain tag && fitStmts .switchEntry body
  | .typeSwitch init assign body =>
    p == .plain && fitStmt? .plain init && assign.fits .guard && fitStmts .switchEntry body
  | .commClause comm body => p == .selectEntry && fitStmt? .plain comm && fitStmts .plain body
  | .select body => p == .plain && fitStmts .selectEntry body
  | .for_ init cond post body =>
    p == .plain && fitStmt? .plain init && fitExpr? .plain cond && fitStmt? .plain post
      && fitStmts .plain body
  | .range key value op x body =>
    p == .plain && fitExpr? .plain key && fitExpr? .plain value && op.isNone == key.isNone
      && (value.isNone || key.isSome) && op.all Operator.isPlainAssignment && x.fits .plain
      && fitStmts .plain body

/-- `Stmt.fits` for several statements. -/
def fitStmts (p : StmtPlace) : List Stmt → Bool
  | [] => true
  | s :: ss => s.fits p && fitStmts p ss

/-- `Stmt.fits` for a statement that may be absent. -/
def fitStmt? (p : StmtPlace) : Option Stmt → Bool
  | none => true
  | some s => s.fits p

end

/-! ### Files -/

/-- Whether all parts of a function are as they should be. -/
def FuncDecl.isWellShaped (f : FuncDecl) : Bool :=
  f.receivers.all (fitFields .parameter) && f.type.fits && f.body.all (fitStmts .plain)

/-- Whether all parts of a declaration are as they should be. -/
def Decl.isWellShaped : Decl → Bool
  | general keyword specs => fitSpecs keyword specs
  | func f => f.isWellShaped

/-- Whether all parts of a file are as they should be. -/
def File.isWellShaped (file : File) : Bool := file.decls.all Decl.isWellShaped

/-! ### Lists -/

@[simp] theorem fitExprs_eq_all (p : ExprPlace) (xs : List Expr) :
    fitExprs p xs = xs.all (Expr.fits p) := by
  induction xs with
  | nil => simp [fitExprs]
  | cons x xs ih => simp [fitExprs, ih]

@[simp] theorem fitFields_eq_all (p : ExprPlace) (fs : List Field) :
    fitFields p fs = fs.all (Field.fits p) := by
  induction fs with
  | nil => simp [fitFields]
  | cons f fs ih => simp [fitFields, ih]

@[simp] theorem fitSpecs_eq_all (keyword : Keyword) (ss : List Spec) :
    fitSpecs keyword ss = ss.all (Spec.fits keyword) := by
  induction ss with
  | nil => simp [fitSpecs]
  | cons s ss ih => simp [fitSpecs, ih]

@[simp] theorem fitStmts_eq_all (p : StmtPlace) (ss : List Stmt) :
    fitStmts p ss = ss.all (Stmt.fits p) := by
  induction ss with
  | nil => simp [fitStmts]
  | cons s ss ih => simp [fitStmts, ih]

@[simp] theorem fitExpr?_eq_all (p : ExprPlace) (x : Option Expr) :
    fitExpr? p x = x.all (Expr.fits p) := by
  cases x <;> simp [fitExpr?]

@[simp] theorem fitStmt?_eq_all (p : StmtPlace) (s : Option Stmt) :
    fitStmt? p s = s.all (Stmt.fits p) := by
  cases s <;> simp [fitStmt?]

/-! ### Moving to another place -/

/-- What may stand anywhere may stand at any place but the subject of a type switch. -/
theorem Expr.fits_of_plain {x : Expr} {p : ExprPlace} (hx : x.fits .plain) (hp : p ≠ .subject) :
    x.fits p := by
  fun_cases Expr.fits p x <;> simp_all [Expr.fits]

/-- The key or the value of an element may be an element itself. -/
theorem Expr.fits_of_entry {x : Expr} (hx : x.fits .entry) : x.fits .element := by
  fun_cases Expr.fits .entry x <;> simp_all [Expr.fits]

end GoOutline.Syntax
