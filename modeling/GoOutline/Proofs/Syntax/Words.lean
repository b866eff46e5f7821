import GoOutline.Syntax.Fragment

/-!
# The words of a file

The words of a source text are its identifiers and its basic literals.

* `Expr.words`, `Stmt.words`, …, `File.words`: the words of a syntax tree, in source order.
* `Fragment.words`: the words that a node contributes.
* `Node.words`: the words of a node as it stands in the text.
* `Node.pruned`: the node without what is dropped, which is only the third and later operands on the
  left of a `range`.
-/

namespace GoOutline.Syntax

open GoOutline.Grammar (Terminal RuleName)

/-! ### Typed syntax -/

mutual

/-- The words of an expression. -/
def Expr.words : Expr → List String
  | .ident name => [name]
  | .basicLit _ value => [value]
  | .compositeLit type elements => exprWords? type ++ exprsWords elements
  | .funcLit type body => type.words ++ stmtsWords body
  | .paren x => x.words
  | .selector x sel => x.words ++ [sel]
  | .index x i => x.words ++ i.words
  | .indexList x indices => x.words ++ exprsWords indices
  | .slice x low high max => x.words ++ exprWords? low ++ exprWords? high ++ exprWords? max
  | .typeAssert x type => x.words ++ exprWords? type
  | .call fn args _ => fn.words ++ exprsWords args
  | .star x => x.words
  | .unary _ x => x.words
  | .binary x _ y => x.words ++ y.words
  | .keyValue key value => key.words ++ value.words
  | .arrayType length element => exprWords? length ++ element.words
  | .structType fields => fieldsWords fields
  | .funcType type => type.words
  | .interfaceType elements => fieldsWords elements
  | .mapType key value => key.words ++ value.words
  | .chanType _ value => value.words
  | .ellipsis element => exprWords? element

/-- The words of several expressions. -/
def exprsWords : List Expr → List String
  | [] => []
  | x :: xs => x.words ++ exprsWords xs

/-- The words of an expression that may be absent. -/
def exprWords? : Option Expr → List String
  | none => []
  | some x => x.words

/-- The words of a field: its names, its type and its tag. -/
def Field.words : Field → List String
  | .mk names type tag => names ++ type.words ++ tag.toList

/-- The words of several fields. -/
def fieldsWords : List Field → List String
  | [] => []
  | f :: fs => f.words ++ fieldsWords fs

/-- The words of a signature. -/
def FuncType.words : FuncType → List String
  | .mk typeParams params results =>
    fieldsWords typeParams ++ fieldsWords params ++ fieldsWords results

/-- The words of a line of a declaration. -/
def Spec.words : Spec → List String
  | .value names type values => names ++ exprWords? type ++ exprsWords values
  | .type name typeParams _ type => [name] ++ fieldsWords typeParams ++ type.words

/-- The words of several lines. -/
def specsWords : List Spec → List String
  | [] => []
  | s :: ss => s.words ++ specsWords ss

/-- The words of a statement. -/
def Stmt.words : Stmt → List String
  | .decl _ specs => specsWords specs
  | .empty => []
  | .labeled label stmt => [label] ++ stmt.words
  | .expr x => x.words
  | .send chan value => chan.words ++ value.words
  | .incDec x _ => x.words
  | .assign lhs _ rhs => exprsWords lhs ++ exprsWords rhs
  | .go x => x.words
  | .defer x => x.words
  | .return_ results => exprsWords results
  | .branch _ label => label.toList
  | .block body => stmtsWords body
  | .if_ init cond body otherwise =>
    stmtWords? init ++ cond.words ++ stmtsWords body ++ stmtWords? otherwise
  | .caseClause list body => exprsWords list ++ stmtsWords body
  | .switch init tag body => stmtWords? init ++ exprWords? tag ++ stmtsWords body
  | .typeSwitch init assign body => stmtWords? init ++ assign.words ++ stmtsWords body
  | .commClause comm body => stmtWords? comm ++ stmtsWords body
  | .select body => stmtsWords body
  | .for_ init cond post body =>
    stmtWords? init ++ exprWords? cond ++ stmtWords? post ++ stmtsWords body
  | .range key value _ x body =>
    exprWords? key ++ exprWords? value ++ x.words ++ stmtsWords body

/-- The words of several statements. -/
def stmtsWords : List Stmt → List String
  | [] => []
  | s :: ss => s.words ++ stmtsWords ss

/-- The words of a statement that may be absent. -/
def stmtWords? : Option Stmt → List String
  | none => []
  | some s => s.words

end

/-- The words of an import: its local name, if it has one, and its path. -/
def ImportSpec.words (i : ImportSpec) : List String := i.name.toList ++ [i.path]

/-- The words of a function: receivers, name, signature, body. -/
def FuncDecl.words (f : FuncDecl) : List String :=
  (f.receivers.getD []).flatMap Field.words ++ [f.name] ++ f.type.words
    ++ (f.body.getD []).flatMap Stmt.words

/-- The words of a declaration. -/
def Decl.words : Decl → List String
  | general _ specs => specs.flatMap Spec.words
  | func f => f.words

/-- The words of a file. -/
def File.words (file : File) : List String :=
  [file.package] ++ file.imports.flatMap ImportSpec.words ++ file.decls.flatMap Decl.words

@[simp] theorem exprsWords_eq_flatMap (xs : List Expr) :
    exprsWords xs = xs.flatMap Expr.words := by
  induction xs with
  | nil => rfl
  | cons x xs ih => rw [exprsWords, ih, List.flatMap_cons]

@[simp] theorem fieldsWords_eq_flatMap (fs : List Field) :
    fieldsWords fs = fs.flatMap Field.words := by
  induction fs with
  | nil => rfl
  | cons f fs ih => rw [fieldsWords, ih, List.flatMap_cons]

@[simp] theorem specsWords_eq_flatMap (ss : List Spec) :
    specsWords ss = ss.flatMap Spec.words := by
  induction ss with
  | nil => rfl
  | cons s ss ih => rw [specsWords, ih, List.flatMap_cons]

@[simp] theorem stmtsWords_eq_flatMap (ss : List Stmt) :
    stmtsWords ss = ss.flatMap Stmt.words := by
  induction ss with
  | nil => rfl
  | cons s ss ih => rw [stmtsWords, ih, List.flatMap_cons]

@[simp] theorem exprWords?_eq_elim (x : Option Expr) : exprWords? x = x.elim [] Expr.words := by
  cases x <;> rfl

@[simp] theorem stmtWords?_eq_elim (s : Option Stmt) : stmtWords? s = s.elim [] Stmt.words := by
  cases s <;> rfl

/-! ### Fragments -/

/-- The words that a node contributes. -/
def Fragment.words : Fragment → List String
  | mark _ | comment => []
  | expr x | spread x | element x => x.words
  | exprs xs | typeArgs xs | elements xs | args xs _ => xs.flatMap Expr.words
  | param f | typeParam f | member f | method f => f.words
  | params fs | typeParams fs | members fs => fs.flatMap Field.words
  | stmt s => s.words
  | stmts ss | block ss | defaultCase ss => ss.flatMap Stmt.words
  | switchCase list body | typeCase list body =>
    list.flatMap Expr.words ++ body.flatMap Stmt.words
  | commCase comm body => comm.words ++ body.flatMap Stmt.words
  | forClause init cond post => stmtWords? init ++ exprWords? cond ++ stmtWords? post
  | rangeClause key value _ x => exprWords? key ++ exprWords? value ++ x.words
  | valueSpec names type values => (Spec.value names type values).words
  | typeSpec name ps isAlias type => (Spec.type name ps isAlias type).words
  | specs ss | decl _ ss => ss.flatMap Spec.words
  | func f => f.words
  | importSpec i => i.words
  | importSpecs is | imports is => is.flatMap ImportSpec.words
  | package name => [name]

/-- The words of all parts of a node. -/
def Parts.words (ps : Parts) : List String := ps.flatMap (·.2.words)

@[simp] theorem Parts.words_nil : Parts.words [] = [] := rfl

@[simp] theorem Parts.words_cons (p : Option Grammar.Field × Fragment) (ps : Parts) :
    Parts.words (p :: ps) = p.2.words ++ Parts.words ps := rfl

@[simp] theorem Parts.words_append (ps qs : Parts) :
    Parts.words (ps ++ qs) = Parts.words ps ++ Parts.words qs :=
  List.flatMap_append

/-! ### Nodes -/

/-- Whether a token is an identifier or a literal. -/
def carriesText : Terminal → Bool
  | .identifier | .blank | .nil | .true_ | .false_ | .iota | .new | .make
  | .intLiteral | .floatLiteral | .imaginaryLiteral | .runeLiteral => true
  | _ => false

/-- Whether a leaf is an identifier or a literal. -/
def Kind.isWord : Kind → Bool
  | token t _ => carriesText t
  | rule n => isLiteral n

namespace Node

/-- The words of a node. `dot` is what the dot that stands for the name of an import adds. -/
def words (dot : List String) (node : Node) : List String :=
  node.fold (fun kind text => if kind.isWord then [text] else [])
    fun rule parts => (if rule = .dot then dot else []) ++ parts.flatMap (·.2)

/-- The operands on the left of a `range`: the first two, with the comma between them. -/
def firstTwo : Child → Child
  | (some .left, branch .expressionList operands) =>
    (some .left, branch .expressionList (operands.take 3))
  | c => c

/-- The node without the third and later operands on the left of a `range`. -/
def pruned (node : Node) : Node :=
  node.fold leaf fun rule children =>
    branch rule (if rule = .rangeClause then children.map firstTwo else children)

/-- Folding the children one by one. -/
theorem foldChildren_eq_map {α : Type} (f : Kind → String → α)
    (g : RuleName → List (Option Grammar.Field × α) → α) (cs : List Child) :
    foldChildren f g cs = cs.map fun c => (c.1, c.2.fold f g) := by
  induction cs with
  | nil => rfl
  | cons c cs ih => rw [foldChildren, ih, List.map_cons]

/-- A property of all nodes, from leaves and from what the children have. -/
theorem induction {P : Node → Prop} (leaf : ∀ kind text, P (leaf kind text))
    (branch : ∀ rule children, (∀ c ∈ children, P c.2) → P (branch rule children)) :
    ∀ node, P node
  | .leaf kind text => leaf kind text
  | .branch rule children =>
    branch rule children fun c _ => Node.induction leaf branch c.2
termination_by node => sizeOf node
decreasing_by
  have := List.sizeOf_lt_of_mem ‹_ ∈ children›
  cases c
  simp only [Node.branch.sizeOf_spec, Prod.mk.sizeOf_spec] at *
  omega

@[simp] theorem words_leaf (dot : List String) (kind : Kind) (text : String) :
    (leaf kind text).words dot = if kind.isWord then [text] else [] := rfl

theorem words_branch (dot : List String) (rule : RuleName) (children : List Child) :
    (branch rule children).words dot =
      (if rule = .dot then dot else []) ++ children.flatMap (·.2.words dot) := by
  rw [words, fold, foldChildren_eq_map]
  simp only [List.flatMap_map]
  rfl

@[simp] theorem pruned_leaf (kind : Kind) (text : String) :
    (leaf kind text).pruned = leaf kind text := rfl

theorem pruned_branch (rule : RuleName) (children : List Child) :
    (branch rule children).pruned =
      branch rule
        (if rule = .rangeClause then children.map fun c => firstTwo (c.1, c.2.pruned)
          else children.map fun c => (c.1, c.2.pruned)) := by
  rw [pruned, fold, foldChildren_eq_map, List.map_map]
  rfl

end Node

end GoOutline.Syntax
