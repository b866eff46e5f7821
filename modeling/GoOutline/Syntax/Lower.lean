import GoOutline.Syntax.Fragment

/-!
# From concrete to typed syntax

How each rule of the grammar contributes to the typed syntax tree.

* `ofLeaf`: what a token contributes.
* `ofRule?`: what a node contributes, given the contributions of its children. There is no answer if
  the children are not of the sorts that the rule asks for.
* `Node.lower?`: the contribution of a whole node.

Types and expressions become one kind of tree: a qualified type is a selector, an instantiated type
an index, a conversion a call, and the union of types a chain of `|`.
-/

namespace GoOutline.Syntax

open GoOutline.Grammar (Terminal RuleName)

/-! ### Leaves -/

/-- What a leaf contributes: names and literals are expressions, comments nothing that counts, and
other tokens mark a place. -/
def ofLeaf (kind : Kind) (text : String) : Fragment :=
  match kind with
  | .rule _ => .expr (.basicLit .string text)
  | .token t _ =>
    match t with
    | .identifier | .blank | .nil | .true_ | .false_ | .iota | .new | .make => .expr (.ident text)
    | .intLiteral => .expr (.basicLit .int text)
    | .floatLiteral => .expr (.basicLit .float text)
    | .imaginaryLiteral => .expr (.basicLit .imaginary text)
    | .runeLiteral => .expr (.basicLit .char text)
    | .comment => .comment
    | t => .mark t

/-! ### Parts of several rules -/

/-- A generic type or function with its arguments: one makes an index, several a list of indices. -/
def instantiate (x : Expr) (args : List Expr) : Expr :=
  match args with
  | [arg] => .index x arg
  | args => .indexList x args

/-- The signature of a function: its parameters, and its results or its one result type. -/
def signature? (ps : Parts) : Option FuncType := do
  let params ← ps.get? .parameters Fragment.params?
  let results ← ps.optional? .result Fragment.results?
  return .mk [] params (results.getD [])

/-- The statements of a clause. -/
def clauseBody? (ps : Parts) : Option (List Stmt) :=
  match ps.others with
  | [] => some []
  | [p] => p.stmts?
  | _ => none

/-- `=` or `:=`, whichever stands among the marks. -/
def assignment (ps : Parts) : Operator := if ps.marks.contains .define then .define else .assign

/-- A branch statement with its label. -/
def branch? (op : Operator) (ps : Parts) : Option Fragment :=
  match ps.named with
  | [] => some (.stmt (.branch op none))
  | [label] => label.name?.map fun name => .stmt (.branch op (some name))
  | _ => none

/-- The lines of a general declaration, grouped or not. -/
def specs? (ps : Parts) : Option (List Spec) :=
  match ps.named with
  | [.specs ss] => some ss
  | lines => lines.mapM Fragment.spec?

/-! ### Expressions -/

/-- Arguments of a call; the call is spread if one of them is. -/
def args? (ps : Parts) : Option Fragment := do
  let xs ← ps.named.mapM Fragment.arg?
  return .args (xs.map (·.1)) (xs.any (·.2))

/-- A call: the function may be instantiated. -/
def call? (ps : Parts) : Option Fragment := do
  let fn ← ps.get? .function Fragment.expr?
  let types ← ps.optional? .typeArguments Fragment.typeArgs?
  let (args, isSpread) ← ps.get? .arguments Fragment.args?
  let fn := match types with
    | some ts => instantiate fn ts
    | none => fn
  return .expr (.call fn args isSpread)

/-- A unary expression: `*` follows a pointer. -/
def unary? (ps : Parts) : Option Fragment := do
  let op ← ps.get? .operator Fragment.operator?
  let x ← ps.get? .operand Fragment.expr?
  return .expr (if op = .mul then .star x else .unary op x)

/-- Types with bars between them, from the left. -/
def union? (ps : Parts) : Option Fragment := do
  let xs ← ps.named.mapM Fragment.expr?
  match xs with
  | [] => none
  | x :: more => return .expr (more.foldl (fun acc y => .binary acc .or y) x)

/-- The direction of a channel, by the order of its marks. -/
def direction (marks : List Terminal) : Direction :=
  match marks with
  | .arrow :: _ => .receive
  | .chan :: .arrow :: _ => .send
  | _ => .both

/-- What expressions and types contribute. -/
def ofExprRule? (n : RuleName) (ps : Parts) : Option Fragment :=
  match n with
  | .parenthesizedExpression | .parenthesizedType => do
    return .expr (.paren (← ps.only? Fragment.expr?))
  | .selectorExpression => do
    return .expr (.selector (← ps.get? .operand Fragment.expr?) (← ps.get? .field Fragment.name?))
  | .qualifiedType => do
    return .expr (.selector (.ident (← ps.get? .package Fragment.name?))
      (← ps.get? .name Fragment.name?))
  | .indexExpression => do
    return .expr (.index (← ps.get? .operand Fragment.expr?) (← ps.get? .index Fragment.expr?))
  | .sliceExpression => do
    return .expr (.slice (← ps.get? .operand Fragment.expr?) (← ps.optional? .start Fragment.expr?)
      (← ps.optional? .end_ Fragment.expr?) (← ps.optional? .capacity Fragment.expr?))
  | .typeAssertionExpression => do
    return .expr (.typeAssert (← ps.get? .operand Fragment.expr?)
      (some (← ps.get? .type Fragment.expr?)))
  | .callExpression => call? ps
  | .variadicArgument => do return .spread (← ps.only? Fragment.expr?)
  | .specialArgumentList | .argumentList => args? ps
  | .typeConversionExpression => do
    return .expr (.call (← ps.get? .type Fragment.expr?) [← ps.get? .operand Fragment.expr?] false)
  | .typeInstantiationExpression => do
    return .expr (instantiate (← ps.get? .type Fragment.expr?) (← ps.others.mapM Fragment.expr?))
  | .genericType => do
    return .expr (instantiate (← ps.get? .type Fragment.expr?)
      (← ps.get? .typeArguments Fragment.typeArgs?))
  | .typeArguments => do return .typeArgs (← ps.named.mapM Fragment.expr?)
  | .compositeLiteral => do
    return .expr (.compositeLit (some (← ps.get? .type Fragment.expr?))
      (← ps.get? .body Fragment.elements?))
  | .literalValue => do return .elements (← ps.named.mapM Fragment.element?)
  | .literalElement => do return .element (← ps.only? Fragment.entry?)
  | .keyedElement => do
    return .element (.keyValue (← ps.get? .key Fragment.element?)
      (← ps.get? .value Fragment.element?))
  | .funcLiteral => do
    return .expr (.funcLit (← signature? ps) (← ps.get? .body Fragment.block?))
  | .unaryExpression => unary? ps
  | .binaryExpression => do
    return .expr (.binary (← ps.get? .left Fragment.expr?) (← ps.get? .operator Fragment.operator?)
      (← ps.get? .right Fragment.expr?))
  | .expressionList => do return .exprs (← ps.named.mapM Fragment.expr?)
  | .pointerType => do return .expr (.star (← ps.only? Fragment.expr?))
  | .negatedType => do return .expr (.unary .tilde (← ps.only? Fragment.expr?))
  | .typeElem => union? ps
  | .sliceType => do return .expr (.arrayType none (← ps.get? .element Fragment.expr?))
  | .arrayType => do
    return .expr (.arrayType (some (← ps.get? .length Fragment.expr?))
      (← ps.get? .element Fragment.expr?))
  | .implicitLengthArrayType => do
    return .expr (.arrayType (some (.ellipsis none)) (← ps.get? .element Fragment.expr?))
  | .mapType => do
    return .expr (.mapType (← ps.get? .key Fragment.expr?) (← ps.get? .value Fragment.expr?))
  | .channelType => do
    return .expr (.chanType (direction ps.marks) (← ps.get? .value Fragment.expr?))
  | .functionType => do return .expr (.funcType (← signature? ps))
  | .structType => do return .expr (.structType (← ps.only? Fragment.members?))
  | .interfaceType => do
    return .expr (.interfaceType (← ps.named.mapM Fragment.interfaceElement?))
  | _ => none

/-! ### Declarations -/

/-- What declarations and their parts contribute. -/
def ofDeclRule? (n : RuleName) (ps : Parts) : Option Fragment :=
  match n with
  | .packageClause => do return .package (← ps.only? Fragment.name?)
  | .dot => some (.expr (.ident "."))
  | .importSpec => do
    return .importSpec ⟨← ps.optional? .name Fragment.name?, ← ps.get? .path Fragment.literal?⟩
  | .importSpecList => do return .importSpecs (← ps.named.mapM Fragment.importSpec?)
  | .importDeclaration => do return .imports (← ps.only? Fragment.imports?)
  | .constSpec | .varSpec => do
    return .valueSpec (← ps.all? .name Fragment.name?) (← ps.optional? .type Fragment.expr?)
      ((← ps.optional? .value Fragment.exprs?).getD [])
  | .varSpecList => do return .specs (← ps.named.mapM Fragment.spec?)
  | .typeSpec | .typeAlias => do
    return .typeSpec (← ps.get? .name Fragment.name?)
      ((← ps.optional? .typeParameters Fragment.typeParams?).getD []) (n = .typeAlias)
      (← ps.get? .type Fragment.expr?)
  | .constDeclaration => do return .decl .const (← specs? ps)
  | .varDeclaration => do return .decl .var (← specs? ps)
  | .typeDeclaration => do return .decl .type (← specs? ps)
  | .functionDeclaration | .methodDeclaration => do
    let receivers ← ps.optional? .receiver Fragment.params?
    let name ← ps.get? .name Fragment.name?
    let typeParams ← ps.optional? .typeParameters Fragment.typeParams?
    let type ← signature? ps
    let body ← ps.optional? .body Fragment.block?
    return .func ⟨receivers, name, .mk (typeParams.getD []) type.params type.results, body⟩
  | .typeParameterList => do return .typeParams (← ps.named.mapM Fragment.typeParam?)
  | .typeParameterDeclaration => do
    return .typeParam (.mk (← ps.all? .name Fragment.name?) (← ps.get? .type Fragment.expr?) none)
  | .parameterList => do return .params (← ps.named.mapM Fragment.param?)
  | .parameterDeclaration => do
    return .param (.mk (← ps.all? .name Fragment.name?) (← ps.get? .type Fragment.expr?) none)
  | .variadicParameterDeclaration => do
    return .param (.mk (← ps.all? .name Fragment.name?)
      (.ellipsis (some (← ps.get? .type Fragment.expr?))) none)
  | .fieldDeclarationList => do return .members (← ps.named.mapM Fragment.member?)
  | .fieldDeclaration => do
    let names ← ps.all? .name Fragment.name?
    let type ← ps.get? .type Fragment.expr?
    let tag ← ps.optional? .tag Fragment.literal?
    let isPointer := names.isEmpty && ps.marks.contains .star
    return .member (.mk names (if isPointer then .star type else type) tag)
  | .methodElem => do
    return .method (.mk [← ps.get? .name Fragment.name?] (.funcType (← signature? ps)) none)
  | _ => none

/-! ### Statements -/

/-- A `for` statement: with a clause, with a condition, or without end. -/
def for? (ps : Parts) : Option Fragment := do
  let body ← ps.get? .body Fragment.block?
  match ps.others with
  | [] => return .stmt (.for_ none none none body)
  | [.forClause init cond post] => return .stmt (.for_ init cond post body)
  | [.rangeClause key value op x] => return .stmt (.range key value op x body)
  | [.expr x] => return .stmt (.for_ none (some x) none body)
  | _ => none

/-- The clause of a `for` statement over a range. Only the first two names count. -/
def range? (ps : Parts) : Option Fragment := do
  let left ← ps.optional? .left Fragment.exprs?
  let x ← ps.get? .right Fragment.expr?
  match left with
  | none => return .rangeClause none none none x
  | some xs => return .rangeClause xs[0]? xs[1]? (some (assignment ps)) x

/-- A communication that receives. -/
def receive? (ps : Parts) : Option Fragment := do
  let x ← ps.get? .right Fragment.expr?
  match ← ps.optional? .left Fragment.exprs? with
  | none => return .stmt (.expr x)
  | some xs => return .stmt (.assign xs (assignment ps) [x])

/-- A type switch: its subject may be bound to a name. -/
def typeSwitch? (ps : Parts) : Option Fragment := do
  let init ← ps.optional? .initializer Fragment.stmt?
  let x ← ps.get? .value Fragment.expr?
  let subject : Expr := .typeAssert x none
  let assign ← match ← ps.optional? .alias Fragment.exprs? with
    | none => some (.expr subject)
    | some xs => some (.assign xs .define [subject])
  return .stmt (.typeSwitch init assign (← ps.others.mapM Fragment.typeSwitchEntry?))

/-- What statements and their parts contribute. -/
def ofStmtRule? (n : RuleName) (ps : Parts) : Option Fragment :=
  match n with
  | .block => match ps.named with
    | [] => some (.block [])
    | [p] => do return .block (← p.stmts?)
    | _ => none
  | .statementList => do return .stmts (← ps.named.mapM Fragment.stmt?)
  | .emptyStatement => some (.stmt .empty)
  | .expressionStatement => do return .stmt (.expr (← ps.only? Fragment.expr?))
  | .sendStatement => do
    return .stmt (.send (← ps.get? .channel Fragment.expr?) (← ps.get? .value Fragment.expr?))
  | .receiveStatement => receive? ps
  | .incStatement => do return .stmt (.incDec (← ps.only? Fragment.expr?) .inc)
  | .decStatement => do return .stmt (.incDec (← ps.only? Fragment.expr?) .dec)
  | .assignmentStatement => do
    return .stmt (.assign (← ps.get? .left Fragment.exprs?) (← ps.get? .operator Fragment.operator?)
      (← ps.get? .right Fragment.exprs?))
  | .shortVarDeclaration => do
    return .stmt (.assign (← ps.get? .left Fragment.exprs?) .define
      (← ps.get? .right Fragment.exprs?))
  | .labeledStatement | .emptyLabeledStatement => do
    let label ← ps.get? .label Fragment.name?
    match ps.others with
    | [] => return .stmt (.labeled label .empty)
    | [p] => return .stmt (.labeled label (← p.stmt?))
    | _ => none
  | .fallthroughStatement => some (.stmt (.branch .fallthrough none))
  | .breakStatement => branch? .break_ ps
  | .continueStatement => branch? .continue_ ps
  | .gotoStatement => do return .stmt (.branch .goto (some (← ps.only? Fragment.name?)))
  | .returnStatement => match ps.named with
    | [] => some (.stmt (.return_ []))
    | [p] => do return .stmt (.return_ (← p.exprs?))
    | _ => none
  | .goStatement => do return .stmt (.go (← ps.only? Fragment.expr?))
  | .deferStatement => do return .stmt (.defer (← ps.only? Fragment.expr?))
  | .ifStatement => do
    let otherwise ← ps.optional? .alternative Fragment.otherwise?
    return .stmt (.if_ (← ps.optional? .initializer Fragment.stmt?)
      (← ps.get? .condition Fragment.expr?) (← ps.get? .consequence Fragment.block?) otherwise)
  | .forStatement => for? ps
  | .forClause => do
    return .forClause (← ps.optional? .initializer Fragment.stmt?)
      (← ps.optional? .condition Fragment.expr?) (← ps.optional? .update Fragment.stmt?)
  | .rangeClause => range? ps
  | .expressionSwitchStatement => do
    return .stmt (.switch (← ps.optional? .initializer Fragment.stmt?)
      (← ps.optional? .value Fragment.expr?) (← ps.others.mapM Fragment.switchEntry?))
  | .expressionCase => do
    return .switchCase (← ps.get? .value Fragment.exprs?) (← clauseBody? ps)
  | .defaultCase => do return .defaultCase (← clauseBody? ps)
  | .typeSwitchStatement => typeSwitch? ps
  | .typeCase => do return .typeCase (← ps.all? .type Fragment.expr?) (← clauseBody? ps)
  | .selectStatement => do return .stmt (.select (← ps.others.mapM Fragment.selectEntry?))
  | .communicationCase => do
    return .commCase (← ps.get? .communication Fragment.stmt?) (← clauseBody? ps)
  | _ => none

/-! ### Whole nodes -/

/-- What a node contributes, given the contributions of its children. -/
def ofRule? (n : RuleName) (ps : Parts) : Option Fragment :=
  ofExprRule? n ps <|> ofDeclRule? n ps <|> ofStmtRule? n ps

/-- `ofRule?` where the children may have no contribution. -/
def ofChildren? (n : RuleName) (ps : List (Option Grammar.Field × Option Fragment)) :
    Option Fragment := do
  ofRule? n (← ps.mapM fun (field, p) => p.map (field, ·))

/-- The contribution of a whole node. -/
def Node.lower? (node : Node) : Option Fragment :=
  node.fold (fun kind text => some (ofLeaf kind text)) ofChildren?

end GoOutline.Syntax
