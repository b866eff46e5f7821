/-!
# Symbols of the grammar

The vocabulary in which the grammar of Go source files is written.

* `Terminal`: the tokens, in the order in which the grammar first mentions them.
* `RuleName`: the names of the grammar's rules.
* `Field`: the part that a child plays in its parent (`left`, `body`, …).
* `Role`: what a plain identifier stands for at one place of the grammar.
-/

namespace GoOutline.Grammar

/-- The tokens of Go source text. The order of the constructors is the order in which the grammar
mentions them; it decides which of two tokens with one spelling is taken, and which token is tried
first when one is missing. -/
inductive Terminal where
  | lineBreak | semicolon | nul
  | package | import_ | dot | blank | lparen | rparen | const | comma | assign | var | func
  | lbrack | rbrack | ellipsis | type | star | struct | tilde | lbrace | rbrace | interface | bar
  | map | chan | arrow | define | inc | dec
  | starAssign | slashAssign | percentAssign | shlAssign | shrAssign | ampAssign | ampCaretAssign
  | plusAssign | minusAssign | barAssign | caretAssign
  | colon | fallthrough | break_ | continue_ | goto | return_ | go | defer | if_ | else_ | for_
  | range | switch | case | default | select | new | make
  | plus | minus | bang | caret | amp | slash | percent | shl | shr | ampCaret
  | eq | ne | lt | le | gt | ge | andAnd | orOr
  | identifier | backquote | rawText | quote | quotedText | closingQuote | escape
  | intLiteral | floatLiteral | imaginaryLiteral | runeLiteral | nil | true_ | false_ | iota
  | comment | endOfInput
deriving DecidableEq, Inhabited

/-- The rules of the grammar, in the order in which the grammar states them. -/
inductive RuleName where
  | sourceFile | packageClause | importDeclaration | importSpec | dot | importSpecList
  | declaration | constDeclaration | constSpec | varDeclaration | varSpec | varSpecList
  | functionDeclaration | methodDeclaration | typeParameterList | typeParameterDeclaration
  | parameterList | parameterDeclaration | variadicParameterDeclaration
  | typeAlias | typeDeclaration | typeSpec | expressionList
  | parenthesizedType | simpleType | genericType | typeArguments | pointerType | arrayType
  | implicitLengthArrayType | sliceType | structType | negatedType | fieldDeclarationList
  | fieldDeclaration | interfaceType | methodElem | typeElem | mapType | channelType
  | functionType | block | statementList | statement | emptyStatement | simpleStatement
  | expressionStatement | sendStatement | receiveStatement | incStatement | decStatement
  | assignmentStatement | shortVarDeclaration | labeledStatement | emptyLabeledStatement
  | fallthroughStatement | breakStatement | continueStatement | gotoStatement | returnStatement
  | goStatement | deferStatement | ifStatement | forStatement | forClause | rangeClause
  | expressionSwitchStatement | expressionCase | defaultCase | typeSwitchStatement
  | typeSwitchHeader | typeCase | selectStatement | communicationCase
  | expression | parenthesizedExpression | callExpression | variadicArgument
  | specialArgumentList | argumentList | selectorExpression | indexExpression | sliceExpression
  | typeAssertionExpression | typeConversionExpression | typeInstantiationExpression
  | compositeLiteral | literalValue | literalElement | keyedElement | funcLiteral
  | unaryExpression | binaryExpression | qualifiedType
  | rawStringLiteral | interpretedStringLiteral
deriving DecidableEq, Inhabited

/-- The part that a child plays in the node above it. -/
inductive Field where
  | name | path | type | value | typeParameters | parameters | result | body | receiver
  | typeArguments | length | element | tag | key | channel | left | right | operator | label
  | initializer | condition | consequence | alternative | update | alias | communication
  | function | arguments | operand | field | index | start | end_ | capacity | package
deriving DecidableEq, Inhabited

/-- What a plain identifier stands for where the grammar says so. -/
inductive Role where
  | type | field | package | label
deriving DecidableEq, Inhabited

/-! ### Enumeration -/

/-- All tokens, the end of the input last. -/
def Terminal.all : List Terminal := (List.range 95).map Terminal.ofNat

/-- All rules. -/
def RuleName.all : List RuleName := (List.range 96).map RuleName.ofNat

/-- Number of tokens, the end of the input included. -/
def Terminal.count : Nat := 95

/-- Number of rules. -/
def RuleName.count : Nat := 96

/-! ### Spelling -/

/-- The spelling of a token that has only one. -/
def Terminal.spelling? : Terminal → Option String
  | .semicolon => ";" | .nul => "\x00" | .package => "package" | .import_ => "import"
  | .dot => "." | .blank => "_" | .lparen => "(" | .rparen => ")" | .const => "const"
  | .comma => "," | .assign => "=" | .var => "var" | .func => "func" | .lbrack => "["
  | .rbrack => "]" | .ellipsis => "..." | .type => "type" | .star => "*" | .struct => "struct"
  | .tilde => "~" | .lbrace => "\x7b" | .rbrace => "\x7d" | .interface => "interface" | .bar => "|"
  | .map => "map" | .chan => "chan" | .arrow => "<-" | .define => ":=" | .inc => "++"
  | .dec => "--" | .starAssign => "*=" | .slashAssign => "/=" | .percentAssign => "%="
  | .shlAssign => "<<=" | .shrAssign => ">>=" | .ampAssign => "&=" | .ampCaretAssign => "&^="
  | .plusAssign => "+=" | .minusAssign => "-=" | .barAssign => "|=" | .caretAssign => "^="
  | .colon => ":" | .fallthrough => "fallthrough" | .break_ => "break" | .continue_ => "continue"
  | .goto => "goto" | .return_ => "return" | .go => "go" | .defer => "defer" | .if_ => "if"
  | .else_ => "else" | .for_ => "for" | .range => "range" | .switch => "switch"
  | .case => "case" | .default => "default" | .select => "select" | .new => "new"
  | .make => "make" | .plus => "+" | .minus => "-" | .bang => "!" | .caret => "^" | .amp => "&"
  | .slash => "/" | .percent => "%" | .shl => "<<" | .shr => ">>" | .ampCaret => "&^"
  | .eq => "==" | .ne => "!=" | .lt => "<" | .le => "<=" | .gt => ">" | .ge => ">="
  | .andAnd => "&&" | .orOr => "||" | .backquote => "`" | .quote => "\"" | .closingQuote => "\""
  | .nil => "nil" | .true_ => "true" | .false_ => "false" | .iota => "iota"
  | _ => none

/-- The words that the grammar spells out. -/
def Terminal.isWord : Terminal → Bool
  | .package | .import_ | .blank | .const | .var | .func | .type | .struct | .interface | .map
  | .chan | .fallthrough | .break_ | .continue_ | .goto | .return_ | .go | .defer | .if_ | .else_
  | .for_ | .range | .switch | .case | .default | .select | .new | .make | .nil | .true_ | .false_
  | .iota => true
  | _ => false

/-- The words that never serve as identifiers. -/
def Terminal.isReserved : Terminal → Bool
  | .break_ | .default | .func | .interface | .select | .case | .defer | .go | .map | .struct
  | .chan | .else_ | .goto | .package | .switch | .const | .fallthrough | .if_ | .range | .type
  | .continue_ | .for_ | .import_ | .return_ | .var => true
  | _ => false

/-- Place of a token among all symbols when two trees are compared: the end of the input comes
first, then the identifier, then the other tokens in their order. -/
def Terminal.rank (t : Terminal) : Nat :=
  match t with
  | .endOfInput => 0
  | .identifier => 1
  | t => if t.ctorIdx < Terminal.identifier.ctorIdx then t.ctorIdx + 2 else t.ctorIdx + 1

/-! ### Names of tokens -/

/-- The name of the kind of a token that is not just its spelling, where it plays the given role. -/
def Terminal.kindName? (t : Terminal) (role : Option Role) : Option String :=
  match t with
  | .identifier => match role with
    | none => "identifier"
    | some .type => "type_identifier"
    | some .field => "field_identifier"
    | some .package => "package_identifier"
    | some .label => "label_name"
  | .new | .make => "identifier"
  | .blank => "blank_identifier"
  | .rawText => "raw_string_literal_content"
  | .quotedText => "interpreted_string_literal_content"
  | .escape => "escape_sequence"
  | .intLiteral => "int_literal"
  | .floatLiteral => "float_literal"
  | .imaginaryLiteral => "imaginary_literal"
  | .runeLiteral => "rune_literal"
  | .nil => "nil"
  | .true_ => "true"
  | .false_ => "false"
  | .iota => "iota"
  | .comment => "comment"
  | _ => none

/-- Whether a token has a name of its own. -/
def Terminal.isNamed (t : Terminal) : Bool := (t.kindName? none).isSome

/-! ### Rules that leave no node -/

/-- A hidden rule groups alternatives; its node is replaced by its children. -/
def RuleName.isHidden : RuleName → Bool
  | .declaration | .simpleType | .statement | .simpleStatement | .typeSwitchHeader
  | .expression => true
  | _ => false

/-- The hidden rules that stand for a family of node kinds. -/
def RuleName.isFamily : RuleName → Bool
  | .simpleType | .statement | .simpleStatement | .expression => true
  | _ => false

end GoOutline.Grammar
