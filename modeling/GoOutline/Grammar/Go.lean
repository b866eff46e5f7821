import GoOutline.Grammar.Rule

/-!
# The grammar of Go source files

`RuleName.body` gives the right-hand side of every rule. The grammar is wider than the language: it
admits statements at the top level and any expression on the left of an assignment. A line break
ends a declaration or a statement, and is white space everywhere else.
-/

namespace GoOutline.Grammar

open Rule

/-! ### Parts without a rule of their own -/

/-- What ends a declaration or a statement. -/
def terminator : Rule := oneOf [token .lineBreak, token .semicolon, token .nul]

/-- An identifier that names a type. -/
def typeIdentifier : Rule := role .type (token .identifier)

/-- An identifier that names a field or a method. -/
def fieldIdentifier : Rule := role .field (token .identifier)

/-- An identifier that names a package. -/
def packageIdentifier : Rule := role .package (token .identifier)

/-- An identifier that names a label. -/
def labelName : Rule := role .label (token .identifier)

/-- A string in either notation. -/
def stringLiteral : Rule := oneOf [rule .rawStringLiteral, rule .interpretedStringLiteral]

/-- Any type. -/
def anyType : Rule := oneOf [rule .simpleType, rule .parenthesizedType]

/-- What a file may hold besides statements. -/
def topLevelDeclaration : Rule :=
  oneOf [rule .packageClause, rule .functionDeclaration, rule .methodDeclaration,
    rule .importDeclaration]

/-- The result of a signature: a list of parameters or one type. -/
def resultType : Rule := field .result (opt (oneOf [rule .parameterList, rule .simpleType]))

/-- A statement before the condition of an `if` or the value of a `switch`. -/
def initializer : Rule :=
  opt (chain [field .initializer (rule .simpleStatement), token .semicolon])

/-- Elements separated by terminators, perhaps with one after the last. -/
def terminated (r : Rule) : Rule := sepTrailing r terminator

/-- The built-in functions whose first argument is a type. -/
def allocator : Rule := oneOf [token .new, token .make]

/-! ### Operators -/

/-- Precedence of selectors, calls and indexing. -/
def primaryRank : Int := 7

/-- Precedence of unary operators. -/
def unaryRank : Int := 6

/-- Precedence of composite literals, below that of any expression. -/
def compositeRank : Int := -1

/-- Operators that bind like a product. -/
def multiplicative : List Terminal := [.star, .slash, .percent, .shl, .shr, .amp, .ampCaret]

/-- Operators that bind like a sum. -/
def additive : List Terminal := [.plus, .minus, .bar, .caret]

/-- Operators that compare. -/
def comparative : List Terminal := [.eq, .ne, .lt, .le, .gt, .ge]

/-- The assignment operators. -/
def assignmentOperators : List Terminal :=
  [.starAssign, .slashAssign, .percentAssign, .shlAssign, .shrAssign, .ampAssign, .ampCaretAssign,
    .plusAssign, .minusAssign, .barAssign, .caretAssign, .assign]

/-- A binary expression over one class of operators. -/
def binary (p : Int) (operators : List Terminal) : Rule :=
  Rule.left p <| chain [field .left (rule .expression),
    field .operator (oneOf (operators.map token)), field .right (rule .expression)]

/-! ### The rules -/

/-- The right-hand side of each rule. -/
def RuleName.body : RuleName → Rule
  | .sourceFile => chain [
      many (oneOf [seq (rule .statement) terminator, seq topLevelDeclaration terminator]),
      opt topLevelDeclaration]
  | .packageClause => chain [token .package, packageIdentifier]
  | .importDeclaration => chain [token .import_, oneOf [rule .importSpec, rule .importSpecList]]
  | .importSpec => chain [
      opt (field .name (oneOf [rule .dot, token .blank, packageIdentifier])),
      field .path stringLiteral]
  | .dot => token .dot
  | .importSpecList => chain [token .lparen, terminated (rule .importSpec), token .rparen]
  | .declaration => oneOf [rule .constDeclaration, rule .typeDeclaration, rule .varDeclaration]
  | .constDeclaration => chain [token .const,
      oneOf [rule .constSpec,
        chain [token .lparen, many (seq (rule .constSpec) terminator), token .rparen]]]
  | .constSpec => Rule.left 0 <| chain [
      field .name (commas1 (token .identifier)),
      opt (chain [opt (field .type anyType), token .assign, field .value (rule .expressionList)])]
  | .varDeclaration => chain [token .var, oneOf [rule .varSpec, rule .varSpecList]]
  | .varSpec => chain [
      commas1 (field .name (token .identifier)),
      oneOf [
        chain [field .type anyType,
          opt (chain [token .assign, field .value (rule .expressionList)])],
        chain [token .assign, field .value (rule .expressionList)]]]
  | .varSpecList => chain [
      token .lparen, many (seq (rule .varSpec) terminator), token .rparen]
  | .functionDeclaration => Rule.right 1 <| chain [
      token .func,
      field .name (token .identifier),
      field .typeParameters (opt (rule .typeParameterList)),
      field .parameters (rule .parameterList),
      resultType,
      field .body (opt (rule .block))]
  | .methodDeclaration => Rule.right 1 <| chain [
      token .func,
      field .receiver (rule .parameterList),
      field .name fieldIdentifier,
      field .parameters (rule .parameterList),
      resultType,
      field .body (opt (rule .block))]
  | .typeParameterList => chain [
      token .lbrack, commas1 (rule .typeParameterDeclaration), opt (token .comma), token .rbrack]
  | .typeParameterDeclaration => chain [
      commas1 (field .name (token .identifier)), field .type (rule .typeElem)]
  | .parameterList => chain [
      token .lparen,
      opt (chain [
        commas (oneOf [rule .parameterDeclaration, rule .variadicParameterDeclaration]),
        opt (token .comma)]),
      token .rparen]
  | .parameterDeclaration => chain [
      commas (field .name (token .identifier)), field .type anyType]
  | .variadicParameterDeclaration => chain [
      field .name (opt (token .identifier)), token .ellipsis, field .type anyType]
  | .typeAlias => chain [
      field .name typeIdentifier, field .typeParameters (opt (rule .typeParameterList)),
      token .assign, field .type anyType]
  | .typeDeclaration => chain [token .type,
      oneOf [rule .typeSpec, rule .typeAlias,
        chain [token .lparen, terminated (oneOf [rule .typeSpec, rule .typeAlias]), token .rparen]]]
  | .typeSpec => chain [
      field .name typeIdentifier, field .typeParameters (opt (rule .typeParameterList)),
      field .type anyType]
  | .expressionList => commas1 (rule .expression)
  | .parenthesizedType => chain [token .lparen, anyType, token .rparen]
  | .simpleType => oneOf [
      dynamic (-1) typeIdentifier, rule .genericType, rule .qualifiedType, rule .pointerType,
      rule .structType, rule .interfaceType, rule .arrayType, rule .sliceType,
      dynamic 3 (rule .mapType), rule .channelType, rule .functionType, rule .negatedType]
  | .genericType => dynamic 1 <| chain [
      field .type (oneOf [typeIdentifier, rule .qualifiedType, rule .negatedType]),
      field .typeArguments (rule .typeArguments)]
  | .typeArguments => dynamic 2 <| chain [
      token .lbrack, commas1 (rule .typeElem), opt (token .comma), token .rbrack]
  | .pointerType => rank unaryRank <| chain [token .star, anyType]
  | .arrayType => Rule.right 0 <| chain [
      token .lbrack, field .length (rule .expression), token .rbrack, field .element anyType]
  | .implicitLengthArrayType => chain [
      token .lbrack, token .ellipsis, token .rbrack, field .element anyType]
  | .sliceType => Rule.right 0 <| chain [
      token .lbrack, token .rbrack, field .element anyType]
  | .structType => chain [token .struct, rule .fieldDeclarationList]
  | .negatedType => Rule.left 0 <| chain [token .tilde, anyType]
  | .fieldDeclarationList => chain [
      token .lbrace, terminated (rule .fieldDeclaration), token .rbrace]
  | .fieldDeclaration => chain [
      oneOf [
        chain [commas1 (field .name fieldIdentifier), field .type anyType],
        chain [opt (token .star),
          field .type (oneOf [typeIdentifier, rule .qualifiedType, rule .genericType])]],
      field .tag (opt stringLiteral)]
  | .interfaceType => chain [token .interface, token .lbrace,
      terminated (oneOf [rule .methodElem, rule .typeElem]), token .rbrace]
  | .methodElem => chain [
      field .name fieldIdentifier, field .parameters (rule .parameterList), resultType]
  | .typeElem => sep1 anyType (token .bar)
  | .mapType => Rule.right 0 <| chain [
      token .map, token .lbrack, field .key anyType, token .rbrack, field .value anyType]
  | .channelType => Rule.left 0 <| oneOf [
      chain [token .chan, field .value anyType],
      chain [token .chan, token .arrow, field .value anyType],
      rank unaryRank <| chain [token .arrow, token .chan, field .value anyType]]
  | .functionType => Rule.right 0 <| chain [
      token .func, field .parameters (rule .parameterList), resultType]
  | .block => chain [token .lbrace, opt (rule .statementList), token .rbrace]
  | .statementList => oneOf [
      chain [rule .statement,
        many (seq terminator (rule .statement)),
        opt (seq terminator (opt (rule .emptyLabeledStatement)))],
      rule .emptyLabeledStatement]
  | .statement => oneOf [
      rule .declaration, rule .simpleStatement, rule .returnStatement, rule .goStatement,
      rule .deferStatement, rule .ifStatement, rule .forStatement,
      rule .expressionSwitchStatement, rule .typeSwitchStatement, rule .selectStatement,
      rule .labeledStatement, rule .fallthroughStatement, rule .breakStatement,
      rule .continueStatement, rule .gotoStatement, rule .block, rule .emptyStatement]
  | .emptyStatement => token .semicolon
  | .simpleStatement => oneOf [
      rule .expressionStatement, rule .sendStatement, rule .incStatement, rule .decStatement,
      rule .assignmentStatement, rule .shortVarDeclaration]
  | .expressionStatement => rule .expression
  | .sendStatement => chain [
      field .channel (rule .expression), token .arrow, field .value (rule .expression)]
  | .receiveStatement => chain [
      opt (chain [field .left (rule .expressionList), oneOf [token .assign, token .define]]),
      field .right (rule .expression)]
  | .incStatement => chain [rule .expression, token .inc]
  | .decStatement => chain [rule .expression, token .dec]
  | .assignmentStatement => chain [
      field .left (rule .expressionList),
      field .operator (oneOf (assignmentOperators.map token)),
      field .right (rule .expressionList)]
  | .shortVarDeclaration => chain [
      field .left (rule .expressionList), token .define, field .right (rule .expressionList)]
  | .labeledStatement => chain [field .label labelName, token .colon, rule .statement]
  | .emptyLabeledStatement => chain [field .label labelName, token .colon]
  | .fallthroughStatement => Rule.left 0 <| token .fallthrough
  | .breakStatement => chain [token .break_, opt labelName]
  | .continueStatement => chain [token .continue_, opt labelName]
  | .gotoStatement => chain [token .goto, labelName]
  | .returnStatement => chain [token .return_, opt (rule .expressionList)]
  | .goStatement => chain [token .go, rule .expression]
  | .deferStatement => chain [token .defer, rule .expression]
  | .ifStatement => chain [
      token .if_, initializer, field .condition (rule .expression),
      field .consequence (rule .block),
      opt (chain [token .else_, field .alternative (oneOf [rule .block, rule .ifStatement])])]
  | .forStatement => chain [
      token .for_, opt (oneOf [rule .expression, rule .forClause, rule .rangeClause]),
      field .body (rule .block)]
  | .forClause => chain [
      field .initializer (opt (rule .simpleStatement)), token .semicolon,
      field .condition (opt (rule .expression)), token .semicolon,
      field .update (opt (rule .simpleStatement))]
  | .rangeClause => chain [
      opt (chain [field .left (rule .expressionList), oneOf [token .assign, token .define]]),
      token .range, field .right (rule .expression)]
  | .expressionSwitchStatement => chain [
      token .switch, initializer, field .value (opt (rule .expression)), token .lbrace,
      many (oneOf [rule .expressionCase, rule .defaultCase]), token .rbrace]
  | .expressionCase => chain [
      token .case, field .value (rule .expressionList), token .colon, opt (rule .statementList)]
  | .defaultCase => chain [token .default, token .colon, opt (rule .statementList)]
  | .typeSwitchStatement => chain [
      token .switch, rule .typeSwitchHeader, token .lbrace,
      many (oneOf [rule .typeCase, rule .defaultCase]), token .rbrace]
  | .typeSwitchHeader => chain [
      initializer, opt (chain [field .alias (rule .expressionList), token .define]),
      field .value (rule .expression), token .dot, token .lparen, token .type, token .rparen]
  | .typeCase => chain [
      token .case, field .type (commas1 anyType), token .colon, opt (rule .statementList)]
  | .selectStatement => chain [
      token .select, token .lbrace, many (oneOf [rule .communicationCase, rule .defaultCase]),
      token .rbrace]
  | .communicationCase => chain [
      token .case, field .communication (oneOf [rule .sendStatement, rule .receiveStatement]),
      token .colon, opt (rule .statementList)]
  | .expression => oneOf [
      rule .unaryExpression, rule .binaryExpression, rule .selectorExpression,
      rule .indexExpression, rule .sliceExpression, rule .callExpression,
      rule .typeAssertionExpression, rule .typeConversionExpression,
      rule .typeInstantiationExpression, token .identifier, allocator, rule .compositeLiteral,
      rule .funcLiteral, stringLiteral, token .intLiteral, token .floatLiteral,
      token .imaginaryLiteral, token .runeLiteral, token .nil, token .true_, token .false_,
      token .iota, rule .parenthesizedExpression]
  | .parenthesizedExpression => chain [token .lparen, rule .expression, token .rparen]
  | .callExpression => rank primaryRank <| oneOf [
      chain [field .function allocator, field .arguments (rule .specialArgumentList)],
      chain [field .function (rule .expression),
        field .typeArguments (opt (rule .typeArguments)),
        field .arguments (rule .argumentList)]]
  | .variadicArgument => Rule.right 0 <| chain [rule .expression, token .ellipsis]
  | .specialArgumentList => chain [
      token .lparen,
      opt (chain [anyType, many (seq (token .comma) (rule .expression)), opt (token .comma)]),
      token .rparen]
  | .argumentList => chain [
      token .lparen,
      opt (chain [commas1 (oneOf [rule .expression, rule .variadicArgument]), opt (token .comma)]),
      token .rparen]
  | .selectorExpression => rank primaryRank <| chain [
      field .operand (rule .expression), token .dot, field .field fieldIdentifier]
  | .indexExpression => rank primaryRank <| dynamic 1 <| chain [
      field .operand (rule .expression), token .lbrack, field .index (rule .expression),
      token .rbrack]
  | .sliceExpression => rank primaryRank <| chain [
      field .operand (rule .expression), token .lbrack,
      oneOf [
        chain [field .start (opt (rule .expression)), token .colon,
          field .end_ (opt (rule .expression))],
        chain [field .start (opt (rule .expression)), token .colon,
          field .end_ (rule .expression), token .colon, field .capacity (rule .expression)]],
      token .rbrack]
  | .typeAssertionExpression => rank primaryRank <| chain [
      field .operand (rule .expression), token .dot, token .lparen, field .type anyType,
      token .rparen]
  | .typeConversionExpression => dynamic (-1) <| chain [
      field .type anyType, token .lparen, field .operand (rule .expression), opt (token .comma),
      token .rparen]
  | .typeInstantiationExpression => dynamic (-1) <| chain [
      field .type anyType, token .lbrack, commas1 anyType, opt (token .comma), token .rbrack]
  | .compositeLiteral => rank compositeRank <| chain [
      field .type (oneOf [rule .mapType, rule .sliceType, rule .arrayType,
        rule .implicitLengthArrayType, rule .structType, typeIdentifier, rule .genericType,
        rule .qualifiedType]),
      field .body (rule .literalValue)]
  | .literalValue => chain [
      token .lbrace,
      opt (chain [commas (oneOf [rule .literalElement, rule .keyedElement]), opt (token .comma)]),
      token .rbrace]
  | .literalElement => oneOf [rule .expression, rule .literalValue]
  | .keyedElement => chain [
      field .key (rule .literalElement), token .colon, field .value (rule .literalElement)]
  | .funcLiteral => chain [
      token .func, field .parameters (rule .parameterList), resultType,
      field .body (rule .block)]
  | .unaryExpression => rank unaryRank <| chain [
      field .operator (oneOf ([.plus, .minus, .bang, .caret, .star, .amp, .arrow].map token)),
      field .operand (rule .expression)]
  | .binaryExpression => oneOf [
      binary 5 multiplicative, binary 4 additive, binary 3 comparative, binary 2 [.andAnd],
      binary 1 [.orOr]]
  | .qualifiedType => chain [
      field .package packageIdentifier, token .dot, field .name typeIdentifier]
  | .rawStringLiteral => chain [token .backquote, token .rawText, token .backquote]
  | .interpretedStringLiteral => chain [
      token .quote, many (oneOf [token .quotedText, token .escape]), token .closingQuote]

end GoOutline.Grammar
