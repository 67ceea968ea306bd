import GomegaLint.Syntax.Grammar.Basic

/-!
# The grammar of Go

The rules of Go as far as syntax alone tells.  Statements may stand at the top
level of a file beside declarations.

Some texts have several readings: a name can be a type or an expression, and
brackets behind it can hold type arguments, an index, the length of an array
or type parameters.  Weights settle these: type arguments weigh two, a type
that is a plain name and a conversion weigh minus one each, all else weighs
nothing.
-/

namespace GomegaLint

namespace Go

open Phrase

/-! ## Parts that many rules share -/

/-- What ends a statement, a specification or a field. -/
def terminator : Phrase := choice [terminal .newline, symbol ";", terminal .nul]

def identifier : Phrase := terminal .identifier

def typeIdentifier : Phrase := shown .typeIdentifier identifier

def fieldIdentifier : Phrase := shown .fieldIdentifier identifier

def packageIdentifier : Phrase := shown .packageIdentifier identifier

def labelName : Phrase := shown .labelName identifier

/-- The functions whose first argument is a type. -/
def allocator : Phrase := shown .identifier (choice [keyword "new", keyword "make"])

def stringLiteral : Phrase := choice [terminal .rawString, terminal .string]

def expression : Phrase := group .expression

def simpleType : Phrase := group .simpleType

def anyType : Phrase := choice [simpleType, node .parenthesizedType]

def parameters : Phrase := role .parameters (node .parameterList)

/-- What a function gives: a list or one type. -/
def result : Phrase :=
  role .result (optional (choice [node .parameterList, simpleType]))

/-- Items with terminators between them; one more may stand behind the last. -/
def lines (item : Phrase) : Phrase :=
  optional (seq [item, many (seq [terminator, item]), optional terminator])

/-- One specification, or several in parentheses, each with its terminator. -/
def specifications (spec : Phrase) : Phrase :=
  choice [spec, seq [symbol "(", many (seq [spec, terminator]), symbol ")"]]

/-- The statement before a semicolon in the header of another. -/
def initializer : Phrase :=
  optional (seq [role .initializer (group .simpleStatement), symbol ";"])

/-! ## Rules -/

/-- The only rule for a node. -/
def rule (k : Kind) (body : Phrase) : Nonterminal × List Clause := (.node k, [{ body }])

/-- The rules for a class of constructs. -/
def members (g : Group) (bodies : List Phrase) : Nonterminal × List Clause :=
  (.group g, bodies.map fun body => { body })

/-- Files and imports. -/
def files : Grammar.Rules :=
  let topLevel := choice [node .packageClause, node .functionDeclaration,
    node .methodDeclaration, node .importDeclaration]
  [rule .sourceFile (seq [
      many (choice [seq [group .statement, terminator], seq [topLevel, terminator]]),
      optional topLevel]),
   rule .packageClause (seq [keyword "package", packageIdentifier]),
   rule .importDeclaration
     (seq [keyword "import", choice [node .importSpec, node .importSpecList]]),
   rule .importSpec (seq [
      optional (role .name (choice [node .dot, keyword "_", packageIdentifier])),
      role .path stringLiteral]),
   rule .dot (symbol "."),
   rule .importSpecList (seq [symbol "(", lines (node .importSpec), symbol ")"])]

/-- Declarations. -/
def declarations : Grammar.Rules :=
  let values := role .value (node .expressionList)
  let names := role .name (commas identifier)
  let parameter := choice [node .parameterDeclaration, node .variadicParameterDeclaration]
  [members .declaration
     [node .constDeclaration, node .typeDeclaration, node .varDeclaration],
   rule .constDeclaration (seq [keyword "const", specifications (node .constSpec)]),
   (.node .constSpec, [{
      body := seq [names,
        optional (seq [optional (role .type anyType), symbol "=", values])]
      associativity := some .left }]),
   rule .varDeclaration (seq [keyword "var", specifications (node .varSpec)]),
   rule .varSpec (seq [names, choice [
      seq [role .type anyType, optional (seq [symbol "=", values])],
      seq [symbol "=", values]]]),
   (.node .functionDeclaration, [{
      body := seq [keyword "func", role .name identifier,
        role .typeParameters (optional (node .typeParameterList)), parameters, result,
        role .body (optional (node .block))]
      precedence := 1
      associativity := some .right }]),
   (.node .methodDeclaration, [{
      body := seq [keyword "func", role .receiver (node .parameterList),
        role .name fieldIdentifier, parameters, result, role .body (optional (node .block))]
      precedence := 1
      associativity := some .right }]),
   rule .typeParameterList (seq [symbol "[", commas (node .parameterDeclaration),
      optional (symbol ","), symbol "]"]),
   rule .parameterList (seq [symbol "(",
      optional (seq [optional (commas parameter), optional (symbol ",")]), symbol ")"]),
   (.node .parameterDeclaration, [{
      body := seq [optional (commas (role .name identifier)), role .type anyType]
      associativity := some .left }]),
   rule .variadicParameterDeclaration
     (seq [role .name (optional identifier), symbol "...", role .type anyType]),
   rule .typeAlias (seq [role .name typeIdentifier, symbol "=", role .type anyType]),
   rule .typeDeclaration (seq [keyword "type", choice [node .typeSpec, node .typeAlias,
      seq [symbol "(", many (seq [choice [node .typeSpec, node .typeAlias], terminator]),
        symbol ")"]]]),
   rule .typeSpec (seq [role .name typeIdentifier,
      role .typeParameters (optional (node .typeParameterList)), role .type anyType]),
   rule .expressionList (commas expression)]

/-- Types. -/
def types : Grammar.Rules :=
  let tag := role .tag (optional stringLiteral)
  [rule .parenthesizedType (seq [symbol "(", anyType, symbol ")"]),
   (.group .simpleType, { body := typeIdentifier, weight := -1 } ::
      [Kind.genericType, .qualifiedType, .pointerType, .structType, .interfaceType,
       .arrayType, .sliceType, .mapType, .channelType, .functionType, .unionType,
       .negatedType].map fun k => { body := node k }),
   rule .genericType (seq [
      role .type (choice [typeIdentifier, node .qualifiedType, node .unionType,
        node .negatedType]),
      role .typeArguments (node .typeArguments)]),
   (.node .typeArguments, [{
      body := seq [symbol "[", commas anyType, optional (symbol ","), symbol "]"]
      weight := 2 }]),
   (.node .pointerType, [{ body := seq [symbol "*", anyType], precedence := 6 }]),
   (.node .arrayType, [{
      body := seq [symbol "[", role .length expression, symbol "]", role .element anyType]
      associativity := some .right }]),
   rule .implicitLengthArrayType
     (seq [symbol "[", symbol "...", symbol "]", role .element anyType]),
   (.node .sliceType, [{
      body := seq [symbol "[", symbol "]", role .element anyType]
      associativity := some .right }]),
   rule .structType (seq [keyword "struct", node .fieldDeclarationList]),
   (.node .unionType, [{
      body := seq [anyType, symbol "|", anyType]
      associativity := some .left }]),
   (.node .negatedType, [{ body := seq [symbol "~", anyType], associativity := some .left }]),
   rule .fieldDeclarationList
     (seq [symbol "\x7b", lines (node .fieldDeclaration), symbol "\x7d"]),
   rule .fieldDeclaration (seq [
      choice [
        seq [commas (role .name fieldIdentifier), role .type anyType],
        seq [optional (symbol "*"),
          role .type (choice [typeIdentifier, node .qualifiedType, node .genericType])]],
      tag]),
   rule .interfaceType (seq [keyword "interface", symbol "\x7b",
      lines (group .interfaceBody), symbol "\x7d"]),
   members .interfaceBody
     [node .methodSpec, node .structElem, shown .constraintElem simpleType],
   rule .structElem (seq [node .structTerm, many (seq [symbol "|", node .structTerm])]),
   (.node .structTerm, [{
      body := seq [optional (choice [symbol "~", symbol "*"]), node .structType]
      precedence := 1 }]),
   rule .methodSpec (seq [role .name fieldIdentifier, parameters, result]),
   (.node .mapType, [{
      body := seq [keyword "map", symbol "[", role .key anyType, symbol "]",
        role .value anyType]
      associativity := some .right }]),
   (.node .channelType, [
      { body := seq [keyword "chan", role .value anyType], associativity := some .left },
      { body := seq [keyword "chan", symbol "<-", role .value anyType]
        associativity := some .left },
      { body := seq [symbol "<-", keyword "chan", role .value anyType]
        precedence := 6
        associativity := some .left }]),
   (.node .functionType, [{
      body := seq [keyword "func", parameters, result]
      associativity := some .right }])]

/-- Statements. -/
def statements : Grammar.Rules :=
  let emptyLabeled := part (.special .labeledStatement)
  let body := optional (group .statementList)
  let assignments := ["*=", "/=", "%=", "<<=", ">>=", "&=", "&^=", "+=", "-=", "|=", "^=", "="]
  let binds := choice [symbol "=", symbol ":="]
  [rule .block (seq [symbol "\x7b", body, symbol "\x7d"]),
   members .statementList
     [seq [group .statement, many (seq [terminator, group .statement]),
        optional (seq [terminator, optional emptyLabeled])],
      emptyLabeled],
   members .statement ([group .declaration, group .simpleStatement] ++
      [Kind.returnStatement, .goStatement, .deferStatement, .ifStatement, .forStatement,
       .expressionSwitchStatement, .typeSwitchStatement, .selectStatement,
       .labeledStatement, .fallthroughStatement, .breakStatement, .continueStatement,
       .gotoStatement, .block, .emptyStatement].map node),
   rule .emptyStatement (symbol ";"),
   members .simpleStatement ([Kind.expressionStatement, .sendStatement, .incStatement,
      .decStatement, .assignmentStatement, .shortVarDeclaration].map node),
   rule .expressionStatement expression,
   rule .sendStatement (seq [role .channel expression, symbol "<-", role .value expression]),
   rule .receiveStatement (seq [
      optional (seq [role .left (node .expressionList), binds]), role .right expression]),
   rule .incStatement (seq [expression, symbol "++"]),
   rule .decStatement (seq [expression, symbol "--"]),
   rule .assignmentStatement (seq [role .left (node .expressionList),
      role .operator (choice (assignments.map symbol)), role .right (node .expressionList)]),
   rule .shortVarDeclaration (seq [role .left (node .expressionList), symbol ":=",
      role .right (node .expressionList)]),
   rule .labeledStatement (seq [role .label labelName, symbol ":", group .statement]),
   (.special .labeledStatement, [{ body := seq [role .label labelName, symbol ":"] }]),
   (.node .fallthroughStatement, [{
      body := keyword "fallthrough", associativity := some .left }]),
   rule .breakStatement (seq [keyword "break", optional labelName]),
   rule .continueStatement (seq [keyword "continue", optional labelName]),
   rule .gotoStatement (seq [keyword "goto", labelName]),
   rule .returnStatement (seq [keyword "return", optional (node .expressionList)]),
   rule .goStatement (seq [keyword "go", expression]),
   rule .deferStatement (seq [keyword "defer", expression]),
   rule .ifStatement (seq [keyword "if", initializer, role .condition expression,
      role .consequence (node .block),
      optional (seq [keyword "else",
        role .alternative (choice [node .block, node .ifStatement])])]),
   rule .forStatement (seq [keyword "for",
      optional (choice [expression, node .forClause, node .rangeClause]),
      role .body (node .block)]),
   rule .forClause (seq [role .initializer (optional (group .simpleStatement)), symbol ";",
      role .condition (optional expression), symbol ";",
      role .update (optional (group .simpleStatement))]),
   rule .rangeClause (seq [optional (seq [role .left (node .expressionList), binds]),
      keyword "range", role .right expression]),
   rule .expressionSwitchStatement (seq [keyword "switch", initializer,
      role .value (optional expression), symbol "\x7b",
      many (choice [node .expressionCase, node .defaultCase]), symbol "\x7d"]),
   rule .expressionCase
     (seq [keyword "case", role .value (node .expressionList), symbol ":", body]),
   rule .defaultCase (seq [keyword "default", symbol ":", body]),
   rule .typeSwitchStatement (seq [keyword "switch", group .typeSwitchHeader, symbol "\x7b",
      many (choice [node .typeCase, node .defaultCase]), symbol "\x7d"]),
   members .typeSwitchHeader [seq [initializer,
      optional (seq [role .binding (node .expressionList), symbol ":="]),
      role .value expression, symbol ".", symbol "(", keyword "type", symbol ")"]],
   rule .typeCase (seq [keyword "case", role .type (commas anyType), symbol ":", body]),
   rule .selectStatement (seq [keyword "select", symbol "\x7b",
      many (choice [node .communicationCase, node .defaultCase]), symbol "\x7d"]),
   rule .communicationCase (seq [keyword "case",
      role .communication (choice [node .sendStatement, node .receiveStatement]),
      symbol ":", body])]

/-- The binary operators with their precedences. -/
def binaryOperators : List (Int × List String) :=
  [(5, ["*", "/", "%", "<<", ">>", "&", "&^"]), (4, ["+", "-", "|", "^"]),
   (3, ["==", "!=", "<", "<=", ">", ">="]), (2, ["&&"]), (1, ["||"])]

/-- Expressions. -/
def expressions : Grammar.Rules :=
  let primary (k : Kind) (bodies : List Phrase) : Nonterminal × List Clause :=
    (.node k, bodies.map fun body => { body, precedence := 7 })
  let operand := role .operand expression
  let argument := choice [expression, node .variadicArgument]
  let element := choice [node .literalElement, node .keyedElement]
  [members .expression ([Kind.unaryExpression, .binaryExpression, .selectorExpression,
        .indexExpression, .sliceExpression, .callExpression, .typeAssertionExpression,
        .typeConversionExpression].map node ++
      [identifier, allocator, node .compositeLiteral, node .funcLiteral, stringLiteral] ++
      [Terminal.int, .float, .imaginary, .rune, .keyword "nil", .keyword "true",
        .keyword "false", .keyword "iota"].map terminal ++
      [node .parenthesizedExpression]),
   rule .parenthesizedExpression (seq [symbol "(", expression, symbol ")"]),
   primary .callExpression [
      seq [role .function allocator, role .arguments (part (.special .argumentList))],
      seq [role .function expression, role .typeArguments (optional (node .typeArguments)),
        role .arguments (node .argumentList)]],
   (.node .variadicArgument, [{
      body := seq [expression, symbol "..."], associativity := some .right }]),
   (.special .argumentList, [{ body := seq [symbol "(", anyType,
      many (seq [symbol ",", expression]), optional (symbol ","), symbol ")"] }]),
   rule .argumentList (seq [symbol "(",
      optional (seq [argument, many (seq [symbol ",", argument]), optional (symbol ",")]),
      symbol ")"]),
   primary .selectorExpression [seq [operand, symbol ".", role .field fieldIdentifier]],
   primary .indexExpression
     [seq [operand, symbol "[", role .index expression, symbol "]"]],
   primary .sliceExpression [seq [operand, symbol "[",
      choice [
        seq [role .start (optional expression), symbol ":",
          role .stop (optional expression)],
        seq [role .start (optional expression), symbol ":", role .stop expression,
          symbol ":", role .capacity expression]],
      symbol "]"]],
   primary .typeAssertionExpression
     [seq [operand, symbol ".", symbol "(", role .type anyType, symbol ")"]],
   (.node .typeConversionExpression, [{
      body := seq [role .type anyType, symbol "(", operand, optional (symbol ","), symbol ")"]
      weight := -1 }]),
   (.node .compositeLiteral, [{
      body := seq [
        role .type (choice ([Kind.mapType, .sliceType, .arrayType, .implicitLengthArrayType,
          .structType].map node ++ [typeIdentifier, node .genericType, node .qualifiedType])),
        role .body (node .literalValue)]
      precedence := -1 }]),
   rule .literalValue (seq [symbol "\x7b",
      optional (seq [optional (commas element), optional (symbol ",")]), symbol "\x7d"]),
   (.node .literalElement, [{ body := expression }, { body := node .literalValue }]),
   rule .keyedElement (seq [node .literalElement, symbol ":", node .literalElement]),
   rule .funcLiteral
     (seq [keyword "func", parameters, result, role .body (node .block)]),
   (.node .unaryExpression, [{
      body := seq [
        role .operator (choice (["+", "-", "!", "^", "*", "&", "<-"].map symbol)), operand]
      precedence := 6 }]),
   (.node .binaryExpression, binaryOperators.map fun (p, operators) => {
      body := seq [role .left expression, role .operator (choice (operators.map symbol)),
        role .right expression]
      precedence := p
      associativity := some .left }),
   rule .qualifiedType
     (seq [role .package packageIdentifier, symbol ".", role .name typeIdentifier])]

/-- All rules. -/
def rules : Grammar.Rules := files ++ declarations ++ types ++ statements ++ expressions

/-- The grammar of Go. -/
def grammar : Grammar := .ofRules rules

end Go

end GomegaLint
