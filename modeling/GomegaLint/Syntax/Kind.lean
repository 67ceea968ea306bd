/-!
# Kinds of syntax nodes

Every node of a concrete Go syntax tree carries a `Kind`.  Keywords, operators,
punctuation and statement terminators all share the one anonymous kind
`Kind.token`; every other kind is named.  A `Field` is the role a child plays
in its parent.
-/

namespace GomegaLint

/-- The construct a syntax node stands for. -/
inductive Kind where
  | token
  | comment
  | sourceFile
  | packageClause
  | importDeclaration
  | importSpec
  | importSpecList
  | dot
  | blankIdentifier
  | constDeclaration
  | constSpec
  | varDeclaration
  | varSpec
  | typeDeclaration
  | typeSpec
  | typeAlias
  | functionDeclaration
  | methodDeclaration
  | typeParameterList
  | parameterList
  | parameterDeclaration
  | variadicParameterDeclaration
  | identifier
  | typeIdentifier
  | fieldIdentifier
  | packageIdentifier
  | labelName
  | parenthesizedType
  | genericType
  | typeArguments
  | qualifiedType
  | pointerType
  | arrayType
  | implicitLengthArrayType
  | sliceType
  | structType
  | fieldDeclarationList
  | fieldDeclaration
  | unionType
  | negatedType
  | interfaceType
  | constraintElem
  | structElem
  | structTerm
  | methodSpec
  | mapType
  | channelType
  | functionType
  | block
  | emptyStatement
  | expressionStatement
  | sendStatement
  | receiveStatement
  | incStatement
  | decStatement
  | assignmentStatement
  | shortVarDeclaration
  | labeledStatement
  | fallthroughStatement
  | breakStatement
  | continueStatement
  | gotoStatement
  | returnStatement
  | goStatement
  | deferStatement
  | ifStatement
  | forStatement
  | forClause
  | rangeClause
  | expressionSwitchStatement
  | expressionCase
  | defaultCase
  | typeSwitchStatement
  | typeCase
  | selectStatement
  | communicationCase
  | expressionList
  | parenthesizedExpression
  | callExpression
  | argumentList
  | variadicArgument
  | selectorExpression
  | indexExpression
  | sliceExpression
  | typeAssertionExpression
  | typeConversionExpression
  | compositeLiteral
  | literalValue
  | literalElement
  | keyedElement
  | funcLiteral
  | unaryExpression
  | binaryExpression
  | rawStringLiteral
  | interpretedStringLiteral
  | intLiteral
  | floatLiteral
  | imaginaryLiteral
  | runeLiteral
  | nilLiteral
  | trueLiteral
  | falseLiteral
  | iotaLiteral
  deriving DecidableEq, Repr, Inhabited, Hashable

namespace Kind

/-- Statements, declarations, blocks and case clauses: what is walked for its
effect on the scopes rather than evaluated. -/
def isStatement : Kind → Bool
  | importDeclaration | constDeclaration | varDeclaration | typeDeclaration
  | functionDeclaration | methodDeclaration | parameterDeclaration
  | variadicParameterDeclaration | fieldDeclaration | shortVarDeclaration
  | emptyStatement | expressionStatement | sendStatement | receiveStatement
  | incStatement | decStatement | assignmentStatement | labeledStatement
  | fallthroughStatement | breakStatement | continueStatement | gotoStatement
  | returnStatement | goStatement | deferStatement | ifStatement | forStatement
  | expressionSwitchStatement | typeSwitchStatement | selectStatement
  | block | expressionCase | defaultCase | typeCase | communicationCase => true
  | _ => false

/-- Type expressions.  Unions and negated types, which only constraints use,
are not among them. -/
def isType : Kind → Bool
  | typeIdentifier | qualifiedType | pointerType | sliceType | arrayType
  | implicitLengthArrayType | mapType | channelType | functionType | structType
  | interfaceType | parenthesizedType | genericType => true
  | _ => false

end Kind

/-- The role of a child in its parent. -/
inductive Field where
  | name
  | path
  | type
  | value
  | typeParameters
  | parameters
  | result
  | body
  | receiver
  | package
  | typeArguments
  | length
  | element
  | key
  | tag
  | left
  | operator
  | right
  | channel
  | label
  | initializer
  | condition
  | consequence
  | alternative
  | update
  | binding
  | communication
  | function
  | arguments
  | operand
  | field
  | index
  | start
  | stop
  | capacity
  deriving DecidableEq, Repr, Inhabited, Hashable

end GomegaLint
