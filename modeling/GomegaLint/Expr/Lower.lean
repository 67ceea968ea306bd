import GomegaLint.Expr.Basic

/-!
# Expressions of syntax nodes

`Node.toExpr` reads a syntax node as an expression and `Node.toCall?` a call
node as a call.  Comments between the arguments of a call are left out; a node
of a shape that expressions do not have, or with a part missing, is kept as
its text.
-/

namespace GomegaLint

namespace Node

def origin (n : Node) : Origin := ⟨n.id, n.span⟩

/-- The node as a name. -/
def toIdent (n : Node) : Ident := ⟨n.origin, n.text⟩

def toVerbatim (n : Node) : Expr := .verbatim n.origin n.text

def toLiteral (n : Node) (kind : LiteralKind) : Expr := .literal n.origin kind n.text

/-- The arguments under an argument list, and whether one of them is spread. -/
def lowerArguments (lower : Node → Expr) (arguments : Node) : List Expr × Bool :=
  let parts := arguments.parts
  (parts.filterMap fun p =>
      if p.kind = .variadicArgument then p.firstNamed?.map lower else some (lower p),
    parts.any (·.kind == .variadicArgument))

/-- The call under a call node. -/
def lowerCall (lower : Node → Expr) (n : Node) : Option Call := do
  if n.kind ≠ .callExpression then none
  let function ← n.child? .function
  let arguments ← n.child? .arguments
  let (args, spread) := lowerArguments lower arguments
  return ⟨n.origin, lower function, args, spread⟩

/-- A member of an operand, under the given roles. -/
def lowerMember (lower : Node → Expr) (whole part : Field) (n : Node) : Option Expr := do
  let x ← n.child? whole
  let m ← n.child? part
  return .selector n.origin (lower x) m.toIdent

def lowerBinary (lower : Node → Expr) (n : Node) : Option Expr := do
  let x ← n.child? .left
  let y ← n.child? .right
  let o ← n.child? .operator
  let op ← BinaryOp.ofSymbol? o.text
  return .binary n.origin (lower x) op (lower y)

def lowerUnary (lower : Node → Expr) (n : Node) : Option Expr := do
  let x ← n.child? .operand
  let o ← n.child? .operator
  if o.text = "*" then return .star n.origin (lower x)
  let op ← UnaryOp.ofSymbol? o.text
  return .unary n.origin op (lower x)

/-- One level of lowering. -/
def lowerStep (lower : Node → Expr) (n : Node) : Expr :=
  match n.kind with
  | .identifier | .fieldIdentifier | .packageIdentifier | .typeIdentifier
  | .nilLiteral | .trueLiteral | .falseLiteral | .iotaLiteral => .ident n.toIdent
  | .selectorExpression => (lowerMember lower .operand .field n).getD n.toVerbatim
  | .qualifiedType => (lowerMember lower .package .name n).getD n.toVerbatim
  | .callExpression => ((lowerCall lower n).map Call.toExpr).getD n.toVerbatim
  | .binaryExpression => (lowerBinary lower n).getD n.toVerbatim
  | .unaryExpression => (lowerUnary lower n).getD n.toVerbatim
  | .parenthesizedExpression =>
    (n.firstNamed?.map fun x => Expr.paren n.origin (lower x)).getD n.toVerbatim
  | .pointerType =>
    (n.firstNamed?.map fun x => Expr.star n.origin (lower x)).getD n.toVerbatim
  | .intLiteral => n.toLiteral .int
  | .floatLiteral => n.toLiteral .float
  | .imaginaryLiteral => n.toLiteral .imaginary
  | .runeLiteral => n.toLiteral .char
  | .interpretedStringLiteral | .rawStringLiteral => n.toLiteral .string
  | _ => n.toVerbatim

/-- Lowering of the topmost levels; below them nodes are kept as their text. -/
def lowerTo : Nat → Node → Expr
  | 0 => toVerbatim
  | levels + 1 => lowerStep (lowerTo levels)

/-- The expression a node stands for. -/
def toExpr (n : Node) : Expr := lowerTo n.depth n

/-- The call that a call node stands for. -/
def toCall? (n : Node) : Option Call := lowerCall (lowerTo n.depth) n

end Node

end GomegaLint
