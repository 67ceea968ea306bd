/-!
# Go operators

Binary operators with their precedence, the comparisons among them, and unary
operators.  The dereference `*x` is an expression of its own and not a unary
operator.
-/

namespace GomegaLint

/-- A binary operator. -/
inductive BinaryOp where
  | eq | ne | lt | le | gt | ge
  | add | sub | mul | div | rem
  | and | or | xor | shl | shr | andNot
  | land | lor
  deriving DecidableEq, Repr, Inhabited

namespace BinaryOp

def symbol : BinaryOp → String
  | eq => "=="
  | ne => "!="
  | lt => "<"
  | le => "<="
  | gt => ">"
  | ge => ">="
  | add => "+"
  | sub => "-"
  | mul => "*"
  | div => "/"
  | rem => "%"
  | and => "&"
  | or => "|"
  | xor => "^"
  | shl => "<<"
  | shr => ">>"
  | andNot => "&^"
  | land => "&&"
  | lor => "||"

def all : List BinaryOp :=
  [eq, ne, lt, le, gt, ge, add, sub, mul, div, rem, and, or, xor, shl, shr, andNot, land, lor]

/-- The operator written as `s`. -/
def ofSymbol? (s : String) : Option BinaryOp := all.find? (·.symbol == s)

theorem ofSymbol?_symbol (op : BinaryOp) : ofSymbol? op.symbol = some op := by
  cases op <;> rfl

def isEquality : BinaryOp → Bool
  | eq | ne => true
  | _ => false

def isOrdering : BinaryOp → Bool
  | lt | le | gt | ge => true
  | _ => false

def isComparison (op : BinaryOp) : Bool := op.isEquality || op.isOrdering

/-- Precedence, five binding tightest. -/
def precedence : BinaryOp → Nat
  | mul | div | rem | shl | shr | and | andNot => 5
  | add | sub | or | xor => 4
  | eq | ne | lt | le | gt | ge => 3
  | land => 2
  | lor => 1

/-- The comparison that says the same with its operands exchanged: `c < x` is
`x > c`.  Any other operator stays. -/
def exchanged : BinaryOp → BinaryOp
  | lt => gt
  | le => ge
  | gt => lt
  | ge => le
  | op => op

end BinaryOp

/-- A unary operator. -/
inductive UnaryOp where
  | not | neg | pos | xor | addr | recv
  deriving DecidableEq, Repr, Inhabited

namespace UnaryOp

def symbol : UnaryOp → String
  | not => "!"
  | neg => "-"
  | pos => "+"
  | xor => "^"
  | addr => "&"
  | recv => "<-"

def all : List UnaryOp := [not, neg, pos, xor, addr, recv]

/-- The operator written as `s`. -/
def ofSymbol? (s : String) : Option UnaryOp := all.find? (·.symbol == s)

theorem ofSymbol?_symbol (op : UnaryOp) : ofSymbol? op.symbol = some op := by
  cases op <;> rfl

end UnaryOp

end GomegaLint
