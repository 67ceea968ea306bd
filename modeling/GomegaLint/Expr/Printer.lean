import GomegaLint.Expr.Basic

/-!
# Printing expressions

Expressions print with Go's usual spacing.  A binary operator is set off by
blanks unless it binds at least as tight as a cutoff, which depends on how deep
the operator stands and on the operators around it: `x*2 + 1`, but
`x*2+1 == 3`.  The cutoff rises where a tight operator would run together with
the operator of its right operand, as in `a / *p` and `a - -b`.

Printing goes through segments: the tokens of the expression and single blanks
between them.
-/

namespace GomegaLint

/-- What the operators of a binary expression ask of its spacing. -/
structure Spacing where
  /-- An operator of precedence four is present. -/
  has4 : Bool := false
  /-- An operator of precedence five is present. -/
  has5 : Bool := false
  /-- The highest precedence at which an operator would run together with the
  one behind it; zero if none would. -/
  clash : Nat := 0
  deriving DecidableEq, Repr

namespace Spacing

def merge (a b : Spacing) : Spacing :=
  ⟨a.has4 || b.has4, a.has5 || b.has5, max a.clash b.clash⟩

/-- Operators at or above this precedence are written without blanks. -/
def cutoff (s : Spacing) (depth : UInt8) : Nat :=
  if 0 < s.clash then s.clash + 1
  else if depth = 1 then (if s.has4 && s.has5 then 5 else 6)
  else 4

end Spacing

namespace Expr

/-- The spacing that the operators of an expression ask for, seen from its top
through the operands that belong to the same formula. -/
def spacing : Expr → Spacing
  | binary _ x op y =>
    let own : Spacing := { has4 := op.precedence == 4, has5 := op.precedence == 5 }
    let left :=
      match x.precedence? with
      | some p => if op.precedence ≤ p then own.merge x.spacing else own
      | none => own
    match y with
    | binary _ _ inner _ =>
      if op.precedence < inner.precedence then left.merge y.spacing else left
    | star .. => if op = .div then { left with clash := 5 } else left
    | unary _ inner _ =>
      match op, inner with
      | .and, .addr | .and, .xor => { left with clash := 5 }
      | .add, .pos | .sub, .neg => { left with clash := max left.clash 4 }
      | _, _ => left
    | _ => left
  | _ => {}

/-- The depth at which the left operand of an operator prints. -/
def leftDepth (depth : UInt8) (op : BinaryOp) (x : Expr) : UInt8 :=
  if x.precedence? = some op.precedence then depth else depth + 1

/-- A binary operator with the blanks around it. -/
def operatorSegments (spaced : Bool) (op : BinaryOp) : List String :=
  if spaced then [" ", op.symbol, " "] else [op.symbol]

mutual

/-- The segments of an expression at the given depth of operators. -/
def segments (depth : UInt8) : Expr → List String
  | ident i => [i.name]
  | selector _ x m => x.segments 1 ++ [".", m.name]
  | call _ f as s =>
    f.segments 1 ++ ["("] ++ argumentSegments as ++ (if s then ["..."] else []) ++ [")"]
  | binary o x op y =>
    let spaced := op.precedence < (binary o x op y).spacing.cutoff depth
    x.segments (leftDepth depth op x) ++ operatorSegments spaced op ++ y.segments (depth + 1)
  | unary _ op x => op.symbol :: x.segments 1
  | star _ x => "*" :: x.segments 1
  | paren _ x => ["("] ++ x.segments 1 ++ [")"]
  | literal _ _ v => [v]
  | verbatim _ t => [t]

/-- Arguments with a comma and a blank between each two. -/
def argumentSegments : List Expr → List String
  | [] => []
  | a :: as => a.segments 1 ++ laterSegments as

/-- The arguments behind the first, each behind a comma and a blank. -/
def laterSegments : List Expr → List String
  | [] => []
  | a :: as => [",", " "] ++ a.segments 1 ++ laterSegments as

end

/-- The text of an expression. -/
def print (e : Expr) : String := String.join (e.segments 1)

end Expr

namespace Call

/-- The text of a call. -/
def print (c : Call) : String := c.toExpr.print

end Call

end GomegaLint
