import GomegaLint.Expr.Operator
import GomegaLint.Syntax.Node

/-!
# Go expressions

The shapes that assertions are made of: names, selectors, calls, operators,
parentheses and literals.  Every other shape is kept as its text,
`Expr.verbatim`, so that an edited assertion still prints back in full.

An expression read from a file knows the syntax node it came from; one that was
built has the identity zero and the empty span.
-/

namespace GomegaLint

/-- Where an expression came from: the identity of its syntax node, zero for an
expression that was built, and its place in the file. -/
structure Origin where
  id : Nat := 0
  span : Span := {}
  deriving DecidableEq, Repr, Inhabited

/-- A name. -/
structure Ident where
  origin : Origin := {}
  name : String
  deriving DecidableEq, Repr, Inhabited

/-- The class of a literal. -/
inductive LiteralKind where
  | int | float | imaginary | char | string
  deriving DecidableEq, Repr, Inhabited

/-- A Go expression. -/
inductive Expr where
  | ident (i : Ident)
  /-- The member `x.member`. -/
  | selector (origin : Origin) (x : Expr) (member : Ident)
  /-- The call `callee(args)`; with `spread`, the last argument is followed by
  an ellipsis. -/
  | call (origin : Origin) (callee : Expr) (args : List Expr) (spread : Bool)
  | binary (origin : Origin) (x : Expr) (op : BinaryOp) (y : Expr)
  | unary (origin : Origin) (op : UnaryOp) (x : Expr)
  /-- The dereference or pointer type `*x`. -/
  | star (origin : Origin) (x : Expr)
  | paren (origin : Origin) (x : Expr)
  /-- A literal as it is written, quotes included. -/
  | literal (origin : Origin) (kind : LiteralKind) (value : String)
  /-- Any other expression, as it is written. -/
  | verbatim (origin : Origin) (text : String)
  deriving Repr, Inhabited

/-- A call on its own. -/
structure Call where
  origin : Origin := {}
  callee : Expr
  args : List Expr
  spread : Bool := false
  deriving Repr, Inhabited

/-- A selector on its own. -/
structure Selector where
  origin : Origin := {}
  x : Expr
  member : Ident
  deriving Repr, Inhabited

namespace Call

def toExpr (c : Call) : Expr := .call c.origin c.callee c.args c.spread

end Call

namespace Selector

def toExpr (s : Selector) : Expr := .selector s.origin s.x s.member

end Selector

namespace Expr

def origin : Expr → Origin
  | ident i => i.origin
  | selector o _ _ => o
  | call o _ _ _ => o
  | binary o _ _ _ => o
  | unary o _ _ => o
  | star o _ => o
  | paren o _ => o
  | literal o _ _ => o
  | verbatim o _ => o

def id (e : Expr) : Nat := e.origin.id

def span (e : Expr) : Span := e.origin.span

/-- A name that was built. -/
def named (name : String) : Expr := .ident { name }

/-- An integer literal that was built. -/
def intLiteral (value : String) : Expr := .literal {} .int value

/-- A string literal that was built around `text`. -/
def stringLiteral (text : String) : Expr := .literal {} .string ("\"" ++ text ++ "\"")

def ident? : Expr → Option Ident
  | ident i => some i
  | _ => none

def call? : Expr → Option Call
  | call o f as s => some ⟨o, f, as, s⟩
  | _ => none

def selector? : Expr → Option Selector
  | selector o x m => some ⟨o, x, m⟩
  | _ => none

def isCall : Expr → Bool
  | call .. => true
  | _ => false

/-- The name `nil`, whatever its type. -/
def isNilName : Expr → Bool
  | ident i => i.name == "nil"
  | _ => false

/-- The precedence of a binary expression. -/
def precedence? : Expr → Option Nat
  | binary _ _ op _ => some op.precedence
  | _ => none

@[simp] theorem call?_toExpr (c : Call) : c.toExpr.call? = some c := rfl

@[simp] theorem selector?_toExpr (s : Selector) : s.toExpr.selector? = some s := rfl

theorem call?_eq_some_iff {e : Expr} {c : Call} : e.call? = some c ↔ e = c.toExpr := by
  cases e <;> simp [call?, Call.toExpr]
  · rcases c with ⟨o, f, as, s⟩; simp

end Expr

end GomegaLint
