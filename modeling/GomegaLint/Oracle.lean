import GomegaLint.Constant.Basic
import GomegaLint.Expr.Basic
import GomegaLint.GoType.Basic

/-!
# What is known of expressions

An `Oracle` answers with the static type of an expression and, for a constant,
its value.  No answer means that nothing is known: such an expression counts as
neither an error, nor an assertion object, nor `nil`.

A `TypeTable` is the oracle that answers by the identity of the syntax node an
expression came from, and knows nothing of expressions that were built.
-/

namespace GomegaLint

/-- A static type, and the value of a constant. -/
structure Typed where
  type : GoType
  value : Option Constant := none
  deriving Repr, Inhabited

namespace Typed

/-- The type of `nil`. -/
def nil : Typed := { type := .basic .untypedNil }

def isNil (t : Typed) : Bool := t.type.isUntypedNil

end Typed

/-- What is known of each expression. -/
abbrev Oracle := Expr → Option Typed

namespace Oracle

/-- The type of an expression, where it is known. -/
def type? (o : Oracle) (e : Expr) : Option GoType := (o e).map (·.type)

/-- The type of the expression is known and satisfies `p`. -/
def hasType (o : Oracle) (p : GoType → Bool) (e : Expr) : Bool := (o.type? e).any p

end Oracle

/-- Types of syntax nodes by identity.  A later entry comes first and hides the
earlier ones for the same node. -/
structure TypeTable where
  entries : List (Nat × Typed) := []
  deriving Inhabited

namespace TypeTable

def insert (t : TypeTable) (id : Nat) (x : Typed) : TypeTable := ⟨(id, x) :: t.entries⟩

def get? (t : TypeTable) (id : Nat) : Option Typed := t.entries.lookup id

@[simp] theorem get?_insert (t : TypeTable) (id k : Nat) (x : Typed) :
    (t.insert id x).get? k = if k = id then some x else t.get? k := by
  simp only [get?, insert, List.lookup_cons]
  split <;> simp_all

/-- The number of nodes that have an entry. -/
def size (t : TypeTable) : Nat := (t.entries.map Prod.fst).eraseDups.length

def isEmpty (t : TypeTable) : Bool := t.entries.isEmpty

/-- The oracle that answers from the table. -/
def oracle (t : TypeTable) : Oracle := fun e => if e.id = 0 then none else t.get? e.id

end TypeTable

end GomegaLint
