import GomegaLint.Constant.Binary64
import GomegaLint.Expr.Operator

/-!
# Constants and their arithmetic

Integer constants are signed 128-bit integers and float constants doubles.
`Constant.fold` computes a binary operation on constants.  Its outcome is a
value, or no value where the operation is not computed (a sum, difference or
product out of range, a zero divisor, a shift by a negative or too large
amount).  The quotient and the remainder of the least integer by minus one are
beyond computing: that outcome is `Folded.overflow`.

A left shift drops the bits that leave the 128-bit range.
-/

namespace GomegaLint

/-- A constant value. -/
inductive Constant where
  | bool (b : Bool)
  | int (i : Int)
  | float (f : Float)
  | string (s : String)
  deriving Repr, Inhabited

/-- The outcome of an operation on constants. -/
inductive Folded where
  | value (c : Constant)
  | unknown
  | overflow
  deriving Repr, Inhabited

namespace Constant

/-- The least integer constant. -/
def minInt : Int := -(Nat.pow 2 127 : Nat)

/-- The greatest integer constant. -/
def maxInt : Int := (Nat.pow 2 127 : Nat) - 1

def inRange (i : Int) : Bool := minInt ≤ i && i ≤ maxInt

/-- The integer, if it is in range. -/
def checked (i : Int) : Option Constant := if inRange i then some (int i) else none

def isZero : Constant → Bool
  | bool b => !b
  | int i => i == 0
  | float f => f == 0.0
  | string s => s == ""

/-- A value if there is one. -/
def folded : Option Constant → Folded
  | some c => .value c
  | none => .unknown

/-- A quotient or remainder; `divide` rounds toward zero. -/
def foldDivision (divide : Int → Int → Int) (a b : Int) : Folded :=
  if b = 0 then .unknown
  else if a = minInt ∧ b = -1 then .overflow
  else .value (int (divide a b))

def foldInt (op : BinaryOp) (a b : Int) : Folded :=
  match op with
  | .add => folded (checked (a + b))
  | .sub => folded (checked (a - b))
  | .mul => folded (checked (a * b))
  | .div => foldDivision Int.tdiv a b
  | .rem => foldDivision Int.tmod a b
  | .shl =>
    if 0 ≤ b ∧ b < 128 then
      .value (int ((a * (Nat.pow 2 b.toNat : Nat)).bmod (Nat.pow 2 128)))
    else .unknown
  | _ => .unknown

def foldFloat (op : BinaryOp) (a b : Float) : Folded :=
  match op with
  | .add => .value (float (a + b))
  | .sub => .value (float (a - b))
  | .mul => .value (float (a * b))
  | .div => if b != 0.0 then .value (float (a / b)) else .unknown
  | _ => .unknown

/-- The outcome of `a op b`.  An integer beside a float is read as a float. -/
def fold (op : BinaryOp) : Constant → Constant → Folded
  | int a, int b => foldInt op a b
  | float a, float b => foldFloat op a b
  | int a, float b => foldFloat op (doubleOfInt a) b
  | float a, int b => foldFloat op a (doubleOfInt b)
  | string a, string b => if op = .add then .value (string (a ++ b)) else .unknown
  | _, _ => .unknown

/-- The negation of a number, if it is in range. -/
def negate? : Constant → Option Constant
  | int i => checked (-i)
  | float f => some (float (-f))
  | _ => none

/-- The negation of a boolean. -/
def not? : Constant → Option Constant
  | bool b => some (bool (!b))
  | _ => none

end Constant

end GomegaLint
