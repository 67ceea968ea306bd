import GomegaLint.Constant.Literal
import GomegaLint.Oracle

/-!
# Arguments of an assertion

Every argument is held twice: as it is seen in the file, and as it stands in a
copy of the assertion out of which fixes are made.  A `Value` is such a pair
with what the oracle knows of the seen side.
-/

namespace GomegaLint

/-- An expression as it is seen, and its counterpart in a copy. -/
structure Twin where
  seen : Expr
  copy : Expr
  deriving Repr, Inhabited

/-- A call as it is seen, and its counterpart in a copy. -/
structure CallTwin where
  seen : Call
  copy : Call
  deriving Repr, Inhabited

namespace CallTwin

/-- The arguments at an index, if both sides have it. -/
def arg? (c : CallTwin) (index : Nat) : Option Twin := do
  return ⟨← c.seen.args[index]?, ← c.copy.args[index]?⟩

end CallTwin

namespace Oracle

/-- The expression is an error: its type is a defined type or a pointer that
implements `error`, or a tuple that ends with one. -/
def isError (o : Oracle) (e : Expr) : Bool :=
  match o.type? e with
  | some (.tuple items) =>
    items.getLast?.any fun t => (t.isNamed || t.isPointer) && t.implementsError
  | some t => (t.isNamed || t.isPointer) && t.implementsError
  | none => false

/-- The expression is a name whose type is that of `nil`. -/
def isNil (o : Oracle) (e : Expr) : Bool := e.ident?.isSome && (o e).any Typed.isNil

/-- The expression is the untyped `nil`, or the bare name `nil` of which nothing
is known. -/
def isNilOrUnknown (o : Oracle) (e : Expr) : Bool :=
  o.isNil e || (e.isNilName && (o e).isNone)

end Oracle

/-- A literal, or a name of basic type that is a constant or `nil`. -/
def isConstant (e : Expr) (known : Option Typed) : Bool :=
  match e with
  | .literal .. => true
  | .ident _ => known.any fun t => t.type.isBasic && (t.value.isSome || t.isNil)
  | _ => false

/-- An argument with what is known of it. -/
structure Value where
  twin : Twin
  known : Option Typed
  isError : Bool
  deriving Inhabited

namespace Value

def of (o : Oracle) (t : Twin) : Value := ⟨t, o t.seen, o.isError t.seen⟩

def type? (v : Value) : Option GoType := v.known.map (·.type)

def constant? (v : Value) : Option Constant := v.known.bind (·.value)

/-- The expression is a call. -/
def isCall (v : Value) : Bool := v.twin.seen.isCall

/-- The expression is a call whose one result is an error. -/
def isErrorCall (v : Value) : Bool :=
  v.isCall && v.type?.any fun t => !t.isTuple && t.implementsError

def isPointer (v : Value) : Bool := v.type?.any GoType.isPointer

def isInterface (v : Value) : Bool := v.type?.any GoType.isInterface

/-- The expression is a call with several results. -/
def isTuple (v : Value) : Bool := v.type?.any GoType.isTuple

def isNil (v : Value) : Bool := v.known.any Typed.isNil

def isConst (v : Value) : Bool := isConstant v.twin.seen v.known

/-- A number constant that is zero.  Without a known value, an integer literal
made of zeros. -/
def isZero (v : Value) : Bool :=
  match v.constant? with
  | some (.int i) => i == 0
  | some (.float f) => f == 0.0
  | some _ => false
  | none =>
    match v.twin.seen with
    | .literal _ .int text => text.toList.all (· == '0')
    | _ => false

/-- A number constant that is one.  Without a known value, the literal `1`. -/
def isOne (v : Value) : Bool :=
  match v.constant? with
  | some (.int i) => i == 1
  | some (.float f) => f == 1.0
  | some _ => false
  | none =>
    match v.twin.seen with
    | .literal _ .int text => text == "1"
    | _ => false

end Value

end GomegaLint
