import GomegaLint.Rule.Basic

/-!
# Comparisons

`Expect(x == y).To(BeTrue())` is `Expect(x).To(Equal(y))`, and an ordering of
numbers is a `BeNumerically`.  On pointers `==` is identity.  A pointer compared
with a value that is none never matches; `HaveValue` looks behind the pointer.
-/

namespace GomegaLint

namespace Rule

/-- What becomes of a comparison: a matcher, and whether it says the opposite. -/
def comparisonCheck? (style : ImportStyle) (left : Value) (op : BinaryOp) (right : Value) :
    Option (Call × Bool) :=
  let y := right.twin.copy
  if op.isEquality then
    let name := if left.isPointer then "BeIdenticalTo" else "Equal"
    some (style.matcher name [y], op == .ne)
  else if op.isOrdering then
    if left.type?.any (!·.isNumeric) then none
    else some (style.matcher "BeNumerically" [Expr.stringLiteral op.symbol, y], false)
  else none

def fixComparison? (a : Assertion) : Option Draft := do
  let m ← a.matcher
  match a.actual.subject with
  | .comparison left op right =>
    let expected ← a.expectsTrue? m
    let (new, opposite) ← comparisonCheck? a.style left op right
    let d ← a.draft.setActualArg a.actual.offset left.twin.copy
    let d ← d.setMatcher new
    d.setNegative (expected == opposite)
  | _ => none

def checkComparison (a : Assertion) : Option Report :=
  (fixComparison? a).map (Report.wrongCheck "comparison")

/-- The index of the argument that a matcher compares the actual value with. -/
def comparedIndex? : String → Option Nat
  | "Equal" | "BeEquivalentTo" | "BeIdenticalTo" => some 0
  | "BeNumerically" => some 1
  | _ => none

/-- The matcher compares with a value of a known type that is no pointer. -/
def comparesValue (a : Assertion) (m : Matcher) : Bool :=
  if m.name = "BeTrue" || m.name = "BeFalse" then m.argCount == 0
  else
    match comparedIndex? m.name with
    | some index =>
      index + 1 == m.argCount && (m.arg? index).any fun arg =>
        let v := a.value arg
        v.known.isSome && !v.isPointer && !v.isInterface && !a.oracle.isNilOrUnknown arg.seen
    | none => false

/-- The fix of a comparison of a pointer with a value. -/
def fixPointer? (a : Assertion) : Option Draft := do
  let m ← a.matcher
  match a.actual.subject with
  | .plain v =>
    if a.actual.isAsync || !v.isPointer || !comparesValue a m then none
    else a.draft.setInnerMatcher (a.style.wrapper "HaveValue" m.call.copy)
  | _ => none

def checkPointer (a : Assertion) : Option Report :=
  (fixPointer? a).map fun d =>
    { message := "comparing a pointer to a value will always fail; consider using `" ++ d.print ++
        "` instead"
      fix := some d.print }

end Rule

end GomegaLint
