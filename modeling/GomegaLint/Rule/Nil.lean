import GomegaLint.Rule.Basic

/-!
# Comparisons with nil

`Expect(x == nil).To(BeTrue())` and `Expect(x).To(Equal(nil))` are both
`Expect(x).To(BeNil())`.  Errors are left to their own rule.
-/

namespace GomegaLint

namespace Rule

/-- The fix of an assertion on a comparison with `nil`; any operator but `==`
says that the value is not `nil`. -/
def fixNilComparison? (a : Assertion) (m : Matcher) (left : Value) (op : BinaryOp) :
    Option Draft := do
  let expected ← a.expectsTrue? m
  let d ← a.draft.setActualArg a.actual.offset left.twin.copy
  let d ← d.setMatcher (a.style.matcher "BeNil" [])
  d.setNegative (expected != (op == .eq))

/-- The fix of a matcher that compares with `nil`; its wrappers stay. -/
def fixEqualNil? (a : Assertion) (m : Matcher) : Option Draft := do
  if (m.name ≠ "Equal" && m.name ≠ "BeEquivalentTo") || m.argCount ≠ 1 then none
  let arg ← m.arg? 0
  if !a.oracle.isNilOrUnknown arg.seen then none
  a.draft.setInnerMatcher (a.style.matcher "BeNil" [])

def fixNil? (a : Assertion) : Option Draft := do
  let m ← a.matcher
  match a.actual.subject with
  | .nilComparison left op _ => if left.isError then none else fixNilComparison? a m left op
  | .plain _ | .size .. => fixEqualNil? a m
  | _ => none

def checkNil (a : Assertion) : Option Report := (fixNil? a).map (Report.wrongCheck "nil")

end Rule

end GomegaLint
