import GomegaLint.Rule.Basic

/-!
# Sizes

`Expect(len(x)).To(Equal(n))` and `Expect(len(x) == n).To(BeTrue())` are about the
length of `x`, which `HaveLen` and `BeEmpty` check by themselves; the same holds
of `cap` and `HaveCap`.  A length above zero, or of at least one, is a value that
is not empty.
-/

namespace GomegaLint

namespace Rule

/-- The matcher for a size: `HaveLen` or `HaveCap`, and `BeEmpty` for a length of
zero. -/
def sizeMatcher (style : ImportStyle) (f : SizeFunction) (size : Expr) (isZero : Bool) : Call :=
  match f with
  | .len => if isZero then style.matcher "BeEmpty" [] else style.matcher "HaveLen" [size]
  | .cap => style.matcher "HaveCap" [size]

/-- The matcher for the size that a value gives. -/
def sizeMatcherOf (style : ImportStyle) (f : SizeFunction) (v : Value) : Call :=
  sizeMatcher style f v.twin.copy v.isZero

/-- The comparison says that a length is above zero. -/
def saysNotEmpty (op : String) (v : Value) : Bool :=
  (op == ">" && v.isZero) || (op == ">=" && v.isOne)

/-- What becomes of the matcher of a size: another matcher in its place, and
whether the polarity turns. -/
def sizeCheck? (a : Assertion) (m : Matcher) (f : SizeFunction) : Option (Call × Bool) :=
  match m.name, m.argCount with
  | "Equal", 1 | "BeEquivalentTo", 1 => do
    let size := a.value (← m.arg? 0)
    return (sizeMatcherOf a.style f size, false)
  | "BeZero", 0 => some (sizeMatcher a.style f (Expr.intLiteral "0") true, false)
  | "BeNumerically", 2 => do
    let op ← m.stringArg? 0
    let size := a.value (← m.arg? 1)
    if op = "==" then return (sizeMatcherOf a.style f size, false)
    else if op = "!=" then return (sizeMatcherOf a.style f size, true)
    else if f = .len && saysNotEmpty op size then
      return (sizeMatcher a.style f (Expr.intLiteral "0") true, true)
    else none
  | _, _ => none

/-- The fix of an assertion on a size. -/
def fixSize? (a : Assertion) (m : Matcher) (f : SizeFunction) (arg : Twin) : Option Draft := do
  let d ← a.draft.setActualArg a.actual.offset arg.copy
  let (new, turns) ← sizeCheck? a m f
  let d ← d.setInnerMatcher new
  if turns then d.reverse else return d

/-- What becomes of a comparison of a size: a matcher, and whether it says the
opposite of the comparison. -/
def sizeComparisonCheck? (style : ImportStyle) (f : SizeFunction) (op : BinaryOp) (v : Value) :
    Option (Call × Bool) :=
  match op with
  | .eq => some (sizeMatcherOf style f v, false)
  | .ne => some (sizeMatcherOf style f v, true)
  | .gt =>
    if f = .len && v.isZero then some (sizeMatcher style f v.twin.copy true, true) else none
  | .ge =>
    if f = .len && v.isOne then some (sizeMatcher style f (Expr.intLiteral "0") true, true)
    else none
  | _ => none

/-- The fix of an assertion on a comparison of a size. -/
def fixSizeComparison? (a : Assertion) (m : Matcher) (f : SizeFunction) (arg : Twin)
    (op : BinaryOp) (right : Value) : Option Draft := do
  let expected ← a.expectsTrue? m
  let (new, opposite) ← sizeComparisonCheck? a.style f op right
  let d ← a.draft.setActualArg a.actual.offset arg.copy
  let d ← d.setMatcher new
  d.setNegative (expected == opposite)

/-- The fix of an assertion on a size or a comparison of one. -/
def fixLength? (f : SizeFunction) (a : Assertion) : Option Draft := do
  let m ← a.matcher
  match a.actual.subject with
  | .size g _ arg => if g = f then fixSize? a m f arg else none
  | .sizeComparison g _ arg op right =>
    if g = f then fixSizeComparison? a m f arg op right else none
  | _ => none

def checkLen (a : Assertion) : Option Report :=
  (fixLength? .len a).map (Report.wrongCheck "length")

def checkCap (a : Assertion) : Option Report :=
  (fixLength? .cap a).map (Report.wrongCheck "cap")

end Rule

end GomegaLint
