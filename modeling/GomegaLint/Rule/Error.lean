import GomegaLint.Rule.Basic

/-!
# Errors

An error is checked with `HaveOccurred`, and the one error that a call returns
with `Succeed`, rather than by comparing it with `nil`; and these two matchers
are for errors only.
-/

namespace GomegaLint

namespace Rule

/-- The matcher asks for `nil`. -/
def isNilMatcher (a : Assertion) (m : Matcher) : Bool :=
  match m.name, m.argCount with
  | "BeNil", 0 => true
  | "Equal", 1 | "BeEquivalentTo", 1 =>
    (m.arg? 0).any fun arg => a.oracle.isNilOrUnknown arg.seen
  | _, _ => false

/-- Assert on an error that it is `nil`, or that it is not. -/
def assertError (a : Assertion) (d : Draft) (v : Value) (expectsNil : Bool) : Option Draft := do
  if v.isErrorCall then
    let d ← d.setMatcher (a.style.matcher "Succeed" [])
    d.setNegative (!expectsNil)
  else
    let d ← d.setMatcher (a.style.matcher "HaveOccurred" [])
    d.setNegative expectsNil

/-- The fix of an assertion that compares an error with `nil`.  A call with
several results is left alone: its assertion is about the first of them. -/
def fixError? (a : Assertion) : Option Draft := do
  let m ← a.matcher
  match a.actual.subject with
  | .error v =>
    if v.isTuple || !isNilMatcher a m then none
    else assertError a a.draft v (a.expectsMatch m)
  | .nilComparison left op _ =>
    if !left.isError || left.isTuple then none
    else
      let expected ← a.expectsTrue? m
      let d ← a.draft.setActualArg a.actual.offset left.twin.copy
      assertError a d left (expected == (op == .eq))
  | _ => none

def checkError (a : Assertion) : Option Report := (fixError? a).map (Report.wrongCheck "error")

/-- The actual value has a known type that holds no error. -/
def isKnownNonError (a : Assertion) : Bool :=
  let v := a.value a.actual.arg
  !a.actual.hasTrait .errorType &&
    v.type?.any fun t =>
      !t.isInterface && !(a.actual.isAsync && t.underlying.isSignature) && !v.isError

def checkHaveOccurred (a : Assertion) : Option Report :=
  if a.matcherName? = some "HaveOccurred" && isKnownNonError a then
    some { message := "asserting a non-error type with HaveOccurred matcher" }
  else none

def checkSucceed (a : Assertion) : Option Report :=
  if a.matcherName? = some "Succeed" then
    if (a.value a.actual.arg).isTuple then
      some { message := "the Success matcher does not support multiple values" }
    else if isKnownNonError a then
      some { message := "asserting a non-error type with Succeed matcher" }
    else none
  else none

end Rule

end GomegaLint
