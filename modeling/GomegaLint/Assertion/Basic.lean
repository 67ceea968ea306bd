import GomegaLint.Assertion.Actual
import GomegaLint.Assertion.Draft
import GomegaLint.Assertion.Matcher

/-!
# Assertions

`Assertion.of?` recognizes a call such as `Expect(x).To(Equal(y))`: a method
applied to a call that takes an actual value.  The matcher is known when it is
a call of a matcher function.
-/

namespace GomegaLint

/-- A recognized assertion. -/
structure Assertion where
  call : CallTwin
  method : Method
  style : ImportStyle
  oracle : Oracle
  actual : Actual
  matcher : Option Matcher

namespace Assertion

/-- Recognize a call, together with a copy of it, as an assertion. -/
def of? (style : ImportStyle) (o : Oracle) (seen copy : Call) : Option Assertion := do
  let s ← seen.callee.selector?
  let c ← copy.callee.selector?
  let method ← Method.ofName? s.member.name
  if c.member.name ≠ s.member.name then none
  let found ← style.actual? o s c
  let function ← style.actualFunction? o found.seen
  let actual ← Actual.of? o found function
  let call : CallTwin := ⟨seen, copy⟩
  return ⟨call, method, style, o, actual, (call.arg? 0).bind (Matcher.of? style)⟩

def span (a : Assertion) : Span := a.call.seen.origin.span

def isNegative (a : Assertion) : Bool := a.method.isNegative

/-- The name of the innermost matcher. -/
def matcherName? (a : Assertion) : Option String := a.matcher.map (·.name)

/-- A draft of the assertion. -/
def draft (a : Assertion) : Draft :=
  ⟨a.call.copy, a.style, a.actual.depth, (a.matcher.map (·.notDepth)).getD 0⟩

/-- What the oracle knows of an argument. -/
def value (a : Assertion) (t : Twin) : Value := Value.of a.oracle t

/-! ## What an assertion expects -/

/-- The assertion expects its innermost matcher to match: the method is negative
exactly when the number of wrappers is odd. -/
def expectsMatch (a : Assertion) (m : Matcher) : Bool := a.isNegative == m.isNegated

/-- The boolean that a matcher asks for. -/
def wantedBool? (m : Matcher) : Option Bool :=
  match m.name, m.argCount with
  | "BeTrue", 0 => some true
  | "BeFalse", 0 => some false
  | "Equal", 1 =>
    match (m.arg? 0).map Twin.seen with
    | some (.ident i) =>
      if i.name = "true" then some true else if i.name = "false" then some false else none
    | _ => none
  | _, _ => none

/-- Whether the assertion expects a boolean actual value to be true; `none` if
its matcher asks for no boolean. -/
def expectsTrue? (a : Assertion) (m : Matcher) : Option Bool :=
  (wantedBool? m).map (· == a.expectsMatch m)

end Assertion

end GomegaLint
