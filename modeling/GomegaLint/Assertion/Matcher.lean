import GomegaLint.Assertion.ImportStyle
import GomegaLint.Assertion.Value

/-!
# Matchers

The matcher of an assertion is the call under any number of `Not` wrappers.
-/

namespace GomegaLint

/-- A matcher call, found under `notDepth` wrappers. -/
structure Matcher where
  call : CallTwin
  name : String
  notDepth : Nat
  deriving Inhabited

namespace Matcher

/-- The matcher in an argument and its copy, under wrappers counted from
`depth`.  `none` if the argument is no call of a matcher function, or if the two
sides name different ones. -/
def find? (style : ImportStyle) (depth : Nat) : Expr → Expr → Option Matcher
  | .call so sf sargs ss, .call co cf cargs cs => do
    let name ← style.matcherOf? sf
    if style.matcherOf? cf ≠ some name then none
    let here : Matcher := ⟨⟨⟨so, sf, sargs, ss⟩, ⟨co, cf, cargs, cs⟩⟩, name, depth⟩
    if name = "Not" then
      match sargs, cargs with
      | .call io f as s :: _, .call io' f' as' s' :: _ =>
        if (style.matcherOf? f).isSome then
          find? style (depth + 1) (.call io f as s) (.call io' f' as' s')
        else some here
      | _, _ => some here
    else some here
  | _, _ => none

/-- The matcher of an argument. -/
def of? (style : ImportStyle) (arg : Twin) : Option Matcher := find? style 0 arg.seen arg.copy

/-- An odd number of wrappers. -/
def isNegated (m : Matcher) : Bool := m.notDepth % 2 == 1

def argCount (m : Matcher) : Nat := m.call.seen.args.length

def arg? (m : Matcher) (index : Nat) : Option Twin := m.call.arg? index

/-- The contents of a string literal among the arguments. -/
def stringArg? (m : Matcher) (index : Nat) : Option String :=
  match m.call.seen.args[index]? with
  | some (.literal _ .string text) => Literal.contents? text
  | _ => none

end Matcher

end GomegaLint
