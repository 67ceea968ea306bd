import GomegaLint.Rule.Basic

/-!
# Asynchronous assertions

`Eventually(f(a))` asks again and again for a value that was computed once.  The
fix passes the function and moves its arguments: `Eventually(f).WithArguments(a)`.
A size is left to the rules for sizes, and a spread argument cannot be moved.
-/

namespace GomegaLint

namespace Rule

def asyncMessage (function : String) : String :=
  "use a function call in " ++ function ++ ". This actually checks nothing, because " ++ function ++
    " receives the function returned value, instead of function itself, and this value is never " ++
    "changed"

/-- The fix of a call passed by its result. -/
def fixAsync? (a : Assertion) : Option Draft :=
  match a.actual.arg.copy with
  | .call _ f args spread =>
    if spread then none
    else do
      let d ← a.draft.setActualArg a.actual.offset f
      if args.isEmpty then return d else d.chainActual "WithArguments" args
  | _ => none

def checkAsync (a : Assertion) : Option Report :=
  if a.actual.hasTrait .asyncCall then
    match a.actual.subject with
    | .size .. => none
    | _ =>
      some { message := asyncMessage a.actual.function, fix := (fixAsync? a).map Draft.print }
  else none

end Rule

end GomegaLint
