import GomegaLint.Rule.Async
import GomegaLint.Rule.Comparison
import GomegaLint.Rule.Error
import GomegaLint.Rule.Length
import GomegaLint.Rule.Nil

/-!
# Which rules run, and how loud

`selectRules` narrows the rules to those a run asks for; `Settings` give each
rule its level.  Both take aliases for rule names.
-/

namespace GomegaLint

namespace Rule

/-- What a rule reports of an assertion. -/
def check : Rule → Assertion → Option Report
  | lenAssertion => checkLen
  | capAssertion => checkCap
  | nilAssertion => checkNil
  | errorAssertion => checkError
  | compareAssertion => checkComparison
  | haveOccurredNonError => checkHaveOccurred
  | succeedNonError => checkSucceed
  | asyncCall => checkAsync
  | comparePointerValue => checkPointer

/-- The rule of this name or alias among some rules. -/
def find? (rules : List Rule) (name : String) : Option Rule :=
  rules.find? (·.name == canonicalName name)

end Rule

/-- A name that no rule has. -/
structure UnknownRule where
  name : String
  deriving DecidableEq, Repr, Inhabited

namespace UnknownRule

def message (e : UnknownRule) : String := "unknown lint: " ++ e.name

end UnknownRule

/-- The rules of `only`, or all if it is empty, without those of `skip` and
`disabled`.  The first name that is neither a rule nor an alias is an error. -/
def selectRules (only skip disabled : List String) : Except UnknownRule (List Rule) :=
  match (only ++ skip ++ disabled).find? (!Rule.isNameOrAlias ·) with
  | some name => .error ⟨name⟩
  | none =>
    let wanted := only.map Rule.canonicalName
    let unwanted := (skip ++ disabled).map Rule.canonicalName
    .ok (Rule.all.filter fun r =>
      (only.isEmpty || wanted.contains r.name) && !unwanted.contains r.name)

/-- How loud a rule is. -/
inductive Level where
  | allow | warn | error
  deriving DecidableEq, Repr, Inhabited

namespace Level

/-- The name of a level in output. -/
def label : Level → String
  | allow => "allow"
  | warn => "warning"
  | error => "error"

/-- The level that a configuration names. -/
def ofName? : String → Option Level
  | "allow" => some allow
  | "warn" => some warn
  | "error" => some error
  | _ => none

end Level

/-- The levels of rules by name; a later entry comes first and hides the earlier
ones. -/
structure Settings where
  levels : List (String × Level) := []
  deriving DecidableEq, Repr, Inhabited

namespace Settings

/-- Give a rule, by name or alias, a level. -/
def set (s : Settings) (name : String) (l : Level) : Settings :=
  ⟨(Rule.canonicalName name, l) :: s.levels⟩

/-- Give several rules their levels, in order. -/
def setAll (s : Settings) (levels : List (String × Level)) : Settings :=
  levels.foldl (fun s e => s.set e.1 e.2) s

/-- Silence rules. -/
def disable (s : Settings) (names : List String) : Settings :=
  s.setAll (names.map fun n => (n, .allow))

/-- The level of a rule, by name or alias; a warning if nothing else is said. -/
def levelFor (s : Settings) (name : String) : Level :=
  match s.levels.lookup name with
  | some l => l
  | none => (s.levels.lookup (Rule.canonicalName name)).getD .warn

/-- Levels and disabled rules together; a disabled rule is silent whatever its
level. -/
def of (levels : List (String × Level)) (disabled : List String) : Settings :=
  (({} : Settings).setAll levels).disable disabled

end Settings

end GomegaLint
