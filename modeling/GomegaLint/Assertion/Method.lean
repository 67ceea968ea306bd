/-!
# Assertion methods

The methods that apply a matcher to an actual value.  Each has a polarity and a
counterpart of the other polarity; `NotTo` and `ToNot` say the same, and the
counterpart of `To` is `ToNot`.
-/

namespace GomegaLint

/-- A method that applies a matcher. -/
inductive Method where
  | simplyTo | toNot | notTo | should | shouldNot
  deriving DecidableEq, Repr, Inhabited

namespace Method

def name : Method → String
  | simplyTo => "To"
  | toNot => "ToNot"
  | notTo => "NotTo"
  | should => "Should"
  | shouldNot => "ShouldNot"

def all : List Method := [simplyTo, toNot, notTo, should, shouldNot]

/-- The method with this name. -/
def ofName? (s : String) : Option Method := all.find? (·.name == s)

theorem ofName?_name (m : Method) : ofName? m.name = some m := by
  cases m <;> rfl

/-- The method requires that the matcher fails. -/
def isNegative : Method → Bool
  | simplyTo | should => false
  | toNot | notTo | shouldNot => true

/-- The method that requires the opposite. -/
def reversed : Method → Method
  | simplyTo => toNot
  | toNot | notTo => simplyTo
  | should => shouldNot
  | shouldNot => should

theorem isNegative_reversed (m : Method) : m.reversed.isNegative = !m.isNegative := by
  cases m <;> rfl

/-- The name is that of a method. -/
def isName (s : String) : Bool := (ofName? s).isSome

/-- The name is that of a negative method. -/
def isNegativeName (s : String) : Bool := (ofName? s).any isNegative

/-- The name of the method that requires the opposite. -/
def reversedName? (s : String) : Option String := (ofName? s).map fun m => m.reversed.name

end Method

end GomegaLint
