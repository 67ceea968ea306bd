import GomegaLint.Assertion.Basic
import GomegaLint.Directive.Scope

/-!
# Rules

A `Rule` looks at one assertion and may report it, with or without a fix.  This
module names the rules and describes them; what each of them reports is in the
modules beside it.
-/

namespace GomegaLint

/-- A rule. -/
inductive Rule where
  | lenAssertion
  | capAssertion
  | nilAssertion
  | errorAssertion
  | compareAssertion
  | haveOccurredNonError
  | succeedNonError
  | asyncCall
  | comparePointerValue
  deriving DecidableEq, Repr, Inhabited

namespace Rule

/-- Every rule, in reporting order. -/
def all : List Rule :=
  [lenAssertion, capAssertion, nilAssertion, errorAssertion, compareAssertion,
   haveOccurredNonError, succeedNonError, asyncCall, comparePointerValue]

theorem mem_all (r : Rule) : r ∈ all := by
  cases r <;> decide

def name : Rule → String
  | lenAssertion => "len_assertion"
  | capAssertion => "cap_assertion"
  | nilAssertion => "nil_assertion"
  | errorAssertion => "error_assertion"
  | compareAssertion => "compare_assertion"
  | haveOccurredNonError => "have_occurred_non_error"
  | succeedNonError => "succeed_non_error"
  | asyncCall => "async_func_call"
  | comparePointerValue => "compare_pointer_value"

def category : Rule → Category
  | lenAssertion | capAssertion => .length
  | nilAssertion => .nil
  | errorAssertion | haveOccurredNonError | succeedNonError => .error
  | compareAssertion | comparePointerValue => .comparison
  | asyncCall => .async

def description : Rule → String
  | lenAssertion => "Use HaveLen/BeEmpty instead of asserting on len(x)"
  | capAssertion => "Use HaveCap instead of asserting on cap(x)"
  | nilAssertion => "Use BeNil instead of comparing with nil"
  | errorAssertion => "Use HaveOccurred/Succeed instead of comparing an error with nil"
  | compareAssertion => "Use Equal/BeNumerically instead of asserting a comparison is true"
  | haveOccurredNonError => "HaveOccurred only matches error values"
  | succeedNonError => "Succeed only matches a single error value"
  | asyncCall => "Pass the function itself to Eventually/Consistently, not its result"
  | comparePointerValue => "Comparing a pointer with a non-pointer value always fails"

/-- What the fix of a rule does; `none` for a rule that only reports. -/
def fixDescription? : Rule → Option String
  | lenAssertion =>
    some "Move the argument of len into the actual value and use HaveLen or BeEmpty"
  | capAssertion => some "Move the argument of cap into the actual value and use HaveCap"
  | nilAssertion => some "Assert on the compared value with BeNil"
  | errorAssertion =>
    some "Use HaveOccurred for error values and Succeed for calls returning an error"
  | compareAssertion => some "Assert on the left operand with a comparison matcher"
  | haveOccurredNonError => none
  | succeedNonError => none
  | asyncCall => some "Pass the function and move its arguments to WithArguments"
  | comparePointerValue => some "Wrap the matcher with HaveValue"

/-- Other names of rules. -/
def aliases : List (String × String) :=
  [("length_assertion", "len_assertion"), ("err_assertion", "error_assertion"),
   ("comparison_assertion", "compare_assertion"), ("async_assertion", "async_func_call")]

/-- The name that an alias stands for; any other name stands for itself. -/
def canonicalName (s : String) : String := (aliases.lookup s).getD s

def isAlias (s : String) : Bool := (aliases.lookup s).isSome

/-- The name of a rule, no alias. -/
def isName (s : String) : Bool := all.any (·.name == s)

def isNameOrAlias (s : String) : Bool := isName s || isAlias s

end Rule

/-- What a rule says of an assertion: a message, and the text of the fixed
assertion if there is a fix. -/
structure Report where
  message : String
  fix : Option String := none
  deriving DecidableEq, Repr, Inhabited

namespace Report

/-- The report of a wrong check, with the draft that mends it. -/
def wrongCheck (what : String) (d : Draft) : Report :=
  { message := "wrong " ++ what ++ " check; consider using `" ++ d.print ++ "` instead"
    fix := some d.print }

end Report

end GomegaLint
