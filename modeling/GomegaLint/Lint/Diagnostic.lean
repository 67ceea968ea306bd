import GomegaLint.Lint.Settings
import GomegaLint.Text.Position

/-!
# Diagnostics

A `Diagnostic` is a report placed in a file, at a level, with the edit that its
fix makes.
-/

namespace GomegaLint

/-- How far a suggestion can be trusted. -/
inductive Applicability where
  | machineApplicable
  | maybeIncorrect
  | hasPlaceholders
  | unspecified
  deriving DecidableEq, Repr, Inhabited

/-- A text to put in the place of a diagnostic. -/
structure Suggestion where
  message : String
  replacement : String
  applicability : Applicability
  deriving DecidableEq, Repr, Inhabited

namespace Suggestion

/-- The suggestion of a fix. -/
def ofFix (replacement : String) : Suggestion :=
  ⟨"replace with `" ++ replacement ++ "`", replacement, .machineApplicable⟩

end Suggestion

/-- A place in a file. -/
structure Location where
  start : Position
  stop : Position
  bytes : Span
  deriving DecidableEq, Repr, Inhabited

namespace Location

def ofSpan (source : List Char) (s : Span) : Location :=
  ⟨.ofOffset source s.start, .ofOffset source s.stop, s⟩

end Location

/-- A finding in a file. -/
structure Diagnostic where
  rule : Rule
  level : Level
  file : Option String := none
  location : Location
  message : String
  suggestion : Option Suggestion
  deriving DecidableEq, Repr, Inhabited

namespace Diagnostic

def inFile (d : Diagnostic) (file : String) : Diagnostic := { d with file := some file }

/-- A report of a rule at an assertion. -/
def ofReport (source : List Char) (rule : Rule) (level : Level) (span : Span) (r : Report) :
    Diagnostic :=
  { rule, level, location := .ofSpan source span, message := r.message
    suggestion := r.fix.map .ofFix }

end Diagnostic

end GomegaLint
