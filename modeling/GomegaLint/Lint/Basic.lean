import GomegaLint.Directive.Site
import GomegaLint.Inference.Walk
import GomegaLint.Lint.Diagnostic
import GomegaLint.Syntax.Parse

/-!
# Linting

A `Linter` runs its rules over every assertion of a file, in the order of the
file and for each assertion in the order of the rules.  What is reported is kept
in a `Linter.Context`, which also knows the directives that hold: those before
the package clause, and those at the statement of the assertion that is checked.
A report is dropped when one of them silences the category of the rule, or when
the level of the rule is `Level.allow`.

A file that does not import Gomega has no assertions.
-/

namespace GomegaLint

/-- The rules that are run, and their levels. -/
structure Linter where
  rules : List Rule := Rule.all
  settings : Settings := {}
  deriving Repr, Inhabited

namespace Linter

/-- What a run works with, and what it has reported. -/
structure Context where
  source : List Char
  settings : Settings
  /-- The directives before the package clause. -/
  file : Scope
  /-- The directives at the statement of the last assertion. -/
  site : Scope := {}
  diagnostics : List Diagnostic := []
  deriving Repr, Inhabited

namespace Context

def setSite (c : Context) (site : Scope) : Context := { c with site }

/-- The level of a rule where a directive may silence it. -/
def levelOf (c : Context) (r : Rule) : Level :=
  if c.file.silences r.category || c.site.silences r.category then .allow
  else c.settings.levelFor r.name

def add (c : Context) (ds : List Diagnostic) : Context :=
  { c with diagnostics := c.diagnostics ++ ds }

/-- Add a report of a rule unless the rule is silent. -/
def push (c : Context) (r : Rule) (span : Span) (report : Report) : Context :=
  if c.levelOf r = .allow then c
  else c.add [.ofReport c.source r (c.levelOf r) span report]

/-- Check an assertion by a rule. -/
def check (c : Context) (a : Assertion) (r : Rule) : Context :=
  match r.check a with
  | some report => c.push r a.span report
  | none => c

end Context

/-- Check an assertion by all rules, one after the other. -/
def checkAll (l : Linter) (c : Context) (a : Assertion) : Context :=
  l.rules.foldl (fun c r => c.check a r) c

/-- What the rules report of an assertion. -/
def lintAssertion (l : Linter) (source : List Char) (file site : Scope) (a : Assertion) :
    List Diagnostic :=
  (l.checkAll { source, settings := l.settings, file, site } a).diagnostics

/-- Check a call by all rules if it is an assertion, under the directives at its statement. -/
def visit (l : Linter) (style : ImportStyle) (o : Oracle) (c : Context) (p : Node × Site) :
    Context :=
  match p.1.toCall?.bind fun call => Assertion.of? style o call call with
  | some a => l.checkAll (c.setSite p.2.scope) a
  | none => c

/-- What the rules report of the assertions of a tree, by what is known of its
expressions. -/
def lintAssertions (l : Linter) (source : List Char) (style : ImportStyle) (o : Oracle)
    (root : Node) : List Diagnostic :=
  let start : Context := { source, settings := l.settings, file := fileScope root }
  (root.assertions.foldl (l.visit style o) start).diagnostics

/-- Lint a parsed file by what is known of its expressions. -/
def lintTree (l : Linter) (source : List Char) (root : Node) (o : Oracle) : List Diagnostic :=
  match ImportStyle.ofImports? (Import.ofFile root) with
  | some style => l.lintAssertions source style o root
  | none => []

/-- Lint the text of a file, by the types that can be inferred from it.  There
is no answer if some constant of the file cannot be computed. -/
def lint (l : Linter) (source : List Char) : Option (List Diagnostic) :=
  let root := parse (String.ofList source)
  match ImportStyle.ofImports? (Import.ofFile root) with
  | none => some []
  | some style => do
    let types ← inferTypes style root
    return l.lintAssertions source style types.oracle root

end Linter

end GomegaLint
