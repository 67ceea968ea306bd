import GomegaLint.CommandLine.Report
import GomegaLint.Config.Basic
import GomegaLint.Fix.Basic
import GomegaLint.Lint.Basic

/-!
# Running the program

`Command.run` carries a command out on a workspace.  It gives what is printed and
the code the program ends with, or an error, and the files that were written
before that.
-/

namespace GomegaLint

/-- Why a run failed. -/
inductive RunError where
  | config (e : ConfigError)
  | unknownRule (e : UnknownRule)
  /-- A path that was given does not lead to a file or directory. -/
  | badPath (path : String) (e : FileError)
  | unreadable (e : FileError)
  | fixWithoutPaths
  /-- Some constant of a file cannot be computed. -/
  | overflow
  | badFix (e : EditError)
  deriving DecidableEq, Repr, Inhabited

namespace RunError

def message : RunError → String
  | config e => e.message
  | unknownRule e => e.message
  | badPath path e => "cannot read " ++ path ++ ": " ++ e.message
  | unreadable e => e.message
  | fixWithoutPaths => "--fix requires file paths (stdin not supported)"
  | overflow => "attempt to divide with overflow"
  | badFix e => e.message

end RunError

/-- What a run prints, and its exit code. -/
structure Output where
  text : String
  code : Nat := 0
  deriving DecidableEq, Repr, Inhabited

/-- The outcome of a run, and the files written in it, in order. -/
structure Run where
  outcome : Except RunError Output
  writes : List (String × String) := []

namespace Options

/-- The directory that the search for a configuration starts in. -/
def startDirectory (o : Options) (w : Workspace) : String :=
  match o.paths with
  | [] => w.current
  | p :: _ => if w.isFile p then (Path.parent? p).getD "." else p

/-- The rules and levels of a run. -/
def linter (o : Options) (w : Workspace) : Except RunError Linter := do
  let loaded ← (Config.load w o.config (o.startDirectory w)).mapError .config
  let config := (loaded.map Prod.snd).getD {}
  let rules ← (selectRules o.only o.skip config.disabled).mapError .unknownRule
  return ⟨rules, config.settings⟩

/-- The files that the paths stand for. -/
def files (o : Options) (w : Workspace) : Except RunError (List String) := do
  let found ← o.paths.mapM fun p => (w.goFiles p).mapError (.badPath p)
  return Path.sorted found.flatten

end Options

/-! ## Linting -/

namespace Linter

/-- Lint a text under a file name. -/
def lintText (l : Linter) (name text : String) : Except RunError (List Diagnostic) :=
  match l.lint text.toList with
  | some ds => .ok (ds.map (·.inFile name))
  | none => .error .overflow

/-- Lint a file. -/
def lintFile (l : Linter) (w : Workspace) (path : String) : Except RunError (List Diagnostic) := do
  l.lintText path (← (w.read path).mapError .unreadable)

end Linter

namespace Options

/-- The diagnostics of the files of a workspace, or of the standard input. -/
def diagnostics (o : Options) (w : Workspace) (stdin : Except FileError String) :
    Except RunError (List Diagnostic) := do
  let l ← o.linter w
  if o.paths.isEmpty then l.lintText "stdin" (← stdin.mapError .unreadable)
  else return (← (← o.files w).mapM (l.lintFile w)).flatten

/-- The run fails on these diagnostics. -/
def failsOn (o : Options) (ds : List Diagnostic) : Bool :=
  ds.any (·.level == .error) || (o.denyWarnings && !ds.isEmpty)

/-- Lint and report. -/
def lint (o : Options) (w : Workspace) (stdin : Except FileError String) :
    Except RunError Output := do
  let ds ← o.diagnostics w stdin
  return ⟨Diagnostic.report (o.format.getD .pretty) o.denyWarnings ds,
    if o.failsOn ds then 1 else 0⟩

end Options

/-! ## Fixing -/

/-- What fixing some files has done. -/
structure FixTally where
  workspace : Workspace
  writes : List (String × String) := []
  applied : Nat := 0
  skipped : Nat := 0

namespace FixTally

/-- The number of passes over a file. -/
def maxPasses : Nat := 10

/-- Fix one file. -/
def fixFile (l : Linter) (t : FixTally) (path : String) : Except RunError FixTally := do
  let text ← (t.workspace.read path).mapError .unreadable
  match fixUntilSettled l.lint text.toList maxPasses with
  | .error .unlintable => throw .overflow
  | .error (.edit e) => throw (.badFix e)
  | .ok r =>
    let fixed := String.ofList r.source
    let t := { t with skipped := t.skipped + r.skipped }
    if r.applied = 0 || fixed = text then return t
    return { t with
      workspace := t.workspace.write path fixed
      writes := t.writes ++ [(path, fixed)]
      applied := t.applied + r.applied }

def summary (t : FixTally) : String :=
  unlines (
    ["Applied " ++ toString t.applied ++ " fix(es) to " ++ toString t.writes.length ++ " file(s)"] ++
    if t.skipped = 0 then []
    else [toString t.skipped ++
      " fix(es) left unapplied (not machine-applicable or overlapping)"])

/-- Fix files one after the other, until one fails. -/
def fixFiles (l : Linter) (t : FixTally) : List String → Run
  | [] => ⟨.ok ⟨t.summary, 0⟩, t.writes⟩
  | path :: paths =>
    match t.fixFile l path with
    | .error e => ⟨.error e, t.writes⟩
    | .ok t => fixFiles l t paths

end FixTally

/-- Fix the files of a workspace. -/
def Options.fixAll (o : Options) (w : Workspace) : Run :=
  let files : Except RunError (Linter × List String) := do
    if o.paths.isEmpty then throw .fixWithoutPaths
    let l ← o.linter w
    return (l, ← o.files w)
  match files with
  | .error e => ⟨.error e, []⟩
  | .ok (l, paths) => FixTally.fixFiles l { workspace := w } paths

/-! ## Commands -/

/-- How the program is used. -/
def helpText : String :=
  unlines [
    "Lint Gomega assertions in Go tests",
    "",
    "Usage: gomega-clippy [OPTIONS] [PATH]...",
    "       gomega-clippy <COMMAND>",
    "",
    "Commands:",
    "  lint        Lint files or directories",
    "  list-rules  List available lints",
    "  explain     Explain a lint",
    "  help        Print this message or the help of the given subcommand(s)",
    "",
    "Arguments:",
    "  [PATH]...  Go files or directories to lint. Defaults to stdin when absent",
    "",
    "Options:",
    "      --format <FORMAT>  Output format [default: pretty] [possible values: pretty, json, github]",
    "      --only <ONLY>      Only run these lints (comma-separated)",
    "      --skip <SKIP>      Skip these lints (comma-separated)",
    "      --deny-warnings    Exit with code 1 if any diagnostics are emitted",
    "      --fix              Apply the suggested fixes to the files in place",
    "      --config <FILE>    Path to a gomega-clippy.toml (default: search upward from the first PATH)",
    "  -V, --version          Print version"]

/-- The name of the program and its version. -/
def versionText : String := "gomega-clippy 0.1.0\n"

namespace Command

/-- Carry out a command. -/
def run (w : Workspace) (stdin : Except FileError String) : Command → Run
  | help => ⟨.ok ⟨helpText, 0⟩, []⟩
  | version => ⟨.ok ⟨versionText, 0⟩, []⟩
  | listRules => ⟨.ok ⟨Rule.listing, 0⟩, []⟩
  | explain name =>
    match Rule.find? Rule.all name with
    | some r => ⟨.ok ⟨r.explanation, 0⟩, []⟩
    | none => ⟨.error (.unknownRule ⟨name⟩), []⟩
  | lint o => if o.fix then o.fixAll w else ⟨o.lint w stdin, []⟩

end Command

end GomegaLint
