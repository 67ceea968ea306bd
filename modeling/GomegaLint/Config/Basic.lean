import GomegaLint.Lint.Settings
import GomegaLint.Toml.Parse
import GomegaLint.Workspace.Basic

/-!
# Configuration

A configuration file has a table `lints`, with a list of `disabled` rules and
the levels of others.  Anything else at the top of the file is passed over.
The file is the nearest one in a directory or above it, unless it is named.
-/

namespace GomegaLint

/-- The settings of a configuration file, names as they are written. -/
structure Config where
  disabled : List String := []
  levels : List (String × Level) := []
  deriving DecidableEq, Repr, Inhabited

/-- Why a configuration could not be loaded. -/
inductive ConfigError where
  | unreadable (path : String) (e : FileError)
  | malformed (path : String) (fault : Toml.Fault)
  deriving DecidableEq, Repr, Inhabited

namespace ConfigError

def message : ConfigError → String
  | unreadable path e => "failed to read config file: " ++ path ++ ": " ++ e.message
  | malformed path .malformed => "failed to parse config file: " ++ path
  | malformed path .tooDeep => "failed to parse config file: " ++ path ++ ": recursion limit"

end ConfigError

namespace Config

/-- The name of a configuration file. -/
def fileName : String := "gomega-clippy.toml"

/-- A level is given by its name. -/
def level? : Toml.Value → Option Level
  | .string s => Level.ofName? s
  | _ => none

def string? : Toml.Value → Option String
  | .string s => some s
  | _ => none

/-- The names of disabled rules. -/
def disabled? : Option Toml.Value → Option (List String)
  | none => some []
  | some (.array items) => items.mapM string?
  | some _ => none

/-- The configuration in a table of lints. -/
def ofLints? (entries : List (String × Toml.Value)) : Option Config := do
  let disabled ← disabled? (entries.lookup "disabled")
  let levels ← (entries.filter (·.1 != "disabled")).mapM fun (name, v) => do
    return (name, ← level? v)
  return ⟨disabled, levels⟩

/-- The configuration in the entries of a document. -/
def ofEntries? (entries : List (String × Toml.Value)) : Option Config :=
  match entries.lookup "lints" with
  | none => some {}
  | some (.table lints) => ofLints? lints
  | some _ => none

/-- The configuration that a text writes. -/
def parse (text : String) : Except Toml.Fault Config := do
  Toml.Fault.orMalformed (ofEntries? (← Toml.parse text))

/-- The levels of the rules. -/
def settings (c : Config) : Settings := .of c.levels c.disabled

/-! ## Files -/

/-- The configuration in a file. -/
def read (w : Workspace) (path : String) : Except ConfigError Config :=
  match w.read path with
  | .error e => .error (.unreadable path e)
  | .ok text => (parse text).mapError (.malformed path)

/-- The nearest configuration file in a directory or above it. -/
def find? (w : Workspace) (start : String) : Option String :=
  ((Path.upward start).map (Path.join · fileName)).find? w.isFile

/-- The configuration that is named, or else the nearest one, with its path. -/
def load (w : Workspace) (named : Option String) (start : String) :
    Except ConfigError (Option (String × Config)) := do
  match named.or (find? w start) with
  | none => return none
  | some path => return some (path, ← read w path)

end Config

end GomegaLint
