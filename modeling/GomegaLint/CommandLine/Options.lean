/-!
# Arguments

The program is run on paths, with options before, between or behind them; or with
one of the commands `lint`, `list-rules`, `explain` and `help` as its first
argument.
The value of an option follows it, or an equals sign.  Behind `--` every argument
is a path.
-/

namespace GomegaLint

/-- How diagnostics are written. -/
inductive Format where
  | pretty | json | github
  deriving DecidableEq, Repr, Inhabited

namespace Format

def ofName? : String → Option Format
  | "pretty" => some pretty
  | "json" => some json
  | "github" => some github
  | _ => none

end Format

/-- The options of a run. -/
structure Options where
  paths : List String := []
  format : Option Format := none
  only : List String := []
  skip : List String := []
  denyWarnings : Bool := false
  fix : Bool := false
  config : Option String := none
  deriving DecidableEq, Repr, Inhabited

/-- What the program is asked to do. -/
inductive Command where
  | help
  | version
  | listRules
  | explain (rule : String)
  | lint (options : Options)
  deriving DecidableEq, Repr, Inhabited

/-- What is wrong with the arguments. -/
inductive UsageError where
  | unexpected (arg : String)
  | missingValue (name : String)
  | invalidValue (name value : String)
  | repeated (name : String)
  | missingRule
  | unknownCommand (name : String)
  deriving DecidableEq, Repr, Inhabited

namespace UsageError

def message : UsageError → String
  | unexpected arg => "error: unexpected argument '" ++ arg ++ "' found"
  | missingValue name => "error: a value is required for '" ++ name ++ "' but none was supplied"
  | invalidValue name value => "error: invalid value '" ++ value ++ "' for '" ++ name ++ "'"
  | repeated name => "error: the argument '" ++ name ++ "' cannot be used multiple times"
  | missingRule => "error: the following required arguments were not provided: <RULE>"
  | unknownCommand name => "error: unrecognized subcommand '" ++ name ++ "'"

end UsageError

namespace Options

/-- An argument that cannot be a value: it starts with a dash and is more than
that. -/
def isOption (arg : String) : Bool :=
  match arg.toList with
  | '-' :: _ :: _ => true
  | _ => false

/-- An option of two dashes at its first equals sign. -/
def splitValue (arg : String) : String × Option String :=
  let cs := arg.toList
  match cs.dropWhile (· != '=') with
  | _ :: value => (String.ofList (cs.takeWhile (· != '=')), some (String.ofList value))
  | [] => (arg, none)

/-- Options that a value belongs to. -/
def takesValue : String → Bool
  | "--format" | "--only" | "--skip" | "--config" => true
  | _ => false

/-- Add a path; the empty one is none. -/
def addPath (o : Options) (p : String) : Except UsageError Options :=
  if p = "" then .error (.invalidValue "[PATH]..." p) else .ok { o with paths := o.paths ++ [p] }

/-- Set an option to its value. -/
def setValue (o : Options) (name value : String) : Except UsageError Options :=
  match name with
  | "--format" =>
    if o.format.isSome then .error (.repeated name)
    else
      match Format.ofName? value with
      | some f => .ok { o with format := some f }
      | none => .error (.invalidValue name value)
  | "--config" =>
    if o.config.isSome then .error (.repeated name)
    else if value = "" then .error (.invalidValue name value)
    else .ok { o with config := some value }
  | "--only" => .ok { o with only := o.only ++ value.splitOn "," }
  | "--skip" => .ok { o with skip := o.skip ++ value.splitOn "," }
  | _ => .error (.unexpected name)

/-- Set an option that has no value. -/
def setFlag (o : Options) (name : String) : Except UsageError Options :=
  match name with
  | "--deny-warnings" =>
    if o.denyWarnings then .error (.repeated name) else .ok { o with denyWarnings := true }
  | "--fix" => if o.fix then .error (.repeated name) else .ok { o with fix := true }
  | _ => .error (.unexpected name)

/-- Asks for the version, as far as it can be asked for. -/
def asksVersion (arg : String) : Bool := arg == "--version" || "-V".toList.isPrefixOf arg.toList

/-- Read arguments one after the other; `hasVersion` says whether the version can
be asked for. -/
def parseFrom (hasVersion : Bool) (o : Options) : List String → Except UsageError Command
  | [] => .ok (.lint o)
  | arg :: rest =>
    if arg = "--" then do return .lint (← rest.foldlM addPath o)
    else if !isOption arg then do parseFrom hasVersion (← o.addPath arg) rest
    else if hasVersion && asksVersion arg then .ok .version
    else
      let (name, value?) := splitValue arg
      if takesValue name then
        match value? with
        | some value => do parseFrom hasVersion (← o.setValue name value) rest
        | none =>
          match rest with
          | [] => .error (.missingValue name)
          | value :: rest =>
            if isOption value then .error (.missingValue name)
            else do parseFrom hasVersion (← o.setValue name value) rest
      else if value?.isSome then .error (.unexpected arg)
      else do parseFrom hasVersion (← o.setFlag name) rest

end Options

namespace Command

/-- The plain arguments of a command that has no options. -/
def operands : List String → Except UsageError (List String)
  | [] => .ok []
  | arg :: rest =>
    if arg = "--" then .ok rest
    else if Options.isOption arg then .error (.unexpected arg)
    else do return arg :: (← operands rest)

/-- The first arguments that are commands. -/
def isName (arg : String) : Bool := ["lint", "list-rules", "explain", "help"].contains arg

/-- Help can be asked for on its own, or for one command. -/
def parseHelp : List String → Except UsageError Command
  | [] => .ok .help
  | [name] => if isName name then .ok .help else .error (.unknownCommand name)
  | name :: extra :: _ => .error (.unknownCommand (if isName name then extra else name))

/-- What arguments ask for. -/
def parse : List String → Except UsageError Command
  | "lint" :: args => Options.parseFrom false {} args
  | "list-rules" :: args => do
    match ← operands args with
    | [] => return .listRules
    | arg :: _ => throw (.unexpected arg)
  | "explain" :: args => do
    match ← operands args with
    | [] => throw .missingRule
    | [rule] => return .explain rule
    | _ :: arg :: _ => throw (.unexpected arg)
  | "help" :: args => parseHelp args
  | args => Options.parseFrom true {} args

end Command

end GomegaLint
