import GomegaLint.CommandLine.Options
import GomegaLint.Lint.Diagnostic

/-!
# Writing diagnostics

Diagnostics are written one to a line, as annotations of a build service, or as
JSON in the order of the files and of the places in them.
-/

namespace GomegaLint

/-- A text of one line each. -/
def unlines (lines : List String) : String := String.join (lines.map (· ++ "\n"))

namespace Diagnostic

def fileName (d : Diagnostic) : String := d.file.getD "<unknown>"

/-! ## Plain lines -/

def prettyLine (d : Diagnostic) : String :=
  d.fileName ++ ":" ++ toString d.location.start.row ++ ":" ++ toString d.location.start.column ++
    ": " ++ d.level.label ++ ": " ++ d.rule.name ++ ": " ++ d.message

/-- Diagnostics on lines of their own, and their number. -/
def pretty (ds : List Diagnostic) : String :=
  unlines (ds.map prettyLine ++ [toString ds.length ++ " diagnostics"])

/-! ## Annotations -/

/-- The text with another one in the place of every occurrence of a character. -/
def substitute (c : Char) (text : String) (s : String) : String :=
  String.ofList (s.toList.flatMap fun d => if d = c then text.toList else [d])

/-- A text as it is written in an annotation, without line ends.  The sign that
marks them goes first, so that it is not replaced where it marks one. -/
def escapeData (s : String) : String :=
  substitute '\n' "%0A" (substitute '\r' "%0D" (substitute '%' "%25" s))

/-- The diagnostic fails the run. -/
def isFatal (denyWarnings : Bool) (d : Diagnostic) : Bool :=
  d.level == .error || (denyWarnings && d.level == .warn)

def annotationLine (denyWarnings : Bool) (d : Diagnostic) : String :=
  "::" ++ (if d.isFatal denyWarnings then "error" else "warning") ++
    " file=" ++ escapeData d.fileName ++
    ",line=" ++ toString d.location.start.row ++ ",col=" ++ toString d.location.start.column ++
    ",title=" ++ d.rule.name ++ "::" ++ escapeData d.message

def annotations (denyWarnings : Bool) (ds : List Diagnostic) : String :=
  unlines (ds.map (annotationLine denyWarnings))

/-! ## JSON -/

def hexDigit (n : Nat) : Char :=
  if n < 10 then Char.ofNat ('0'.toNat + n) else Char.ofNat ('a'.toNat + n - 10)

/-- A character in a JSON string. -/
def escapeJsonChar (c : Char) : List Char :=
  match c with
  | '"' => "\\\"".toList
  | '\\' => "\\\\".toList
  | '\n' => "\\n".toList
  | '\r' => "\\r".toList
  | '\t' => "\\t".toList
  | '\x08' => "\\b".toList
  | '\x0c' => "\\f".toList
  | c =>
    if c.toNat < 32 then "\\u00".toList ++ [hexDigit (c.toNat / 16), hexDigit (c.toNat % 16)]
    else [c]

def jsonString (s : String) : String :=
  "\"" ++ String.ofList (s.toList.flatMap escapeJsonChar) ++ "\""

/-- The members of the JSON object of a diagnostic. -/
def jsonMembers (d : Diagnostic) : List (String × String) :=
  [("file", jsonString d.fileName), ("row", toString d.location.start.row),
   ("column", toString d.location.start.column), ("end_row", toString d.location.stop.row),
   ("end_column", toString d.location.stop.column), ("level", jsonString d.level.label),
   ("lint", jsonString d.rule.name), ("message", jsonString d.message)] ++
  (d.suggestion.map fun s => ("replacement", jsonString s.replacement)).toList

def jsonObject (d : Diagnostic) : String :=
  "  \x7b\n" ++ ",\n".intercalate (d.jsonMembers.map fun (k, v) => "    \"" ++ k ++ "\": " ++ v) ++
    "\n  \x7d"

/-- The order of files, of places in them and of rule names. -/
def placedBefore (a b : Diagnostic) : Bool :=
  let key (d : Diagnostic) := (d.location.start.row, d.location.start.column)
  if a.fileName ≠ b.fileName then a.fileName < b.fileName
  else if (key a).1 ≠ (key b).1 then (key a).1 < (key b).1
  else if (key a).2 ≠ (key b).2 then (key a).2 < (key b).2
  else !(b.rule.name < a.rule.name)

def json (ds : List Diagnostic) : String :=
  match ds.mergeSort placedBefore with
  | [] => "[]\n"
  | sorted => "[\n" ++ ",\n".intercalate (sorted.map jsonObject) ++ "\n]\n"

/-- Diagnostics in a format. -/
def report (format : Format) (denyWarnings : Bool) (ds : List Diagnostic) : String :=
  match format with
  | .pretty => pretty ds
  | .json => json ds
  | .github => annotations denyWarnings ds

end Diagnostic

/-! ## Rules -/

namespace Rule

def listLine (r : Rule) : String :=
  r.name ++ "\t" ++ r.category.name ++ "\t" ++ r.description ++
    (if r.fixDescription?.isSome then " [fix]" else "")

/-- The rules by name. -/
def listing : String :=
  unlines ((all.mergeSort fun a b => !(b.name < a.name)).map listLine)

/-- What there is to know of a rule. -/
def explanation (r : Rule) : String :=
  unlines (
    ["name: " ++ r.name, "category: " ++ r.category.name, "description: " ++ r.description] ++
    match r.fixDescription? with
    | some fix => ["fix: available", "fix description: " ++ fix]
    | none => ["fix: not available"])

end Rule

end GomegaLint
