import GomegaLint.GoType.Basic

/-!
# Well-known packages

What a file may be assumed to know of the packages it imports: the exported
types, functions and variables of a few packages of the standard library, and
of Gomega.  Of every other package nothing is known.

Parameters never decide anything, so a parameter of a type that is of no
concern has the empty interface for its type.
-/

namespace GomegaLint

namespace Packages

open GoType

def gomegaPath : String := "github.com/onsi/gomega"

def gomegaTypesPath : String := "github.com/onsi/gomega/types"

def gomegaInternalPath : String := "github.com/onsi/gomega/internal"

/-- The methods of an assertion object. -/
def gomegaMethods : List String :=
  ["Expect", "ExpectWithOffset", "Eventually", "EventuallyWithOffset", "Consistently",
   "ConsistentlyWithOffset", "Ω"]

/-- The interface of assertion objects. -/
def gomegaInterface : GoType := named gomegaTypesPath "Gomega" [] (interface gomegaMethods)

/-- The type of assertion objects. -/
def gomegaStruct : GoType := named gomegaInternalPath "Gomega" gomegaMethods struct

/-- The types that Gomega exports. -/
def gomegaType? : String → Option GoType
  | "Gomega" => some gomegaInterface
  | "WithT" | "GomegaWithT" => some gomegaStruct
  | _ => none

/-- The empty interface. -/
def any : GoType := interface []

def duration : GoType := named "time" "Duration" [] (basic .int64)

def time : GoType := named "time" "Time" [] struct

def cancelFunction : GoType := named "context" "CancelFunc" [] (signature [] [])

/-- The type that a package exports under a name. -/
def type? (path name : String) : Option GoType :=
  if path = gomegaPath then gomegaType? name
  else
    match path, name with
    | "context", "Context" => some context
    | "context", "CancelFunc" => some cancelFunction
    | "time", "Duration" => some duration
    | "time", "Time" => some time
    | "github.com/onsi/gomega/types", "Gomega" => some gomegaInterface
    | _, _ => none

/-! ## Functions and variables -/

def bool : GoType := basic .bool

def int : GoType := basic .int

def string : GoType := basic .string

def fmtMember? : String → Option GoType
  | "Errorf" => some (signature [string, slice any] [error])
  | "Sprintf" => some (signature [string, slice any] [string])
  | "Sprint" | "Sprintln" => some (signature [slice any] [string])
  | "Println" | "Printf" | "Print" => some (signature [slice any] [int, error])
  | _ => none

def errorsMember? : String → Option GoType
  | "New" => some (signature [string] [error])
  | "Join" => some (signature [slice error] [error])
  | "Unwrap" => some (signature [error] [error])
  | "Is" | "As" => some (signature [error, any] [bool])
  | _ => none

def contextMember? : String → Option GoType
  | "Background" | "TODO" => some (signature [] [context])
  | "WithCancel" => some (signature [context] [context, cancelFunction])
  | "WithTimeout" => some (signature [context, duration] [context, cancelFunction])
  | "WithDeadline" => some (signature [context, any] [context, cancelFunction])
  | _ => none

def strconvMember? : String → Option GoType
  | "Atoi" => some (signature [string] [int, error])
  | "Itoa" => some (signature [int] [string])
  | "ParseBool" => some (signature [string] [bool, error])
  | "ParseInt" => some (signature [string, int, int] [basic .int64, error])
  | "ParseFloat" => some (signature [string, int] [basic .float64, error])
  | _ => none

def osMember? : String → Option GoType
  | "ReadFile" => some (signature [string] [slice (basic .uint8), error])
  | "WriteFile" => some (signature [string, any, any] [error])
  | "Remove" | "RemoveAll" | "Chdir" => some (signature [string] [error])
  | "MkdirAll" => some (signature [string, any] [error])
  | "Getenv" => some (signature [string] [string])
  | _ => none

def stringsMember? : String → Option GoType
  | "Split" | "Fields" => some (signature [string, string] [slice string])
  | "Join" => some (signature [slice string, string] [string])
  | "Contains" | "HasPrefix" | "HasSuffix" | "EqualFold" =>
    some (signature [string, string] [bool])
  | "TrimSpace" | "ToUpper" | "ToLower" | "Title" => some (signature [string] [string])
  | "Repeat" => some (signature [string, int] [string])
  | "Index" | "Count" => some (signature [string, string] [int])
  | _ => none

def timeMember? : String → Option GoType
  | "Now" => some (signature [] [time])
  | "Nanosecond" | "Microsecond" | "Millisecond" | "Second" | "Minute" | "Hour" => some duration
  | _ => none

def gomegaMember? : String → Option GoType
  | "NewWithT" | "NewGomegaWithT" => some (signature [any] [pointer gomegaStruct])
  | "NewGomega" => some (signature [any] [gomegaInterface])
  | "Default" => some gomegaInterface
  | _ => none

/-- The type of the function or variable that a package exports under a name. -/
def member? (path name : String) : Option GoType :=
  match path with
  | "fmt" => fmtMember? name
  | "errors" => errorsMember? name
  | "context" => contextMember? name
  | "strconv" => strconvMember? name
  | "os" => osMember? name
  | "strings" => stringsMember? name
  | "time" => timeMember? name
  | "github.com/onsi/gomega" => gomegaMember? name
  | _ => none

end Packages

end GomegaLint
