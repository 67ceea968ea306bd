/-!
# Go types

Types as far as assertions care about them: structs have no fields here,
interfaces and defined types list the names of their methods.
-/

namespace GomegaLint

/-- A predeclared type, or the type of an untyped constant. -/
inductive BasicKind where
  | bool
  | int | int8 | int16 | int32 | int64
  | uint | uint8 | uint16 | uint32 | uint64 | uintptr
  | float32 | float64
  | complex64 | complex128
  | string
  | untypedBool | untypedInt | untypedRune | untypedFloat | untypedString | untypedNil
  deriving DecidableEq, Repr, Inhabited

namespace BasicKind

def name : BasicKind → String
  | bool => "bool"
  | int => "int"
  | int8 => "int8"
  | int16 => "int16"
  | int32 => "int32"
  | int64 => "int64"
  | uint => "uint"
  | uint8 => "uint8"
  | uint16 => "uint16"
  | uint32 => "uint32"
  | uint64 => "uint64"
  | uintptr => "uintptr"
  | float32 => "float32"
  | float64 => "float64"
  | complex64 => "complex64"
  | complex128 => "complex128"
  | string => "string"
  | untypedBool => "untyped bool"
  | untypedInt => "untyped int"
  | untypedRune => "untyped rune"
  | untypedFloat => "untyped float"
  | untypedString => "untyped string"
  | untypedNil => "untyped nil"

/-- The predeclared types, without those of untyped constants. -/
def predeclared : List BasicKind :=
  [bool, int, int8, int16, int32, int64, uint, uint8, uint16, uint32, uint64, uintptr,
   float32, float64, complex64, complex128, string]

/-- The type a predeclared name stands for. -/
def ofName? : String → Option BasicKind
  | "byte" => some uint8
  | "rune" => some int32
  | s => predeclared.find? (·.name == s)

def isUntyped : BasicKind → Bool
  | untypedBool | untypedInt | untypedRune | untypedFloat | untypedString | untypedNil => true
  | _ => false

def isNumeric : BasicKind → Bool
  | bool | string | untypedBool | untypedString | untypedNil => false
  | _ => true

end BasicKind

/-- A Go type. -/
inductive GoType where
  | basic (kind : BasicKind)
  /-- A defined type; the path of a predeclared one is empty. -/
  | named (path name : String) (methods : List String) (definition : GoType)
  | pointer (elem : GoType)
  | slice (elem : GoType)
  | map (key value : GoType)
  | chan (elem : GoType)
  | struct
  | interface (methods : List String)
  | signature (params results : List GoType)
  /-- What a call with several results gives. -/
  | tuple (items : List GoType)
  /-- A predeclared function. -/
  | builtin (name : String)
  deriving Repr, Inhabited

namespace GoType

/-- The predeclared type `error`. -/
def error : GoType := named "" "error" [] (interface ["Error"])

/-- The type of contexts. -/
def context : GoType :=
  named "context" "Context" [] (interface ["Deadline", "Done", "Err", "Value"])

/-- The type a defined type is built from; any other type is its own. -/
def underlying : GoType → GoType
  | named _ _ _ d => d.underlying
  | t => t

def isBasic : GoType → Bool
  | basic _ => true
  | _ => false

def isNamed : GoType → Bool
  | named .. => true
  | _ => false

def isPointer : GoType → Bool
  | pointer _ => true
  | _ => false

def isTuple : GoType → Bool
  | tuple _ => true
  | _ => false

def isSignature : GoType → Bool
  | signature .. => true
  | _ => false

def isNumeric (t : GoType) : Bool :=
  match t.underlying with
  | basic k => k.isNumeric
  | _ => false

def isInterface (t : GoType) : Bool :=
  match t.underlying with
  | interface _ => true
  | _ => false

def isUntypedNil : GoType → Bool
  | basic .untypedNil => true
  | _ => false

/-- The type of an untyped constant. -/
def isUntyped : GoType → Bool
  | basic k => k.isUntyped
  | _ => false

/-- The type a variable gets from a value of this type; `nil` gives none. -/
def default? : GoType → Option GoType
  | basic .untypedBool => some (basic .bool)
  | basic .untypedInt => some (basic .int)
  | basic .untypedRune => some (basic .int32)
  | basic .untypedFloat => some (basic .float64)
  | basic .untypedString => some (basic .string)
  | basic .untypedNil => none
  | t => some t

/-- Methods are compared by name: a type is an error when it is `error` itself,
an interface that lists `Error`, or a defined type, or a pointer to one, that
declares `Error`. -/
def implementsError : GoType → Bool
  | named path name methods definition =>
    (path == "" && name == "error") || methods.contains "Error" ||
      match definition with
      | interface ms => ms.contains "Error"
      | _ => false
  | pointer (named _ _ methods _) => methods.contains "Error"
  | interface methods => methods.contains "Error"
  | _ => false

/-- A function whose only result is an error once defined types are seen
through. -/
def isErrorFunction : GoType → Bool
  | signature _ [r] => r.underlying.implementsError
  | _ => false

/-! ## Printing -/

/-- The names of methods as an interface lists them. -/
def printMethods (methods : List String) : String :=
  "; ".intercalate (methods.map (· ++ "()"))

mutual

/-- The text of a type. -/
def print : GoType → String
  | basic k => k.name
  | named path name _ _ => if path = "" then name else path ++ "." ++ name
  | pointer t => "*" ++ t.print
  | slice t => "[]" ++ t.print
  | map k v => "map[" ++ k.print ++ "]" ++ v.print
  | chan t => "chan " ++ t.print
  | struct => "struct\x7b...\x7d"
  | interface ms => "interface\x7b" ++ printMethods ms ++ "\x7d"
  | signature ps rs => "func(" ++ printList ps ++ ")" ++ printResults rs
  | tuple ts => "(" ++ printList ts ++ ")"
  | builtin n => "builtin " ++ n

/-- Types with commas between them. -/
def printList : List GoType → String
  | [] => ""
  | t :: ts => t.print ++ printLater ts

def printLater : List GoType → String
  | [] => ""
  | t :: ts => ", " ++ t.print ++ printLater ts

/-- The results of a signature; several stand in parentheses. -/
def printResults : List GoType → String
  | [] => ""
  | r :: rs =>
    match rs with
    | [] => " " ++ r.print
    | _ => " (" ++ r.print ++ printLater rs ++ ")"

end

/-- The text `needle` stands somewhere in `hay`. -/
def occursIn (needle : List Char) : List Char → Bool
  | [] => needle.isEmpty
  | c :: cs => needle.isPrefixOf (c :: cs) || occursIn needle cs

/-- A type of assertion objects, by value or by pointer. -/
def isGomega (t : GoType) : Bool :=
  let text := match t with
    | pointer e => some e.print
    | named .. => some t.print
    | _ => none
  text.any fun s =>
    ["github.com/onsi/gomega/internal.Gomega", "github.com/onsi/gomega/types.Gomega"].any
      fun p => occursIn p.toList s.toList

def isContext (t : GoType) : Bool := t.print == "context.Context"

end GoType

end GomegaLint
