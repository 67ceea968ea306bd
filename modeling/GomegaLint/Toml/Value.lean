/-!
# Values of a configuration file

A document is first cut into tokens: `Toml.Written` and `Toml.Statement` are
values and lines in which names, strings, numbers and dates are not yet read and
may be badly written.  `Toml.Key` and `Toml.Value` are what they stand for.
-/

namespace GomegaLint

namespace Toml

/-! ## As it is written -/

/-- A name, a string with its quotes, or any other value that is not in brackets.
Where one is missing the token is empty. -/
abbrev Token := List Char

/-- A value as it is written. -/
inductive Written where
  | token (t : Token)
  | array (items : List Written)
  | inlineTable (entries : List (List Token × Written))
  deriving Repr, Inhabited

/-- A line of a document.  A key is written as its names. -/
inductive Statement where
  /-- The header of a table. -/
  | table (names : List Token)
  /-- The header of an element of an array of tables. -/
  | element (names : List Token)
  | entry (names : List Token) (value : Written)
  deriving Repr, Inhabited

/-! ## What it stands for -/

/-- A key: the names before its last dot, and the one behind it. -/
structure Key where
  path : List String := []
  last : String
  deriving DecidableEq, Repr, Inhabited

namespace Key

/-- The names of a key. -/
def names (k : Key) : List String := k.path ++ [k.last]

/-- The most names that a key can have. -/
def maxNames : Nat := 80

def isTooDeep (k : Key) : Bool := maxNames < k.names.length

end Key

/-- A value.  Floats and dates are kept as they are written. -/
inductive Value where
  | string (s : String)
  | integer (i : Int)
  | float (text : String)
  | boolean (b : Bool)
  | datetime (text : String)
  | array (items : List Value)
  | table (entries : List (String × Value))
  deriving Repr, Inhabited

/-- What is wrong with a document. -/
inductive Fault where
  /-- It is badly written, defines something twice, or holds a number that is too
  large. -/
  | malformed
  /-- A key has too many names. -/
  | tooDeep
  deriving DecidableEq, Repr, Inhabited

end Toml

end GomegaLint
