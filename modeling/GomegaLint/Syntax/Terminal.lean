import GomegaLint.Syntax.Kind

/-!
# Terminals

The tokens of Go fall into classes, the terminals of its grammar: every keyword
and every symbol is a class of its own, names and literals have one class for
each form, and a line break and the end of the text are tokens too, for they
end statements.
-/

namespace GomegaLint

/-- A class of tokens. -/
inductive Terminal where
  | ending
  | identifier
  | newline
  | nul
  | int
  | float
  | imaginary
  | rune
  | string
  | rawString
  | keyword (text : String)
  | symbol (text : String)
  deriving DecidableEq, Repr, Inhabited

namespace Terminal

/-- The kind of the leaf that a token of the class becomes. -/
def kind : Terminal → Kind
  | identifier => .identifier
  | int => .intLiteral
  | float => .floatLiteral
  | imaginary => .imaginaryLiteral
  | rune => .runeLiteral
  | string => .interpretedStringLiteral
  | rawString => .rawStringLiteral
  | keyword "nil" => .nilLiteral
  | keyword "true" => .trueLiteral
  | keyword "false" => .falseLiteral
  | keyword "iota" => .iotaLiteral
  | keyword "_" => .blankIdentifier
  | _ => .token

end Terminal

end GomegaLint
