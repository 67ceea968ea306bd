import GomegaLint.Text.Bytes

/-!
# Rows and columns

A `Position` is a one-based row and column; columns count characters.  An
offset past the end, or inside a character, is read as the end of the text.
-/

namespace GomegaLint

/-- A one-based row and column. -/
structure Position where
  row : Nat
  column : Nat
  deriving DecidableEq, Repr, Inhabited

namespace Position

/-- The position behind a text. -/
def after (cs : List Char) : Position :=
  ⟨lineBreaks cs + 1, (cs.reverse.takeWhile (· != '\n')).length + 1⟩

/-- The position of a byte offset in a text. -/
def ofOffset (source : List Char) (offset : Nat) : Position :=
  match splitAtByte? (min offset (byteLength source)) source with
  | some (before, _) => after before
  | none => after source

end Position

end GomegaLint
