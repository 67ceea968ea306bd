import GomegaLint.Constant.Basic

/-!
# Values of literals

The value of an integer, float or rune literal as it is written, where it has
one: an integer in the 128-bit range, a decimal float, a rune that is a single
character or one of six short escapes.
-/

namespace GomegaLint

namespace Literal

/-- The value of a digit of any base up to sixteen. -/
def digitValue (c : Char) : Option Nat :=
  if '0' ≤ c ∧ c ≤ '9' then some (c.toNat - '0'.toNat)
  else if 'a' ≤ c ∧ c ≤ 'f' then some (c.toNat - 'a'.toNat + 10)
  else none

/-- The number that a row of digits of a base writes; `none` if there is no
digit or one that the base does not have. -/
def natOfDigits? (base : Nat) (cs : List Char) : Option Nat :=
  if cs.isEmpty then none
  else cs.foldlM (fun n c => do
    let d ← digitValue c
    if d < base then some (n * base + d) else none) 0

/-- The text without underscores. -/
def withoutUnderscores (s : String) : List Char := s.toList.filter (· != '_')

/-- The base of an integer literal and its digits. -/
def baseAndDigits : List Char → Nat × List Char
  | '0' :: 'x' :: cs => (16, cs)
  | '0' :: 'b' :: cs => (2, cs)
  | '0' :: 'o' :: cs => (8, cs)
  | '0' :: c :: cs => (8, c :: cs)
  | cs => (10, cs)

/-- The value of an integer literal, if it is in range. -/
def int? (text : String) : Option Int := do
  let (base, ds) := baseAndDigits ((withoutUnderscores text).map Char.toLower)
  let n ← natOfDigits? base ds
  if (n : Int) ≤ Constant.maxInt then some n else none

/-- The exponent of a decimal float. -/
def exponent? : List Char → Option Int
  | [] => some 0
  | c :: cs =>
    if c == 'e' || c == 'E' then
      match cs with
      | '+' :: ds => (natOfDigits? 10 ds).map Int.ofNat
      | '-' :: ds => (natOfDigits? 10 ds).map fun n => -(n : Int)
      | ds => (natOfDigits? 10 ds).map Int.ofNat
    else none

/-- The value of a decimal float literal. -/
def float? (text : String) : Option Float := do
  let cs := withoutUnderscores text
  let whole := cs.takeWhile Char.isDigit
  let rest := cs.dropWhile Char.isDigit
  let (part, rest) := match rest with
    | '.' :: ds => (ds.takeWhile Char.isDigit, ds.dropWhile Char.isDigit)
    | ds => ([], ds)
  let e ← exponent? rest
  let m ← natOfDigits? 10 (whole ++ part)
  return doubleOfDecimal m (e - part.length)

/-- The text between two equal quotes. -/
def between? (quote : Char) (s : String) : Option (List Char) :=
  match s.toList with
  | c :: cs =>
    if c = quote ∧ cs.getLast? = some quote then some cs.dropLast else none
  | [] => none

/-- The value of a rune literal: that of a single character or of the escape its
first two characters make. -/
def rune? (text : String) : Option Int := do
  let cs ← between? '\'' text
  match cs with
  | [c] => some c.toNat
  | '\\' :: 'n' :: _ => some 10
  | '\\' :: 't' :: _ => some 9
  | '\\' :: 'r' :: _ => some 13
  | '\\' :: '0' :: _ => some 0
  | '\\' :: '\\' :: _ => some 92
  | '\\' :: '\'' :: _ => some 39
  | _ => none

/-- The contents of a string literal of either form. -/
def contents? (text : String) : Option String :=
  (between? '"' text <|> between? '\x60' text).map String.ofList

/-- The contents of a string literal, or the text itself if it is none. -/
def unquote (text : String) : String := (contents? text).getD text

end Literal

end GomegaLint
