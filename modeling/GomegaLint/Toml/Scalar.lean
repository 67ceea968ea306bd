import GomegaLint.Constant.Literal
import GomegaLint.Toml.Value

/-!
# Names, numbers, dates and strings of a configuration file

`Toml.name?` and `Toml.scalar?` say what a token stands for, as a name of a key
and as a value.  `Toml.quoted?` reads a string at the front of a text, in any of
its four forms, and gives the rest.

Numbers of any size are read; `Value.isRepresentable` says which are too large.
-/

namespace GomegaLint

namespace Toml

/-! ## Numbers -/

/-- Digits, with single underscores between them; the digits alone. -/
def digits? (isDigit : Char → Bool) : List Char → Option (List Char)
  | [] => none
  | [c] => if isDigit c then some [c] else none
  | c :: '_' :: cs => if isDigit c then (digits? isDigit cs).map (c :: ·) else none
  | c :: d :: cs => if isDigit c then (digits? isDigit (d :: cs)).map (c :: ·) else none

/-- A decimal number without leading zeros. -/
def decimal? (cs : List Char) : Option (List Char) :=
  match cs with
  | '0' :: _ :: _ => none
  | _ => digits? Char.isDigit cs

/-- The sign of a number, and what is behind it. -/
def splitSign : List Char → Bool × List Char
  | '-' :: cs => (true, cs)
  | '+' :: cs => (false, cs)
  | cs => (false, cs)

/-- The value of an integer in a base other than ten; its digits may be upper
case. -/
def prefixed? (base : Nat) (cs : List Char) : Option Int := do
  let ds ← digits? (fun c => c.isDigit || c.toLower.isAlpha) cs
  (Literal.natOfDigits? base (ds.map Char.toLower)).map Int.ofNat

def integer? (cs : List Char) : Option Int :=
  match cs with
  | '0' :: 'x' :: ds => prefixed? 16 ds
  | '0' :: 'o' :: ds => prefixed? 8 ds
  | '0' :: 'b' :: ds => prefixed? 2 ds
  | _ => do
    let (negative, ds) := splitSign cs
    let n ← Literal.natOfDigits? 10 (← decimal? ds)
    some (if negative then -(n : Int) else n)

/-- The exponent of a float. -/
def exponent? : List Char → Option (List Char)
  | [] => some []
  | c :: cs =>
    if c == 'e' || c == 'E' then
      let (negative, ds) := splitSign cs
      (digits? Char.isDigit ds).map fun ds => 'e' :: (if negative then ['-'] else []) ++ ds
    else none

/-- The fraction of a float, and its exponent. -/
def fraction? : List Char → Option (List Char)
  | '.' :: cs => do
    let ds ← digits? Char.isDigit (cs.takeWhile fun c => c.isDigit || c == '_')
    let e ← exponent? (cs.dropWhile fun c => c.isDigit || c == '_')
    return '.' :: ds ++ e
  | cs => exponent? cs

/-- A float, without its underscores. -/
def float? (cs : List Char) : Option String :=
  let (_, ds) := splitSign cs
  if ds = "inf".toList ∨ ds = "nan".toList then some (String.ofList cs)
  else do
    let whole ← decimal? (ds.takeWhile fun c => c.isDigit || c == '_')
    let rest := ds.dropWhile fun c => c.isDigit || c == '_'
    if rest.isEmpty then none
    return String.ofList (whole ++ (← fraction? rest))

/-! ## Dates -/

/-- A number of exactly so many digits at the front. -/
def number? (width : Nat) (cs : List Char) : Option (Nat × List Char) := do
  let ds := cs.take width
  if ds.length ≠ width || !ds.all Char.isDigit then none
  return (← Literal.natOfDigits? 10 ds, cs.drop width)

/-- The text behind a mark. -/
def after? (mark : Char) : List Char → Option (List Char)
  | c :: cs => if c = mark then some cs else none
  | [] => none

def daysIn (year month : Nat) : Nat :=
  if month = 2 then
    if year % 4 = 0 ∧ (year % 100 ≠ 0 ∨ year % 400 = 0) then 29 else 28
  else if month = 4 ∨ month = 6 ∨ month = 9 ∨ month = 11 then 30
  else 31

/-- The text behind a date. -/
def date? (cs : List Char) : Option (List Char) := do
  let (year, cs) ← number? 4 cs
  let (month, cs) ← number? 2 (← after? '-' cs)
  let (day, cs) ← number? 2 (← after? '-' cs)
  if 1 ≤ month ∧ month ≤ 12 ∧ 1 ≤ day ∧ day ≤ daysIn year month then some cs else none

/-- The seconds of a time of day with their fraction, and the text behind them. -/
def seconds? (cs : List Char) : Option (List Char) := do
  let (second, cs) ← number? 2 cs
  if 60 < second then none
  match cs with
  | '.' :: d :: ds => if d.isDigit then some (ds.dropWhile Char.isDigit) else none
  | _ => some cs

/-- The text behind a time of day.  It can do without seconds. -/
def time? (cs : List Char) : Option (List Char) := do
  let (hour, cs) ← number? 2 cs
  let (minute, cs) ← number? 2 (← after? ':' cs)
  if 23 < hour || 59 < minute then none
  match after? ':' cs with
  | some cs => seconds? cs
  | none => some cs

/-- An offset from universal time, or nothing. -/
def isOffset : List Char → Bool
  | [] => true
  | ['z'] | ['Z'] => true
  | c :: cs =>
    (c == '+' || c == '-') && (do
      let (hour, cs) ← number? 2 cs
      let (minute, cs) ← number? 2 (← after? ':' cs)
      some (hour ≤ 23 && minute ≤ 59 && cs.isEmpty) : Option Bool).getD false

/-- A date, a time of day, or both with or without an offset. -/
def isDatetime (cs : List Char) : Bool :=
  match date? cs with
  | some [] => true
  | some (sep :: rest) =>
    (sep == 'T' || sep == 't' || sep == ' ') && ((time? rest).map isOffset).getD false
  | none => (time? cs).any List.isEmpty

/-! ## Strings -/

/-- Control characters other than the tab stand in no string and no comment. -/
def isPlain (c : Char) : Bool := c == '\t' || (' ' ≤ c && c != '\x7f')

/-- The character of so many hexadecimal digits. -/
def codePoint? (ds : List Char) : Option Char := do
  let n ← Literal.natOfDigits? 16 (ds.map Char.toLower)
  if n.isValidChar then some (Char.ofNat n) else none

/-- The character of an escape of one letter. -/
def escaped? : Char → Option Char
  | 'b' => some '\x08'
  | 't' => some '\t'
  | 'n' => some '\n'
  | 'f' => some '\x0c'
  | 'r' => some '\r'
  | 'e' => some '\x1b'
  | '"' => some '"'
  | '\\' => some '\\'
  | _ => none

/-- The number of hexadecimal digits behind a letter. -/
def escapeWidth? : Char → Option Nat
  | 'x' => some 2
  | 'u' => some 4
  | 'U' => some 8
  | _ => none

/-- An escape behind its backslash, and the rest. -/
def escape? : List Char → Option (Char × List Char)
  | [] => none
  | c :: cs =>
    match escapeWidth? c with
    | some width => do
      if cs.length < width then none
      return (← codePoint? (cs.take width), cs.drop width)
    | none => (escaped? c).map (·, cs)

/-- The contents of a string and what follows it. -/
abbrev Quoted := Option (List Char × List Char)

/-- Put a character before the contents. -/
def Quoted.cons (c : Char) (q : Quoted) : Quoted := q.map fun (s, rest) => (c :: s, rest)

/-- The contents of a literal string on one line. -/
def literal? : List Char → Quoted
  | [] => none
  | c :: cs =>
    if c = '\'' then some ([], cs)
    else if isPlain c then Quoted.cons c (literal? cs)
    else none

/-- The quotes at the end of a string of several lines: three close it, and up
to two before them belong to it. -/
def closing? (quote : Char) (cs : List Char) : Option (List Char × List Char) :=
  let count := (cs.takeWhile (· == quote)).length
  if count < 3 then none
  else
    let kept := min (count - 3) 2
    some (List.replicate kept quote, cs.drop (kept + 3))

/-- The contents of a literal string of several lines. -/
def literalLines? : List Char → Quoted
  | [] => none
  | c :: cs =>
    match closing? '\'' (c :: cs) with
    | some r => some r
    | none =>
      if c = '\r' ∧ cs.head? ≠ some '\n' then none
      else if c = '\n' ∨ c = '\r' ∨ isPlain c then Quoted.cons c (literalLines? cs)
      else none

/-- The contents of a basic string on one line, in at most `fuel` characters. -/
def basicIn? : Nat → List Char → Quoted
  | 0, _ => none
  | _, [] => none
  | fuel + 1, c :: cs =>
    if c = '"' then some ([], cs)
    else if c = '\\' then do
      let (e, rest) ← escape? cs
      Quoted.cons e (basicIn? fuel rest)
    else if isPlain c then Quoted.cons c (basicIn? fuel cs)
    else none

def isBlank (c : Char) : Bool := c == ' ' || c == '\t'

/-- The text behind a line end. -/
def lineEnd? : List Char → Option (List Char)
  | '\n' :: cs => some cs
  | '\r' :: '\n' :: cs => some cs
  | _ => none

/-- The text behind blanks and line ends. -/
def dropSpace : List Char → List Char
  | [] => []
  | '\r' :: '\n' :: cs => dropSpace cs
  | c :: cs => if isBlank c || c == '\n' then dropSpace cs else c :: cs

/-- The contents of a basic string of several lines, in at most `fuel`
characters.  A backslash at the end of a line takes the space behind it away. -/
def basicLinesIn? : Nat → List Char → Quoted
  | 0, _ => none
  | _, [] => none
  | fuel + 1, c :: cs =>
    match closing? '"' (c :: cs) with
    | some r => some r
    | none =>
      if c = '\\' then
        match lineEnd? (cs.dropWhile isBlank) with
        | some rest => basicLinesIn? fuel (dropSpace rest)
        | none => do
          let (e, rest) ← escape? cs
          Quoted.cons e (basicLinesIn? fuel rest)
      else if c = '\r' ∧ cs.head? ≠ some '\n' then none
      else if c = '\n' ∨ c = '\r' ∨ isPlain c then Quoted.cons c (basicLinesIn? fuel cs)
      else none

/-- The text without a line end at its front. -/
def dropLineEnd (cs : List Char) : List Char := (lineEnd? cs).getD cs

/-- A string of one line. -/
def quotedLine? : List Char → Quoted
  | '"' :: cs => basicIn? (cs.length + 1) cs
  | '\'' :: cs => literal? cs
  | _ => none

/-- A string of any form. -/
def quoted? : List Char → Quoted
  | '"' :: '"' :: '"' :: cs =>
    let body := dropLineEnd cs
    basicLinesIn? (body.length + 1) body
  | '\'' :: '\'' :: '\'' :: cs => literalLines? (dropLineEnd cs)
  | cs => quotedLine? cs

/-- A token that is a string as a whole. -/
def wholly? (read : List Char → Quoted) (t : Token) : Option String :=
  match read t with
  | some (s, []) => some (String.ofList s)
  | _ => none

/-! ## Tokens -/

def isBareKeyChar (c : Char) : Bool := c.isAlphanum || c == '_' || c == '-'

/-- A name of a key: bare, or a string of one line. -/
def name? (t : Token) : Option String :=
  if !t.isEmpty && t.all isBareKeyChar then some (String.ofList t) else wholly? quotedLine? t

/-- A value that is not in brackets. -/
def scalar? (t : Token) : Option Value :=
  if t.head? = some '"' ∨ t.head? = some '\'' then (wholly? quoted? t).map .string
  else if t = "true".toList then some (.boolean true)
  else if t = "false".toList then some (.boolean false)
  else if isDatetime t then some (.datetime (String.ofList t))
  else
    match integer? t with
    | some i => some (.integer i)
    | none => (float? t).map .float

/-! ## The range of numbers -/

/-- The widest integers are signed and unsigned ones of 128 bits. -/
def inRange (i : Int) : Bool := -(Nat.pow 2 127 : Nat) ≤ i && i < (Nat.pow 2 128 : Nat)

mutual

/-- Whether no number in a value is too large. -/
def Value.isRepresentable : Value → Bool
  | .integer i => inRange i
  | .float text => !(Literal.float? text).any Float.isInf
  | .array items => areRepresentable items
  | .table entries => entriesAreRepresentable entries
  | .string _ | .boolean _ | .datetime _ => true

def areRepresentable : List Value → Bool
  | [] => true
  | v :: vs => v.isRepresentable && areRepresentable vs

def entriesAreRepresentable : List (String × Value) → Bool
  | [] => true
  | (_, v) :: es => v.isRepresentable && entriesAreRepresentable es

end

end Toml

end GomegaLint
