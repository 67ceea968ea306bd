import Std.Data.HashMap
import GomegaLint.Syntax.Node
import GomegaLint.Syntax.Terminal
import GomegaLint.Text.Bytes

/-!
# Lexemes of Go source

A text is cut into comments and tokens, each with the blank text before it.
Where to cut depends on what can stand at a place, so a `Lexicon` reads one
lexeme at a time and is told which terminals are expected:

* a line break is a token where it is expected and blank elsewhere;
* a word is a keyword where that keyword is expected and a name elsewhere;
* of the symbols, the longest expected one is cut;
* the end of the text also serves as a terminator where only one of those is
  expected.

The NUL character is a terminator, and no comment holds one: it ends a line
comment, and a block comment that is not closed before it is none.

Letters are ASCII letters, the underscore and every character beyond ASCII:
outside strings and comments nothing else beyond ASCII stands in a Go source.
-/

namespace GomegaLint

/-- A token or comment with the blank text before it. -/
structure Lexeme where
  gap : String := ""
  text : String := ""
  extent : Extent := {}
  deriving DecidableEq, Repr, Inhabited

namespace Lexeme

def isBlank (c : Char) : Bool :=
  c == ' ' || c == '\t' || c == '\n' || c == '\r' || c == '\x0b' || c == '\x0c'

def isLetter (c : Char) : Bool := c.isAlpha || c == '_' || 128 ≤ c.toNat

def isWordChar (c : Char) : Bool := isLetter c || c.isDigit

def isHexDigit (c : Char) : Bool :=
  c.isDigit || ('a' ≤ c && c ≤ 'f') || ('A' ≤ c && c ≤ 'F')

/-! ## Delimited lexemes

Each function reads what follows the opening delimiter, up to and including
the closing one, and gives it with what is left. -/

/-- The rest of a block comment, if it is closed. -/
def blockComment? : List Char → Option (List Char × List Char)
  | '*' :: '/' :: cs => some (['*', '/'], cs)
  | '\x00' :: _ => none
  | c :: cs => (blockComment? cs).map fun r => (c :: r.1, r.2)
  | [] => none

/-- The rest of a literal closed by `close`, in which a backslash keeps the next
character from closing it. -/
def quoted (close : Char) : List Char → List Char × List Char
  | '\\' :: c :: cs => let r := quoted close cs; ('\\' :: c :: r.1, r.2)
  | c :: cs => if c = close then ([c], cs) else let r := quoted close cs; (c :: r.1, r.2)
  | [] => ([], [])

/-- The rest of a raw string. -/
def rawQuoted : List Char → List Char × List Char
  | '\x60' :: cs => (['\x60'], cs)
  | c :: cs => let r := rawQuoted cs; (c :: r.1, r.2)
  | [] => ([], [])

/-! ## Numbers -/

/-- A run of digits, with underscores among them. -/
def digits (isDigit : Char → Bool) (cs : List Char) : List Char × List Char :=
  cs.span fun c => isDigit c || c == '_'

/-- The fraction of a number: a point and the digits after it. -/
def fraction (isDigit : Char → Bool) : List Char → List Char × List Char
  | '.' :: cs => let r := digits isDigit cs; ('.' :: r.1, r.2)
  | cs => ([], cs)

/-- An exponent opened by one of the `marks`. -/
def exponent (marks : List Char) : List Char → List Char × List Char
  | c :: cs =>
    if marks.contains c then
      match cs with
      | s :: ds =>
        if s == '+' || s == '-' then
          let r := digits Char.isDigit ds; (c :: s :: r.1, r.2)
        else if s.isDigit then
          let r := digits Char.isDigit cs; (c :: r.1, r.2)
        else ([], c :: cs)
      | [] => ([], [c])
    else ([], c :: cs)
  | [] => ([], [])

/-- A decimal number: whole part, fraction and exponent. -/
def decimal (cs : List Char) : Terminal × List Char × List Char :=
  let whole := digits Char.isDigit cs
  let part := fraction Char.isDigit whole.2
  let power := exponent ['e', 'E'] part.2
  let form := if part.1.isEmpty && power.1.isEmpty then .int else .float
  (form, whole.1 ++ part.1 ++ power.1, power.2)

/-- A hexadecimal number behind its mark.  Only an exponent makes it one with a
fraction: without it a point is not part of the number. -/
def hexadecimal (cs : List Char) : Terminal × List Char × List Char :=
  let whole := digits isHexDigit cs
  let part := fraction isHexDigit whole.2
  let power := exponent ['p', 'P'] part.2
  if power.1.isEmpty then (.int, whole.1, whole.2)
  else (.float, whole.1 ++ part.1 ++ power.1, power.2)

/-- A number without the mark of an imaginary one. -/
def realNumber : List Char → Terminal × List Char × List Char
  | '0' :: c :: cs =>
    if c == 'x' || c == 'X' then
      let r := hexadecimal cs
      (r.1, '0' :: c :: r.2.1, r.2.2)
    else if c == 'b' || c == 'B' || c == 'o' || c == 'O' then
      let r := digits Char.isDigit cs
      (.int, '0' :: c :: r.1, r.2)
    else decimal ('0' :: c :: cs)
  | cs => decimal cs

/-- A number; the letter `i` after it makes it imaginary. -/
def number (cs : List Char) : Terminal × List Char × List Char :=
  let r := realNumber cs
  match r.2.2 with
  | 'i' :: rest => (.imaginary, r.2.1 ++ ['i'], rest)
  | _ => r

/-! ## Cutting -/

/-- What a text can open with, as far as the text alone tells. -/
inductive Opening where
  | comment
  | word
  | literal (t : Terminal)
  | symbol
  deriving DecidableEq, Repr, Inhabited

/-- What a text without blank before it opens with, its characters and what is
left.  Symbols are not cut here; a comment that is not closed is none. -/
def opening (cs : List Char) : Opening × List Char × List Char :=
  match cs with
  | '/' :: '/' :: rest =>
    let r := rest.span fun c => c != '\n' && c != '\x00'
    (.comment, '/' :: '/' :: r.1, r.2)
  | '/' :: '*' :: rest =>
    match blockComment? rest with
    | some r => (.comment, '/' :: '*' :: r.1, r.2)
    | none => (.symbol, [], cs)
  | '"' :: rest => let r := quoted '"' rest; (.literal .string, '"' :: r.1, r.2)
  | '\'' :: rest => let r := quoted '\'' rest; (.literal .rune, '\'' :: r.1, r.2)
  | '\x60' :: rest => let r := rawQuoted rest; (.literal .rawString, '\x60' :: r.1, r.2)
  | '.' :: c :: _ =>
    if c.isDigit then let r := number cs; (.literal r.1, r.2) else (.symbol, [], cs)
  | c :: _ =>
    if isLetter c then (.word, cs.span isWordChar)
    else if c.isDigit then let r := number cs; (.literal r.1, r.2)
    else (.symbol, [], cs)
  | [] => (.symbol, [], [])

/-- The blank text that a text opens with.  Line breaks are no part of it where
they are tokens; the byte order mark is, at the very beginning. -/
def blank (breaks atStart : Bool) (cs : List Char) : List Char × List Char :=
  let isGap (c : Char) := isBlank c && !(breaks && c == '\n')
  match atStart, cs with
  | true, '\ufeff' :: cs => let r := cs.span isGap; ('\ufeff' :: r.1, r.2)
  | _, cs => cs.span isGap

end Lexeme

/-! ## Places in a text -/

/-- A place in a text: what follows it, its offset and its row. -/
structure Cursor where
  rest : List Char := []
  offset : Nat := 0
  row : Nat := 0
  deriving Repr, Inhabited

namespace Cursor

/-- The lexeme made of the blank `gap` and the characters `cs` behind the
cursor, and the place behind it, where `rest` is left. -/
def cut (c : Cursor) (gap cs rest : List Char) : Lexeme × Cursor :=
  let start := c.offset + byteLength gap
  let startRow := c.row + lineBreaks gap
  let stop := start + byteLength cs
  let stopRow := startRow + lineBreaks cs
  (⟨String.ofList gap, String.ofList cs, ⟨start, stop, startRow, stopRow⟩⟩,
    ⟨rest, stop, stopRow⟩)

end Cursor

/-! ## Reading with expectations -/

/-- The terminals of a grammar by their numbers, sorted by how they are read. -/
structure Lexicon where
  ending : Nat
  identifier : Nat
  newline : Nat
  nul : Nat
  literals : List (Terminal × Nat)
  keywords : Std.HashMap String Nat
  /-- Longer symbols first. -/
  symbols : List (List Char × Nat)
  deriving Inhabited

/-- A lexeme as it is read: its terminal and whether it is spelled like a keyword;
comments have no terminal. -/
structure Reading where
  terminal : Option Nat
  isKeyword : Bool := false
  lexeme : Lexeme
  after : Cursor
  deriving Inhabited

namespace Lexicon

/-- The lexicon of terminals numbered by their places in a list. -/
def ofTerminals (ts : List Terminal) : Lexicon where
  ending := ts.idxOf .ending
  identifier := ts.idxOf .identifier
  newline := ts.idxOf .newline
  nul := ts.idxOf .nul
  literals := ts.zipIdx.filter fun p => match p.1 with
    | .int | .float | .imaginary | .rune | .string | .rawString => true
    | _ => false
  keywords := .ofList (ts.zipIdx.filterMap fun p => match p.1 with
    | .keyword w => some (w, p.2)
    | _ => none)
  symbols := (ts.zipIdx.filterMap fun p => match p.1 with
    | .symbol s => some (s.toList, p.2)
    | _ => none).mergeSort fun a b => b.1.length ≤ a.1.length

variable (x : Lexicon) (expects : Nat → Bool)

/-- The terminal of a word. -/
def word (w : String) : Nat × Bool :=
  match x.keywords[w]? with
  | some k => (if expects k then k else x.identifier, true)
  | none => (x.identifier, false)

/-- The longest expected symbol that a text opens with. -/
def symbol? (cs : List Char) : Option (List Char × Nat) :=
  x.symbols.find? fun s => s.1.isPrefixOf cs && expects s.2

/-- Read the next lexeme; `none` where nothing that is expected follows. -/
def read? (c : Cursor) : Option Reading :=
  let gap := Lexeme.blank (expects x.newline) (c.offset == 0) c.rest
  let token (t : Nat) (isKeyword : Bool) (cs rest : List Char) : Option Reading :=
    let r := c.cut gap.1 cs rest
    some ⟨some t, isKeyword, r.1, r.2⟩
  match gap.2 with
  | [] =>
    if expects x.ending then token x.ending false [] []
    else if expects x.nul then token x.nul false [] []
    else none
  | '\n' :: rest => token x.newline false ['\n'] rest
  | '\x00' :: rest => if expects x.nul then token x.nul false ['\x00'] rest else none
  | cs =>
    match Lexeme.opening cs with
    | (.comment, text, rest) =>
      let r := c.cut gap.1 text rest
      some ⟨none, false, r.1, r.2⟩
    | (.word, text, rest) =>
      let w := x.word expects (String.ofList text)
      token w.1 w.2 text rest
    | (.literal t, text, rest) => (x.literals.lookup t).bind fun i => token i false text rest
    | (.symbol, _, _) =>
      (x.symbol? expects cs).bind fun s => token s.2 false s.1 (cs.drop s.1.length)

end Lexicon

end GomegaLint
