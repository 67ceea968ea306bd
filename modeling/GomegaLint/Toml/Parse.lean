import GomegaLint.Toml.Table

/-!
# Reading a configuration file

`Toml.parse` gives the entries of a TOML document, or says what is wrong with it.

The text is first cut into statements as a whole, which takes brackets, commas,
equals signs, comments and line ends in their places and nothing more: where a
name or a value is badly written or missing, a document can still be cut.  One
that cannot be cut has that fault before any other.
-/

namespace GomegaLint

namespace Toml

/-! ## Tokens -/

/-- What ends a value without quotes. -/
def isMark (c : Char) : Bool :=
  c == '=' || c == ',' || c == '[' || c == ']' || c == '\x7b' || c == '\x7d' || c == '#' ||
    c == '\r' || c == '\n' || c == '"' || c == '\''

/-- What ends a name without quotes. -/
def endsName (c : Char) : Bool := isMark c || isBlank c || c == '.'

/-- Whether a backslash keeps a character from closing a string. -/
def isKept (quote c : Char) : Bool := quote == '"' && (c == '"' || c == '\\')

/-- The rest of a string of one line, with the quote that closes it; without one
it ends with the line. -/
def cutLine (quote : Char) : List Char → Token × List Char
  | [] => ([], [])
  | c :: cs =>
    if c = quote then ([c], cs)
    else if c = '\n' then ([], c :: cs)
    else match c, cs with
      | '\\', d :: ds =>
        if isKept quote d then
          let r := cutLine quote ds
          (c :: d :: r.1, r.2)
        else
          let r := cutLine quote (d :: ds)
          (c :: r.1, r.2)
      | c, cs =>
        let r := cutLine quote cs
        (c :: r.1, r.2)

/-- The rest of a string of several lines, with the quotes that close it; without
them it ends with the text. -/
def cutLines (quote : Char) : List Char → Token × List Char
  | [] => ([], [])
  | c :: cs =>
    match closing? quote (c :: cs) with
    | some (kept, rest) => (kept ++ List.replicate 3 quote, rest)
    | none =>
      match c, cs with
      | '\\', d :: ds =>
        if isKept quote d then
          let r := cutLines quote ds
          (c :: d :: r.1, r.2)
        else
          let r := cutLines quote (d :: ds)
          (c :: r.1, r.2)
      | c, cs =>
        let r := cutLines quote cs
        (c :: r.1, r.2)

/-- The token at the front of a text, and the rest: a string, or all before a
character that `isEnd`. -/
def cutToken (isEnd : Char → Bool) : List Char → Token × List Char
  | '"' :: '"' :: '"' :: cs => let r := cutLines '"' cs; ('"' :: '"' :: '"' :: r.1, r.2)
  | '\'' :: '\'' :: '\'' :: cs => let r := cutLines '\'' cs; ('\'' :: '\'' :: '\'' :: r.1, r.2)
  | '"' :: cs => let r := cutLine '"' cs; ('"' :: r.1, r.2)
  | '\'' :: cs => let r := cutLine '\'' cs; ('\'' :: r.1, r.2)
  | cs => cs.span (!isEnd ·)

/-- A token without the blanks at its end. -/
def trimEnd (t : Token) : Token := (t.reverse.dropWhile isBlank).reverse

/-! ## Readers -/

/-- A reader of the front of a text. -/
abbrev Reader := StateT (List Char) Option

namespace Reader

/-- Read the given character. -/
def char (c : Char) : Reader Unit := do
  match ← get with
  | d :: cs => if c = d then set cs else failure
  | [] => failure

/-- Read the given character if it is next. -/
def char? (c : Char) : Reader Bool := do
  match ← get with
  | d :: cs => if c = d then do set cs; return true else return false
  | [] => return false

/-- Pass over blanks. -/
def blanks : Reader Unit := modify (·.dropWhile isBlank)

/-- Pass over a comment. -/
def comment : Reader Unit :=
  modify fun
    | '#' :: cs => cs.dropWhile isPlain
    | cs => cs

/-- Whether a text is empty or opens with a line end. -/
def isAtLineEnd (cs : List Char) : Bool := cs.isEmpty || (lineEnd? cs).isSome

/-- Pass over blanks, comments and line ends.  A comment that holds a control
character is none. -/
def dropTrivia : Nat → List Char → List Char
  | 0, cs => cs
  | fuel + 1, cs =>
    match cs with
    | '#' :: cs =>
      let rest := cs.dropWhile isPlain
      if isAtLineEnd rest then dropTrivia fuel rest else '#' :: cs
    | '\r' :: '\n' :: cs => dropTrivia fuel cs
    | c :: cs => if isBlank c || c == '\n' then dropTrivia fuel cs else c :: cs
    | [] => []

def trivia : Reader Unit := modify fun cs => dropTrivia cs.length cs

/-! ## Keys -/

/-- One name of a key; it may be empty. -/
def name : Reader Token := modifyGet (cutToken endsName)

/-- The names of a key behind its first one. -/
def laterNames : Nat → Reader (List Token)
  | 0 => failure
  | fuel + 1 => do
    blanks
    if ← char? '.' then
      blanks
      let n ← name
      return n :: (← laterNames fuel)
    else return []

/-- The names of a key, with the blanks behind them. -/
def key : Reader (List Token) := do
  let first ← name
  return first :: (← laterNames ((← get).length + 1))

/-! ## Values -/

/-- A value that is not in brackets. -/
def scalar : Reader Written := do
  let t ← modifyGet (cutToken isMark)
  if t.isEmpty then failure
  return .token (trimEnd t)

/-- The parts of a value in brackets, behind the first one: a comma is between
them, and may stand behind the last. -/
def parts {α : Type} (close : Char) (part : Reader α) : Nat → Reader (List α)
  | 0 => failure
  | fuel + 1 => do
    trivia
    if ← char? close then return []
    let a ← part
    trivia
    if ← char? ',' then return a :: (← parts close part fuel)
    char close
    return [a]

/-- A key and its value.  `gap` passes over what may stand between them; the value
is missing where what is left `isEnd`. -/
def entry (gap : Reader Unit) (isEnd : List Char → Bool) (item : Reader Written) :
    Reader (List Token × Written) := do
  let names ← key
  gap
  char '='
  gap
  if isEnd (← get) then return (names, .token [])
  return (names, ← item)

/-- Whether a text opens with a given character. -/
def isAt (c : Char) (cs : List Char) : Bool := cs.head? == some c

/-- The most brackets that a value can be in. -/
def maxDepth : Nat := 80

/-- A value in at most `depth` pairs of brackets. -/
def value (depth : Nat) : Reader Written := do
  match ← get, depth with
  | '[' :: cs, depth + 1 =>
    set cs
    return .array (← parts ']' (value depth) (cs.length + 1))
  | '\x7b' :: cs, depth + 1 =>
    set cs
    let member := entry trivia (isAt '\x7d') (value depth)
    return .inlineTable (← parts '\x7d' member (cs.length + 1))
  | _, _ => scalar

/-! ## Documents -/

/-- A header, behind its first bracket. -/
def header : Reader Statement := do
  if ← char? '[' then
    blanks
    let names ← key
    char ']'
    char ']'
    return .element names
  else
    blanks
    let names ← key
    char ']'
    return .table names

/-- The statement of a line. -/
def statement : Reader Statement := do
  if ← char? '[' then header
  else
    let (names, w) ← entry blanks (fun cs => isAtLineEnd cs || isAt '#' cs) (value maxDepth)
    return .entry names w

/-- The statements of a document, in at most `fuel` lines. -/
def statements : Nat → Reader (List Statement)
  | 0 => failure
  | fuel + 1 => do
    trivia
    if (← get).isEmpty then return []
    let s ← statement
    blanks
    comment
    match ← get with
    | [] => return [s]
    | cs =>
      match lineEnd? cs with
      | some rest =>
        set rest
        return s :: (← statements fuel)
      | none => failure

end Reader

/-- The statements of a document.  A byte order mark may stand before it. -/
def statements? (text : String) : Option (List Statement) :=
  let cs := match text.toList with
    | '\ufeff' :: cs => cs
    | cs => cs
  match Reader.statements (cs.length + 1) cs with
  | some (ss, []) => some ss
  | _ => none

/-- The entries of a document. -/
def parse (text : String) : Except Fault (List (String × Value)) := do
  ofStatements (← Fault.orMalformed (statements? text))

end Toml

end GomegaLint
