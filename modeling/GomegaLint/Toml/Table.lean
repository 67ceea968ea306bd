import GomegaLint.Toml.Scalar

/-!
# Tables of a configuration file

A TOML document is a sequence of entries and table headers.  `Toml.ofStatements`
reads their tokens, puts them together and refuses a document that defines
something twice.  Of two faults the one that is written first counts; only a
number that is too large counts less than any other fault.

A table is defined once: by its header, or by dotted keys in one section.  A
header or a dotted key creates the tables on the way to its last name; those of
a header may still get a header of their own, those of a dotted key may not.
-/

namespace GomegaLint

namespace Toml

/-- How a table came to be. -/
inductive Definition where
  /-- By a header of its own; also the whole document. -/
  | header
  /-- On the way to another header. -/
  | implicit
  /-- On the way to the last name of a dotted key. -/
  | dotted
  deriving DecidableEq, Repr, Inhabited

/-- What a name stands for while a document is put together. -/
inductive Item where
  | value (v : Value)
  | table (definition : Definition) (entries : List (String × Item))
  /-- An array of tables, each with a header. -/
  | tables (elements : List (List (String × Item)))
  deriving Repr, Inhabited

abbrev Entries := List (String × Item)

/-- Change what a name stands for; a new name goes to the end. -/
def update (change : Option Item → Option Item) (name : String) : Entries → Option Entries
  | [] => (change none).map fun i => [(name, i)]
  | (n, i) :: es =>
    if n = name then (change (some i)).map fun i' => (n, i') :: es
    else (update change name es).map ((n, i) :: ·)

/-- Change a table at the end of a path, and create the tables on the way.  A
dotted path cannot enter a table that has a header. -/
def descend (dotted : Bool) (change : Definition → Entries → Option Entries) :
    List String → Definition → Entries → Option Entries
  | [], d, es => change d es
  | name :: path, _, es =>
    let created := if dotted then Definition.dotted else .implicit
    update (fun
      | none => (descend dotted change path created []).map (.table created)
      | some (.table d sub) =>
        if dotted ∧ d = .header then none else (descend dotted change path d sub).map (.table d)
      | some (.tables elements) => do
        let last ← elements.getLast?
        let last' ← descend dotted change path .header last
        return .tables (elements.dropLast ++ [last'])
      | some (.value _) => none) name es

/-- Give a name that is not in use an item. -/
def define (item : Item) (name : String) (es : Entries) : Option Entries :=
  update (fun old => if old.isSome then none else some item) name es

/-- Give a key a value. -/
def assign (key : Key) (v : Value) (es : Entries) : Option Entries :=
  descend true
    (fun d es =>
      if key.path.isEmpty || d = .dotted then define (.value v) key.last es else none)
    key.path .header es

/-- Start the table of a header. -/
def openTable (key : Key) (es : Entries) : Option Entries :=
  descend false
    (fun _ es => update (fun
      | none => some (.table .header [])
      | some (.table .implicit sub) => some (.table .header sub)
      | _ => none) key.last es)
    key.path .header es

/-- Start the next element of an array of tables. -/
def openElement (key : Key) (es : Entries) : Option Entries :=
  descend false
    (fun _ es => update (fun
      | none => some (.tables [[]])
      | some (.tables elements) => some (.tables (elements ++ [[]]))
      | _ => none) key.last es)
    key.path .header es

mutual

/-- The value that an item has in the end. -/
def Item.toValue : Item → Value
  | .value v => v
  | .table _ es => .table (entriesToValues es)
  | .tables elements => .array (elementsToValues elements)

def entriesToValues : List (String × Item) → List (String × Value)
  | [] => []
  | (n, i) :: es => (n, i.toValue) :: entriesToValues es

def elementsToValues : List (List (String × Item)) → List Value
  | [] => []
  | e :: es => .table (entriesToValues e) :: elementsToValues es

end

/-! ## Faults -/

namespace Fault

/-- What there is none of is malformed. -/
def orMalformed {α : Type} : Option α → Except Fault α
  | some a => .ok a
  | none => .error malformed

end Fault

/-- The key of some names.  All of them are read before they are counted. -/
def Key.ofTokens (ts : List Token) : Except Fault Key := do
  let names ← Fault.orMalformed (ts.mapM name?)
  let key : Key := ⟨names.dropLast, ← Fault.orMalformed names.getLast?⟩
  if key.isTooDeep then .error .tooDeep else .ok key

mutual

/-- What a written value stands for. -/
def Written.toValue : Written → Except Fault Value
  | .token t => Fault.orMalformed (scalar? t)
  | .array items => do return .array (← itemsToValues items)
  | .inlineTable entries => do return .table (entriesToValues (← assignAll entries []))

def itemsToValues : List Written → Except Fault (List Value)
  | [] => .ok []
  | w :: ws => do
    let v ← w.toValue
    return v :: (← itemsToValues ws)

/-- Give keys their values, one after the other. -/
def assignAll : List (List Token × Written) → Entries → Except Fault Entries
  | [], es => .ok es
  | (names, w) :: rest, es => do
    let key ← Key.ofTokens names
    let v ← w.toValue
    assignAll rest (← Fault.orMalformed (assign key v es))

end

/-! ## Documents -/

/-- A document in the making: the path of the last header, and all entries. -/
structure Draft where
  current : List String := []
  entries : Entries := []
  deriving Inhabited

/-- Add a statement. -/
def Draft.add (d : Draft) : Statement → Except Fault Draft
  | .table names => do
    let key ← Key.ofTokens names
    return ⟨key.names, ← Fault.orMalformed (openTable key d.entries)⟩
  | .element names => do
    let key ← Key.ofTokens names
    return ⟨key.names, ← Fault.orMalformed (openElement key d.entries)⟩
  | .entry names w => do
    let key ← Key.ofTokens names
    let v ← w.toValue
    let es := descend false (fun _ es => assign key v es) d.current .header d.entries
    return { d with entries := ← Fault.orMalformed es }

/-- The entries of a document. -/
def ofStatements (statements : List Statement) : Except Fault (List (String × Value)) := do
  let d ← statements.foldlM Draft.add {}
  let entries := entriesToValues d.entries
  if entriesAreRepresentable entries then .ok entries else .error .malformed

end Toml

end GomegaLint
