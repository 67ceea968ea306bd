import GomegaLint.Expr.Lower

/-!
# Imports of a file

The import specifications of a file in order, as they are written, the package
it belongs to, and the names under which a file can mention the packages it
imports.
-/

namespace GomegaLint

/-- An import: the local name, if one is given, and the path in its quotes. -/
structure Import where
  name : Option String := none
  path : String
  deriving DecidableEq, Repr, Inhabited

namespace Import

/-- The import under a specification. -/
def ofSpec? (n : Node) : Option Import := do
  if n.kind ≠ .importSpec then none
  let path ← n.child? .path
  return ⟨(n.child? .name).map Node.text, path.text⟩

/-- The imports under a declaration, in its parentheses or without them. -/
def ofDeclaration (n : Node) : List Import :=
  n.namedChildren.flatMap fun c =>
    if c.kind = .importSpecList then c.namedChildren.filterMap ofSpec?
    else (ofSpec? c).toList

/-- The imports of a file. -/
def ofFile (root : Node) : List Import :=
  (root.children.filter (·.kind == .importDeclaration)).flatMap ofDeclaration

/-- The text without the quotes around it; the quotes are those of `marks`, and
any number of them goes. -/
def trimQuotes (marks : List Char) (s : String) : String :=
  let inner := s.toList.dropWhile marks.contains
  String.ofList (inner.reverse.dropWhile marks.contains).reverse

/-- The last element of a path, or the one before it if the last is a major
version such as `v2`. -/
def packageOfPath (path : String) : String :=
  match (path.splitOn "/").reverse with
  | [] => path
  | last :: earlier =>
    let isVersion := match last.toList with
      | 'v' :: d :: ds => (d :: ds).all Char.isDigit
      | _ => false
    if isVersion then earlier.headD last else last

/-- The local name of an import and its path without quotes.  A dot import and
a blank one bind no name. -/
def binding? (i : Import) : Option (String × String) :=
  let path := trimQuotes ['"', '\x60'] i.path
  match i.name with
  | some "_" | some "." => none
  | some name => some (name, path)
  | none => some (packageOfPath path, path)

/-- The path of a dot import, without its quotes. -/
def dotPath? (i : Import) : Option String :=
  if i.name = some "." then some (trimQuotes ['"'] i.path) else none

end Import

/-- The name in the package clause of a file. -/
def packageName? (root : Node) : Option String := do
  let clause ← root.children.find? (·.kind == .packageClause)
  let name ← clause.namedChildren.find? (·.kind == .packageIdentifier)
  return name.text

end GomegaLint
