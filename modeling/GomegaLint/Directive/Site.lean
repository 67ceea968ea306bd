import GomegaLint.Assertion.Method
import GomegaLint.Directive.Scope
import GomegaLint.Syntax.Node

/-!
# Where directives apply

Directives before the package clause apply to the whole file.  Directives at a
statement apply to the assertions in it: those in the comments directly above
it, and those in a comment that follows it on its last line.  A comment on the
line where an earlier statement ends belongs to that statement.

The statement of an assertion is the one that holds it in the innermost block,
or in the file; the clauses of a switch or select are part of the switch or
select.
-/

namespace GomegaLint

/-- The scope of the comments before the package clause. -/
def fileScope (root : Node) : Scope :=
  Scope.ofComments
    (((root.children.takeWhile (·.kind != .packageClause)).filter Node.isComment).map Node.text)

/-- A statement among its siblings; those before it stand nearest first. -/
structure Site where
  before : List Node
  statement : Node
  after : List Node
  deriving Inhabited

namespace Site

/-- The comments above a statement, nearest first, among the named siblings
before it.  A comment that starts on the row where the sibling before it ends
is not above the statement, and neither is any farther one. -/
def above : List Node → List Node
  | [] => []
  | c :: rest =>
    if c.isComment then
      match rest with
      | [] => [c]
      | b :: _ =>
        if !b.isComment && b.extent.stopRow == c.extent.startRow then [] else c :: above rest
    else []

/-- The comment that follows a statement on its last row, among the named
siblings after it. -/
def trailing (statement : Node) : List Node → List Node
  | [] => []
  | c :: _ =>
    if c.isComment && c.extent.startRow == statement.extent.stopRow then [c] else []

/-- The comments whose directives apply at the site. -/
def comments (s : Site) : List Node :=
  above (s.before.filter Node.isNamed) ++ trailing s.statement (s.after.filter Node.isNamed)

/-- The scope of the directives at the site. -/
def scope (s : Site) : Scope := Scope.ofComments (s.comments.map Node.text)

end Site

/-! ## Assertions of a file -/

namespace Node

/-- A call of an assertion method. -/
def isAssertionCall (n : Node) : Bool :=
  n.kind == .callExpression &&
    (n.child? .function).any fun f =>
      f.kind == .selectorExpression && (f.child? .field).any fun m => Method.isName m.text

/-- Blocks and files hold statements. -/
def holdsStatements (n : Node) : Bool := n.kind == .block || n.kind == .sourceFile

mutual

/-- The calls of assertion methods in a node in pre-order, each with the
statement that holds it; `site` is the statement that holds the node. -/
def assertionsAt (site : Site) : Node → List (Node × Site)
  | leaf .. => []
  | branch l cs =>
    let here := if (branch l cs).isAssertionCall then [(branch l cs, site)] else []
    here ++
      if (branch l cs).holdsStatements then assertionsAmong [] cs else assertionsUnder site cs

/-- The assertions in nodes that belong to one statement. -/
def assertionsUnder (site : Site) : List Node → List (Node × Site)
  | [] => []
  | c :: cs => c.assertionsAt site ++ assertionsUnder site cs

/-- The assertions in nodes that are statements themselves, behind those of
`before`. -/
def assertionsAmong (before : List Node) : List Node → List (Node × Site)
  | [] => []
  | c :: cs => c.assertionsAt ⟨before, c, cs⟩ ++ assertionsAmong (c :: before) cs

end

/-- The calls of assertion methods in a file, each with its statement. -/
def assertions (root : Node) : List (Node × Site) := root.assertionsAt ⟨[], root, []⟩

end Node

end GomegaLint
