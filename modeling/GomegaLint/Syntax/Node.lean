import GomegaLint.Syntax.Kind

/-!
# Concrete syntax trees

A `Node` is a leaf (one token or comment, with the blank text before it) or a
branch over its children.  Nothing of the source between the first and the
last token of a node is missing from it, so the text of a node is read off the
tree alone (`Node.text`).

Comments are named leaves; they stand in the innermost node that has a token
on both sides of them.
-/

namespace GomegaLint

/-- A half-open range of byte offsets. -/
structure Span where
  start : Nat := 0
  stop : Nat := 0
  deriving DecidableEq, Repr, Inhabited

/-- Where a node lies: its bytes, and the zero-based rows of its two ends. -/
structure Extent where
  start : Nat := 0
  stop : Nat := 0
  startRow : Nat := 0
  stopRow : Nat := 0
  deriving DecidableEq, Repr, Inhabited

/-- What every node carries.  The identity of a node is its place in pre-order,
counted from one; zero is nobody's identity. -/
structure Label where
  kind : Kind
  id : Nat := 0
  field : Option Field := none
  extent : Extent := {}
  deriving DecidableEq, Repr, Inhabited

/-- A node of a concrete syntax tree. -/
inductive Node where
  | leaf (label : Label) (gap text : String)
  | branch (label : Label) (children : List Node)
  deriving Repr, Inhabited

namespace Node

def label : Node → Label
  | leaf l _ _ => l
  | branch l _ => l

def setLabel (l : Label) : Node → Node
  | leaf _ gap text => leaf l gap text
  | branch _ cs => branch l cs

def kind (n : Node) : Kind := n.label.kind

def id (n : Node) : Nat := n.label.id

def extent (n : Node) : Extent := n.label.extent

def span (n : Node) : Span := ⟨n.extent.start, n.extent.stop⟩

/-- Every kind but `Kind.token` is named. -/
def isNamed (n : Node) : Bool := n.kind != .token

def isComment (n : Node) : Bool := n.kind == .comment

def children : Node → List Node
  | leaf .. => []
  | branch _ cs => cs

/-- The named children, comments included. -/
def namedChildren (n : Node) : List Node := n.children.filter isNamed

/-- The named children that are not comments. -/
def parts (n : Node) : List Node := n.namedChildren.filter (!·.isComment)

/-- The first named child, which may be a comment. -/
def firstNamed? (n : Node) : Option Node := n.namedChildren.head?

/-- Every child in the role `f`, in order. -/
def childrenAs (n : Node) (f : Field) : List Node :=
  n.children.filter fun c => c.label.field == some f

/-- The first child in the role `f`. -/
def child? (n : Node) (f : Field) : Option Node :=
  n.children.find? fun c => c.label.field == some f

/-- The expressions of an expression list; any other node stands for itself. -/
def listed (n : Node) : List Node :=
  if n.kind = .expressionList then n.parts else [n]

/-! ## Text -/

mutual

/-- The source text of a node, from its first token to its last. -/
def text : Node → String
  | leaf _ _ t => t
  | branch _ cs => textOf cs

/-- The text of a row of siblings, without the blank before the first. -/
def textOf : List Node → String
  | [] => ""
  | c :: cs => c.text ++ spacedText cs

/-- The text of the siblings that follow, each with the blank before it. -/
def spacedText : List Node → String
  | [] => ""
  | c :: cs => c.gap ++ c.text ++ spacedText cs

/-- The blank text before the first token of a node. -/
def gap : Node → String
  | leaf _ g _ => g
  | branch _ cs => gapOf cs

def gapOf : List Node → String
  | [] => ""
  | c :: _ => c.gap

end

/-- An anonymous token with the given text. -/
def isToken (n : Node) (t : String) : Bool := n.kind == .token && n.text == t

/-- Some child is the token `t`. -/
def hasToken (n : Node) (t : String) : Bool := n.children.any (·.isToken t)

/-! ## Pre-order -/

mutual

/-- The node and everything below it, parents before children. -/
def preorder : Node → List Node
  | leaf l g t => [leaf l g t]
  | branch l cs => branch l cs :: preorderOf cs

def preorderOf : List Node → List Node
  | [] => []
  | c :: cs => c.preorder ++ preorderOf cs

end

mutual

/-- Number the node and everything below it in pre-order from `next`; the
second component is the first number left over. -/
def numberFrom (next : Nat) : Node → Node × Nat
  | leaf l g t => (leaf { l with id := next } g t, next + 1)
  | branch l cs =>
    let r := numberAll (next + 1) cs
    (branch { l with id := next } r.1, r.2)

def numberAll (next : Nat) : List Node → List Node × Nat
  | [] => ([], next)
  | c :: cs =>
    let r := c.numberFrom next
    let rs := numberAll r.2 cs
    (r.1 :: rs.1, rs.2)

end

/-- The tree with its nodes numbered from one. -/
def numbered (n : Node) : Node := (n.numberFrom 1).1

mutual

/-- The number of levels of a tree. -/
def depth : Node → Nat
  | leaf .. => 1
  | branch _ cs => depthOf cs + 1

def depthOf : List Node → Nat
  | [] => 0
  | c :: cs => max c.depth (depthOf cs)

end

end Node

end GomegaLint
