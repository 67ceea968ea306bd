import GomegaLint.Syntax.Automaton.Build

/-!
# Readings

A `Tree` is a reading of a part of the text: what the grammar derives it from,
groups and rows included.  Of two readings of the same text the weightier one is
better; between equals the order of their symbols decides.

`Tree.toNodes` gives the syntax nodes of a reading.
-/

namespace GomegaLint

/-- What is known of a reading without looking into it. -/
structure Measure where
  /-- The bytes of blank before it. -/
  gap : Nat := 0
  extent : Extent := {}
  /-- The place behind it. -/
  after : Cursor := {}
  weight : Int := 0
  deriving Inhabited

/-- A reading of a part of the text. -/
inductive Tree where
  | comment (m : Measure) (l : Lexeme)
  | leaf (m : Measure) (terminal : Nat) (l : Lexeme)
  | branch (m : Measure) (r : Automaton.Reduction) (children : List Tree)
  deriving Inhabited

namespace Tree

def measure : Tree → Measure
  | comment m _ => m
  | leaf m _ _ => m
  | branch m _ _ => m

def weight (t : Tree) : Int := t.measure.weight

def isComment : Tree → Bool
  | comment .. => true
  | _ => false

def children : Tree → List Tree
  | branch _ _ cs => cs
  | _ => []

/-- The reading of a lexeme. -/
def ofReading (r : Reading) : Tree :=
  let m : Measure :=
    { gap := r.lexeme.gap.utf8ByteSize, extent := r.lexeme.extent, after := r.after }
  match r.terminal with
  | some t => leaf m t r.lexeme
  | none => comment m r.lexeme

/-- From the start of one extent to the end of another. -/
def cover (a b : Extent) : Extent := ⟨a.start, b.stop, a.startRow, b.stopRow⟩

/-- The reading made of `children`, of an empty text at `place` if there are
none. -/
def ofChildren (place : Cursor) (r : Automaton.Reduction) (children : List Tree) : Tree :=
  let weight := children.foldl (fun w c => w + c.weight) r.weight
  match children.head?, children.getLast? with
  | some a, some b =>
    branch ⟨a.measure.gap, cover a.measure.extent b.measure.extent, b.measure.after, weight⟩
      r children
  | _, _ =>
    branch ⟨0, ⟨place.offset, place.offset, place.row, place.row⟩, place, weight⟩ r []

/-! ## The better reading -/

/-- The symbol of a reading: tokens by number, then comments, then constructs by
number. -/
def rank : Tree → Nat × Nat
  | leaf _ t _ => (0, t)
  | comment .. => (1, 0)
  | branch _ r _ => (2, r.head)

mutual

/-- The order of readings: by symbol, by the number of parts, part by part. -/
def order : Tree → Tree → Ordering
  | branch _ r cs, branch _ s ds =>
    (compare r.head s.head).then ((compare cs.length ds.length).then (orderAll cs ds))
  | a, b => (compare a.rank.1 b.rank.1).then (compare a.rank.2 b.rank.2)

def orderAll : List Tree → List Tree → Ordering
  | c :: cs, d :: ds => (c.order d).then (orderAll cs ds)
  | _, _ => .eq

end

/-- The other reading is better. -/
def isWorse (a b : Tree) : Bool :=
  a.weight < b.weight || a.weight == b.weight && a.order b == .gt

/-- The two readings have the same symbol, the same blank before them, the same
length and as many parts. -/
def isLike (a b : Tree) : Bool :=
  let m := a.measure
  let n := b.measure
  a.rank == b.rank && m.gap == n.gap &&
    m.extent.stop - m.extent.start == n.extent.stop - n.extent.start &&
    a.children.length == b.children.length

/-! ## Nodes -/

mutual

/-- The nodes of a reading that has the role `r`.  A group or row gives the nodes
of its parts, and these its field to the parts that have none. -/
def toNodes (g : Grammar) (r : Role) : Tree → List Node
  | comment m l => [.leaf { kind := .comment, extent := m.extent } l.gap l.text]
  | leaf m t l =>
    let kind := r.kind.getD ((g.kind? (.terminal t)).getD .token)
    if l.text.isEmpty then []
    else [.leaf { kind, field := r.field, extent := m.extent } l.gap l.text]
  | branch m s cs =>
    match r.kind.or (g.kind? (.nonterminal s.head)) with
    | some kind => [.branch { kind, field := r.field, extent := m.extent }
        (childNodes g none s.roles cs)]
    | none => childNodes g r.field s.roles cs

def childNodes (g : Grammar) (field : Option Field) :
    List Role → List Tree → List Node
  | _, [] => []
  | rs, c :: cs =>
    if c.isComment then c.toNodes g {} ++ childNodes g field rs cs
    else
      let r := rs.headD {}
      c.toNodes g { r with field := r.field.or field } ++ childNodes g field rs.tail cs

end

end Tree

end GomegaLint
