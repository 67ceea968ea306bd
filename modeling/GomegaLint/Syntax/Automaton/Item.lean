import Std.Data.HashMap
import GomegaLint.Syntax.Grammar.Basic

/-!
# Items

An item is a production of which a first part has been read.  Of that part only
the roles are kept: what comes next does not depend on more, so productions
that differ only in what they have behind them share their items.

Sets of terminals are numbers whose bits are the terminals.
-/

namespace GomegaLint

namespace Automaton

/-- A production with a first part of it read. -/
structure Item where
  head : Nat
  precedence : Int
  associativity : Option Associativity
  weight : Int
  /-- The roles of the parts read, the latest first. -/
  past : List Role
  rest : List Step
  deriving DecidableEq, Repr, Inhabited, Hashable

/-- A numbered item: the symbol due next, the one behind it, and the number of the
item behind that symbol. -/
structure Entry where
  item : Item
  next : Option Symbol := none
  follow : Option Symbol := none
  successor : Nat := 0
  deriving Inhabited

/-- The items of a grammar by number. -/
structure Items where
  entries : Array Entry := #[]
  numbers : Std.HashMap Item Nat := {}
  deriving Inhabited

namespace Items

/-- The number of the item with `rest` left of it, behind `past`. -/
def number (base : Item) (past : List Role) : List Step → StateM Items Nat
  | [] => add { base with past, rest := [] } none none 0
  | s :: rest => do
    let successor ← number base (s.role :: past) rest
    add { base with past, rest := s :: rest } s.symbol (rest.head?.map Step.symbol) successor
where
  add (item : Item) (next follow : Option Symbol) (successor : Nat) : StateM Items Nat := do
    let t ← get
    match t.numbers[item]? with
    | some i => return i
    | none =>
      let i := t.entries.size
      set ({ entries := t.entries.push ⟨item, next, follow, successor⟩
             numbers := t.numbers.insert item i } : Items)
      return i

/-- The number of the item of a production nothing of which is read. -/
def start (p : Production) : StateM Items Nat :=
  number ⟨p.head, p.precedence, p.associativity, p.weight, [], []⟩ [] p.steps

def get (t : Items) (i : Nat) : Entry := t.entries.getD i default

end Items

/-! ## What constructs open with -/

/-- The terminals in a set. -/
def members (size set : Nat) : List Nat := (List.range size).filter set.testBit

/-- The terminals a symbol can open with, given those of the nonterminals. -/
def firstOf (firsts : Array Nat) : Symbol → Nat
  | .terminal i => 1 <<< i
  | .nonterminal i => firsts.getD i 0

/-- The terminals each nonterminal can open with.  No production but that of an
empty text is empty, so the first part of a production decides. -/
def firsts (g : Grammar) : Array Nat :=
  let size := g.nonterminals.size
  let widen (fs : Array Nat) : Array Nat :=
    g.productions.foldl (fun fs p => match p.steps with
      | s :: _ => fs.modify p.head (· ||| firstOf fs s.symbol)
      | [] => fs) fs
  size.repeat widen (.replicate size 0)

/-- A nonterminal that can open another: the terminals that can follow it inside,
and whether also those that follow the other can. -/
structure Opening where
  head : Nat
  inside : Nat
  passes : Bool
  deriving DecidableEq, Repr, Inhabited

/-- Widen `sets`, which tells for each nonterminal whether it can open some fixed
one and what can follow it there, by all productions. -/
def widenOpenings (g : Grammar) (firsts : Array Nat) (sets : Array (Option (Nat × Bool))) :
    Array (Option (Nat × Bool)) :=
  g.productions.foldl (fun sets p =>
    match sets.getD p.head none, p.steps with
    | some f, ⟨.nonterminal i, _⟩ :: rest =>
      let more := match rest with
        | [] => f
        | s :: _ => (firstOf firsts s.symbol, false)
      sets.modify i fun o => match o with
        | some a => some (a.1 ||| more.1, a.2 || more.2)
        | none => some more
    | _, _ => sets) sets

/-- Repeat a step until it changes nothing, at most so often. -/
def settle {α : Type} [BEq α] (step : α → α) : Nat → α → α
  | 0, a => a
  | n + 1, a => let b := step a; if b == a then a else settle step n b

/-- The nonterminals that can open the nonterminal `i`, itself included. -/
def openings (g : Grammar) (firsts : Array Nat) (i : Nat) : List Opening :=
  let size := g.nonterminals.size
  let sets := settle (widenOpenings g firsts) (size * size)
    ((Array.replicate size none).set! i (some (0, true)))
  sets.toList.zipIdx.filterMap fun (o, j) => o.map fun f => ⟨j, f.1, f.2⟩

end Automaton

end GomegaLint
