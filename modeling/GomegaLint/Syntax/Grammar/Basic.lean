import GomegaLint.Syntax.Grammar.Phrase

/-!
# Grammars

A `Grammar` is a list of productions over numbered symbols.  `Grammar.ofRules`
makes one from rules: every choice of a phrase becomes productions of its own,
and every repetition a nonterminal with the productions "two rows" and "one
item"; equal repetitions share it.

Symbols are numbered in the order of the rules, terminals in the order in which
they first appear, behind the end of the text and names.
-/

namespace GomegaLint

/-- A numbered symbol. -/
inductive Symbol where
  | terminal (index : Nat)
  | nonterminal (index : Nat)
  deriving DecidableEq, Repr, Inhabited, Hashable

/-- What a part is to the node it stands in: its field, and the kind it shows
as if not its own. -/
structure Role where
  field : Option Field := none
  kind : Option Kind := none
  deriving DecidableEq, Repr, Inhabited, Hashable

/-- A part of a production. -/
structure Step where
  symbol : Symbol
  role : Role := {}
  deriving DecidableEq, Repr, Inhabited, Hashable

/-- A production. -/
structure Production where
  head : Nat
  steps : List Step
  precedence : Int := 0
  associativity : Option Associativity := none
  weight : Int := 0
  deriving DecidableEq, Repr, Inhabited

/-- Productions over numbered symbols.  The first nonterminal is the start. -/
structure Grammar where
  terminals : Array Terminal
  nonterminals : Array Nonterminal
  productions : Array Production
  deriving Inhabited

namespace Phrase

/-- Replace the repetitions of a phrase by rows, innermost first.  The state holds
the repeated phrases of the rows so far. -/
def hoist : Phrase → StateM (List Phrase) Phrase
  | repeated p => do
    let q ← p.hoist
    let rows ← get
    if rows.contains q then return part (.row (rows.idxOf q))
    set (rows ++ [q])
    return part (.row rows.length)
  | both a b => return both (← a.hoist) (← b.hoist)
  | either a b => return either (← a.hoist) (← b.hoist)
  | role f p => return role f (← p.hoist)
  | shown k p => return shown k (← p.hoist)
  | blank => return blank
  | terminal t => return terminal t
  | part n => return part n

/-- Every sequence of parts that a phrase without repetitions stands for. -/
def alternatives (number : Terminal ⊕ Nonterminal → Symbol) (r : Role) :
    Phrase → List (List Step)
  | blank => [[]]
  | terminal t => [[⟨number (.inl t), r⟩]]
  | part n => [[⟨number (.inr n), r⟩]]
  | both a b =>
    let bs := b.alternatives number r
    (a.alternatives number r).flatMap fun x => bs.map (x ++ ·)
  | either a b => a.alternatives number r ++ b.alternatives number r
  | repeated p => p.alternatives number r
  | role f p => p.alternatives number { r with field := f }
  | shown k p => p.alternatives number { r with kind := k }

end Phrase

namespace Grammar

/-- The rules of a grammar. -/
abbrev Rules := List (Nonterminal × List Clause)

/-- The rules with the repetitions replaced by rows, and the rules of these. -/
def hoisted (rules : Rules) : Rules :=
  let r := (rules.mapM fun (n, cs) => do
    return (n, ← cs.mapM fun c => do return { c with body := ← c.body.hoist }) :
      StateM (List Phrase) Rules).run []
  r.1 ++ r.2.zipIdx.map fun (p, i) =>
    let row := Nonterminal.row i
    (row, [{ body := .both (.part row) (.part row) }, { body := p }])

/-- The terminals of rules in the order of their numbers. -/
def terminalsOf (rules : Rules) : List Terminal :=
  (Terminal.ending :: .identifier ::
    rules.flatMap fun r => r.2.flatMap fun c => c.body.terminals).eraseDups

/-- The productions of a clause. -/
def productionsOf (number : Terminal ⊕ Nonterminal → Symbol) (head : Nat) (c : Clause) :
    List Production :=
  (c.body.alternatives number {}).eraseDups.map fun steps =>
    ⟨head, steps, c.precedence, c.associativity, c.weight⟩

/-- The grammar of a list of rules. -/
def ofRules (rules : Rules) : Grammar :=
  let rules := hoisted rules
  let terminals := terminalsOf rules
  let nonterminals := rules.map Prod.fst
  let number : Terminal ⊕ Nonterminal → Symbol
    | .inl t => .terminal (terminals.idxOf t)
    | .inr n => .nonterminal (nonterminals.idxOf n)
  { terminals := terminals.toArray
    nonterminals := nonterminals.toArray
    productions := (rules.zipIdx.flatMap fun (r, i) =>
      r.2.flatMap (productionsOf number i)).toArray }

/-- The kind of the node a symbol stands for; groups and rows have none. -/
def kind? (g : Grammar) : Symbol → Option Kind
  | .terminal i => g.terminals[i]?.map Terminal.kind
  | .nonterminal i => g.nonterminals[i]?.bind Nonterminal.kind?

/-- The symbol is a repetition. -/
def isRow (g : Grammar) (i : Nat) : Bool := g.nonterminals[i]?.any Nonterminal.isRow

end Grammar

end GomegaLint
