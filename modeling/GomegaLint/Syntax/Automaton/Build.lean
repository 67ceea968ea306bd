import GomegaLint.Syntax.Automaton.Item
import GomegaLint.Syntax.Lexeme

/-!
# The automaton of a grammar

A state of the automaton is a set of items, each with the terminals that can
follow it once it is complete.  In a state every terminal has a list of actions:
to complete items that it can follow, and to shift it.

Where a terminal admits several actions, precedence and associativity choose
among them.  What they leave is kept: the text has several readings up to
here, and all of them go on.
-/

namespace GomegaLint

namespace Automaton

/-- The completion of a construct out of its parts. -/
structure Reduction where
  head : Nat
  roles : List Role
  weight : Int
  deriving DecidableEq, Repr, Inhabited

/-- What to do at a terminal. -/
inductive Action where
  | reduce (r : Reduction)
  | shift (state : Nat)
  | accept
  deriving DecidableEq, Repr, Inhabited

/-- A state: the actions for each terminal, and for each nonterminal the state
behind it, zero for none. -/
structure State where
  actions : Array (List Action) := #[]
  gotos : Array Nat := #[]
  deriving Inhabited

/-- The items of a state that have something read, with the terminals that can
follow each, by number. -/
abbrev Kernel := Array (Nat × Nat)

/-- What the states are made from. -/
structure Plan where
  grammar : Grammar
  items : Items
  /-- The number of the item that stands for the whole text. -/
  root : Nat
  /-- The items of each nonterminal that have nothing read. -/
  starts : Array (List Nat)
  firsts : Array Nat
  openings : Array (List Opening)
  deriving Inhabited

namespace Plan

def ofGrammar (g : Grammar) : Plan :=
  let size := g.nonterminals.size
  let numbered := (do
    let ns ← g.productions.toList.mapM Items.start
    let root ← Items.start { head := size, steps := [⟨.nonterminal 0, {}⟩] }
    return (ns, root) : StateM Items (List Nat × Nat)).run {}
  let ⟨⟨numbers, root⟩, items⟩ := numbered
  let firsts := Automaton.firsts g
  { grammar := g
    items
    root
    starts := numbers.foldr (fun i starts =>
        starts.modify (items.get i).item.head (i :: ·)) (.replicate size [])
    firsts
    openings := (List.range size).toArray.map (Automaton.openings g firsts) }

variable (p : Plan)

/-- For each nonterminal that can come next in a state, the terminals that can
follow it; the empty set for the others. -/
def follows (k : Kernel) : Array Nat :=
  k.foldl (fun sets (i, set) =>
    let e := p.items.get i
    match e.next with
    | some (.nonterminal n) =>
      let behind := (e.follow.map (firstOf p.firsts)).getD set
      (p.openings.getD n []).foldl (fun sets o =>
        sets.modify o.head (· ||| o.inside ||| if o.passes then behind else 0)) sets
    | _ => sets) (.replicate p.grammar.nonterminals.size 0)

/-- All items of a state. -/
def closure (k : Kernel) : List (Nat × Nat) :=
  k.toList ++ (p.follows k).toList.zipIdx.flatMap fun (set, n) =>
    if set = 0 then [] else (p.starts.getD n []).map (·, set)

end Plan

/-- Items sorted by number, each once. -/
def kernelOf (items : List (Nat × Nat)) : Kernel :=
  (items.mergeSort fun a b => a.1 ≤ b.1).foldl (fun k (i, set) =>
    match k.back? with
    | some (j, other) => if i = j then k.pop.push (j, other ||| set) else k.push (i, set)
    | none => k.push (i, set)) #[]

/-- The items of a state sorted by what they go on with. -/
structure Successors where
  complete : List (Nat × Nat)
  terminals : Array (List (Nat × Nat))
  nonterminals : Array (List (Nat × Nat))

namespace Plan

variable (p : Plan)

def successors (k : Kernel) : Successors :=
  (p.closure k).foldr (fun (i, set) s =>
    let e := p.items.get i
    match e.next with
    | none => { s with complete := (i, set) :: s.complete }
    | some (.terminal t) =>
      { s with terminals := s.terminals.modify t ((e.successor, set) :: ·) }
    | some (.nonterminal n) =>
      { s with nonterminals := s.nonterminals.modify n ((e.successor, set) :: ·) })
    ⟨[], .replicate p.grammar.terminals.size [], .replicate p.grammar.nonterminals.size []⟩

/-- The action that completes an item. -/
def completion (i : Item) : Action :=
  if i.head = p.grammar.nonterminals.size then .accept
  else .reduce ⟨i.head, i.past.reverse, i.weight⟩

/-- The actions at a terminal that can complete the items `complete` and, if
`shift` is given, can be shifted in the course of the items `ongoing`. -/
def resolve (complete ongoing : List Item) (shift : Option Nat) : List Action :=
  let top := (complete.map (·.precedence)).foldl max ((complete.map (·.precedence)).headD 0)
  let best := complete.filter (·.precedence = top)
  let reductions := best.map p.completion
  match shift with
  | none => reductions
  | some s =>
    if best.isEmpty then [.shift s]
    else
      let heads := (complete ++ ongoing).map (·.head)
      let sameRow := heads.all (· = heads.headD 0) && p.grammar.isRow (heads.headD 0)
      let looser := ongoing.any (·.precedence < top)
      let tighter := ongoing.any (top < ·.precedence)
      if sameRow then reductions
      else if tighter && !looser then [.shift s]
      else if looser && !tighter then reductions
      else if !looser && best.all (·.associativity = some .left) then reductions
      else if !looser && best.all (·.associativity = some .right) then [.shift s]
      else reductions ++ [.shift s]

end Plan

/-- The automaton as far as it is built: the kernels of the states found, and the
states finished. -/
structure Builder where
  kernels : Array Kernel := #[]
  numbers : Std.HashMap Kernel Nat := {}
  states : Array State := #[]
  deriving Inhabited

namespace Builder

/-- The number of the state with the given kernel. -/
def number (k : Kernel) : StateM Builder Nat := modifyGet fun b =>
  match b.numbers[k]? with
  | some i => (i, b)
  | none =>
    let i := b.kernels.size
    (i, { b with kernels := b.kernels.push k, numbers := b.numbers.insert k i })

/-- The number of the state behind a symbol. -/
def behind (items : List (Nat × Nat)) : StateM Builder (Option Nat) :=
  if items.isEmpty then return none else return some (← number (kernelOf items))

/-- The state with the given kernel. -/
def state (p : Plan) (k : Kernel) : StateM Builder State := do
  let s := p.successors k
  let shifts ← s.terminals.mapM behind
  let gotos ← s.nonterminals.mapM behind
  let complete := (s.complete.map fun (i, set) => ((p.items.get i).item, set)).mergeSort
    fun a b => a.1.head ≤ b.1.head
  let ongoing := k.toList.filterMap fun (i, _) =>
    let e := p.items.get i
    e.next.map fun n => (e.item, firstOf p.firsts n)
  let itemsAt (t : Nat) (items : List (Item × Nat)) : List Item :=
    (items.filter (·.2.testBit t)).map Prod.fst
  let actions := shifts.mapIdx fun t shift =>
    p.resolve (itemsAt t complete) (itemsAt t ongoing) shift
  return ⟨actions, gotos.map (·.getD 0)⟩

/-- Finish the states from number `i` on, and all found on the way, at most so
many. -/
def finish (p : Plan) : Nat → Nat → StateM Builder Unit
  | 0, _ => return
  | fuel + 1, i => do
    match (← get).kernels[i]? with
    | none => return
    | some k =>
      let s ← state p k
      modify fun b => { b with states := b.states.push s }
      finish p fuel (i + 1)

end Builder

end Automaton

/-- The automaton of a grammar. -/
structure Automaton where
  grammar : Grammar
  lexicon : Lexicon
  states : Array Automaton.State
  deriving Inhabited

namespace Automaton

/-- A bound on the number of states, far above that of any grammar of a
programming language. -/
def stateBound : Nat := 100000

def ofGrammar (g : Grammar) : Automaton :=
  let p := Plan.ofGrammar g
  let built := ((do
    let _ ← Builder.number #[(p.root, 1)]
    Builder.finish p stateBound 0) : StateM Builder Unit).run {}
  { grammar := g
    lexicon := .ofTerminals g.terminals.toList
    states := built.2.states }

variable (a : Automaton)

def state (i : Nat) : State := a.states.getD i {}

/-- The actions in a state at a terminal. -/
def actions (i t : Nat) : List Action := (a.state i).actions.getD t []

/-- The terminal has an action in the state. -/
def expects (i t : Nat) : Bool := !(a.actions i t).isEmpty

/-- The state behind a nonterminal. -/
def goto (i n : Nat) : Nat := (a.state i).gotos.getD n 0

end Automaton

end GomegaLint
