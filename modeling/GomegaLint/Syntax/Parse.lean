import GomegaLint.Syntax.Grammar.Go
import GomegaLint.Syntax.Parse.Stack

/-!
# Syntax trees of Go files

`parse` gives the concrete syntax tree of a Go file, with its nodes numbered in
pre-order.  Statements may stand at the top level beside the declarations, and
the package clause may be missing.  A text that is not Go gives an empty tree.

The versions of the stack are advanced in turn, a token each, and after every
round those that cannot go on are dropped and those that have come together are
merged.
-/

namespace GomegaLint

namespace Stack

/-! ## One version -/

/-- Put a reading on top of a version. -/
def shift (s : Stack) (v : Nat) (tree : Tree) (state : Nat) : Stack :=
  let p := s.push (s.versions.getD v default).top tree state
  p.1.setVersion v { top := p.2 }

def setStatus (s : Stack) (v : Nat) (status : Status) : Stack :=
  s.setVersion v { s.versions.getD v default with status }

/-- The reading of the whole text in the readings on the way to it: those before
and behind it are comments. -/
def whole (ts : List Tree) : Option Tree :=
  let before := ts.takeWhile (·.isComment)
  match ts.dropWhile (·.isComment) with
  | .branch m r cs :: behind => some (.branch m r (before ++ cs ++ behind))
  | _ => none

/-- The whole text is read in a version. -/
def accept (s : Stack) (v : Nat) : Stack :=
  let readings := (s.popAll (s.versions.getD v default).top).filterMap whole
  let finished := readings.foldl (fun best t => match best with
    | some b => if b.isWorse t then some t else some b
    | none => some t) s.finished
  { s.setStatus v .done with finished }

/-- Complete every construct that the actions ask for.  The result tells whether
they also shift or accept. -/
def reduceAll (a : Automaton) (v : Nat) :
    List Automaton.Action → Stack → Option Nat → Stack × Option Nat × Option Automaton.Action
  | [], s, latest => (s, latest, none)
  | .reduce r :: rest, s, latest =>
    let count := s.versions.length
    let s := s.reduce a v r
    reduceAll a v rest s (if count < s.versions.length then some count else latest)
  | act :: _, s, latest => (s, latest, some act)

/-- Carry a version on over the lexeme `r`, read as the terminal `t`, with at most
so many completions before it is shifted.  A keyword that cannot be shifted
is a name if that can. -/
def advanceBy (a : Automaton) (v : Nat) (r : Reading) : Nat → Nat → Stack → Stack
  | 0, _, s => s.setStatus v .stuck
  | steps + 1, t, s =>
    let state := (s.frame (s.versions.getD v default).top).state
    match reduceAll a v (a.actions state t) s none with
    | (s, _, some (.shift next)) => s.shift v (.ofReading { r with terminal := some t }) next
    | (s, _, some _) => s.accept v
    | (s, some new, none) =>
      let w := s.versions.getD new default
      advanceBy a v r steps t { s with versions := (s.versions.set v w).eraseIdx new }
    | (s, none, none) =>
      if r.isKeyword && t != a.lexicon.identifier && a.expects state a.lexicon.identifier then
        advanceBy a v r steps a.lexicon.identifier s
      else s.setStatus v .stuck

/-- Carry a version on over one lexeme. -/
def advance (a : Automaton) (s : Stack) (v : Nat) : Stack :=
  let f := s.frame (s.versions.getD v default).top
  match a.lexicon.read? (a.expects f.state) f.place with
  | none => s.setStatus v .stuck
  | some r =>
    match r.terminal with
    | none => s.shift v (.ofReading r) f.state
    | some t =>
      advanceBy a v r ((s.frames.size + 2) * (a.grammar.nonterminals.size + 1)) t s

/-! ## All versions -/

/-- The offset that a version has come to. -/
def offset (s : Stack) (v : Nat) : Nat :=
  (s.frame (s.versions.getD v default).top).place.offset

/-- Carry a version on until it is beyond `reached`, or has come to it and is not
the first. -/
def catchUp (a : Automaton) (v : Nat) : Nat → Nat → Stack → Stack × Nat
  | 0, reached, s => (s, reached)
  | steps + 1, reached, s =>
    if (s.versions.getD v default).status != .active then (s, reached)
    else
      let s := s.advance a v
      let here := s.offset v
      if reached < here || (0 < v && here == reached) then (s, here)
      else catchUp a v steps reached s

/-- Carry all versions on, those that come up on the way included. -/
def advanceAll (a : Automaton) (steps : Nat) : Nat → Nat → Nat → Stack → Stack × Nat
  | 0, _, reached, s => (s, reached)
  | fuel + 1, v, reached, s =>
    if v < s.versions.length then
      let r := catchUp a v steps reached s
      advanceAll a steps fuel (v + 1) r.2 r.1
    else (s, reached)

/-- How much a version promises: it can go on, and its weight. -/
def promise (s : Stack) (v : Version) : Bool × Int :=
  (v.status == .active, (s.frame v.top).weight)

/-- Put a version among others that are sorted, best first.  It is dropped if it
cannot go on and another can, and the other way round; it becomes one with
another if it can; it takes the place of one that promises less, which goes
on to look for its own. -/
def place (promised : Bool × Int) (v : Version) : List Version → Stack → Stack × List Version
  | [], s => (s, [v])
  | w :: ws, s =>
    let other := s.promise w
    let keep (r : Stack × List Version) : Stack × List Version := (r.1, w :: r.2)
    if other.1 && !promised.1 then (s, w :: ws)
    else if promised.1 && !other.1 then place promised v ws s
    else if s.mergeable w v then (s.merge w.top v.top, w :: ws)
    else if other.2 < promised.2 then
      let r := place promised w ws s
      (r.1, v :: r.2)
    else keep (place promised v ws s)

/-- Sort the versions, and keep the best of them. -/
def condense (s : Stack) : Stack :=
  let r := (s.versions.filter (·.status != .done)).foldl
    (fun (r : Stack × List Version) v => place (r.1.promise v) v r.2 r.1) (s, [])
  { r.1 with versions := r.2.take maxVersions }

/-- Rounds until every version is done, or none can go on. -/
def run (a : Automaton) (steps : Nat) : Nat → Nat → Stack → Stack
  | 0, _, s => s
  | fuel + 1, reached, s =>
    let r := advanceAll a steps steps 0 reached s
    let s := condense r.1
    if s.versions.all (·.status == .stuck) then s else run a steps fuel r.2 s

end Stack

namespace Go

/-- The automaton of Go. -/
def automaton : Automaton := .ofGrammar grammar

end Go

/-- The best reading of a Go file. -/
def readFile (source : String) : Option Tree :=
  let cs := source.toList
  let steps := cs.length + 4
  (Stack.run Go.automaton steps steps 0
    { frames := #[{ place := { rest := cs } }], versions := [{ top := 0 }] }).finished

/-- The syntax tree of a Go file. -/
def parse (source : String) : Node :=
  let children := match readFile source with
    | some (.branch _ r cs) => Tree.childNodes Go.grammar none r.roles cs
    | _ => []
  let cs := source.toList
  let stop : Extent := ⟨byteLength cs, byteLength cs, lineBreaks cs, lineBreaks cs⟩
  let start := (children.head?.map Node.extent).getD stop
  (Node.branch { kind := .sourceFile, extent := Tree.cover start stop } children).numbered

end GomegaLint
