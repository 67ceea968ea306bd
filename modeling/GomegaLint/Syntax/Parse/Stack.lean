import GomegaLint.Syntax.Parse.Tree

/-!
# The stack of readings

While a text has several readings, each is a version of the stack of what has
been read.  Versions share what they have in common: a frame of the stack can
be reached from several others, and where two versions come to be in the same
state at the same place they become one, whose top frame has two links down.

Completing a construct takes its parts off the stack along every path there is.
Paths that end in the same frame are readings of the same construct, and the
best of them is kept.
-/

namespace GomegaLint

/-- A way down the stack: the frame below and the reading between. -/
structure Link where
  below : Nat
  tree : Tree
  deriving Inhabited

/-- A frame: the state of the automaton at a place, with the weight of the
weightiest way to it. -/
structure Frame where
  state : Nat := 0
  place : Cursor := {}
  weight : Int := 0
  links : List Link := []
  deriving Inhabited

/-- How a version stands: it goes on, it cannot go on, or it has read the whole
text. -/
inductive Status where
  | active
  | stuck
  | done
  deriving DecidableEq, Repr, Inhabited

/-- A version of the stack, by its top frame. -/
structure Version where
  top : Nat
  status : Status := .active
  deriving DecidableEq, Repr, Inhabited

/-- All versions of the stack, and the best reading of the whole text so far. -/
structure Stack where
  frames : Array Frame := #[]
  versions : List Version := []
  finished : Option Tree := none
  deriving Inhabited

namespace Stack

/-- The most links a frame has. -/
def maxLinks : Nat := 8

/-- The most paths that are followed at once. -/
def maxPaths : Nat := 64

/-- The most versions between two steps. -/
def maxVersions : Nat := 6

/-- The most versions within a step. -/
def maxNewVersions : Nat := 11

def frameIn (fs : Array Frame) (i : Nat) : Frame := fs.getD i {}

def frame (s : Stack) (i : Nat) : Frame := frameIn s.frames i

/-- A new frame above another. -/
def push (s : Stack) (below : Nat) (tree : Tree) (state : Nat) : Stack × Nat :=
  let top := s.frames.size
  let f : Frame :=
    { state, place := tree.measure.after
      weight := (s.frame below).weight + tree.weight, links := [⟨below, tree⟩] }
  ({ s with frames := s.frames.push f }, top)

def setVersion (s : Stack) (i : Nat) (v : Version) : Stack :=
  { s with versions := s.versions.set i v }

/-! ## Merging -/

/-- Two frames are the same state at the same place. -/
def agree (a b : Frame) : Bool := a.state == b.state && a.place.offset == b.place.offset

/-- Give a frame one more link.  A link like one it has is merged with that one:
of two readings above the same frame the weightier stays, and frames below
that agree get each other's links, down to a given depth. -/
def addLink : Nat → Nat → Link → Array Frame → Array Frame
  | 0, _, _, fs => fs
  | depth + 1, i, l, fs =>
    let f := frameIn fs i
    let heavier (w : Int) (fs : Array Frame) : Array Frame :=
      fs.modify i fun f => { f with weight := max f.weight w }
    let way := (frameIn fs l.below).weight + l.tree.weight
    let like (e : Link) : Bool := e.tree.isLike l.tree &&
      (e.below == l.below || agree (frameIn fs e.below) (frameIn fs l.below))
    if l.below = i then fs
    else
      match f.links.zipIdx.find? (like ·.1) with
      | some (e, k) =>
        if e.below = l.below then
          if e.tree.weight < l.tree.weight then
            fs.set! i { f with links := f.links.set k l, weight := way }
          else fs
        else
          heavier way ((frameIn fs l.below).links.foldl
            (fun fs m => addLink depth e.below m fs) fs)
      | none =>
        if maxLinks ≤ f.links.length then fs
        else heavier way (fs.set! i { f with links := f.links ++ [l] })

/-- Two versions that can become one. -/
def mergeable (s : Stack) (v w : Version) : Bool :=
  v.status == .active && w.status == .active && agree (s.frame v.top) (s.frame w.top)

/-- Give the links of the frame `j` to the frame `i`. -/
def merge (s : Stack) (i j : Nat) : Stack :=
  let links := (s.frame j).links
  let frames := links.foldl (fun fs l => addLink (fs.size + 1) i l fs) s.frames
  { s with frames }

/-! ## Taking parts off -/

/-- A way down the stack: the frame it has come to, the readings passed, the
lowest first, and how many of them are no comments. -/
structure Path where
  frame : Nat
  trees : List Tree := []
  count : Nat := 0
  deriving Inhabited

/-- The path one link further down. -/
def Path.down (p : Path) (l : Link) : Path :=
  ⟨l.below, l.tree :: p.trees, if l.tree.isComment then p.count else p.count + 1⟩

/-- Follow paths, all a link at a time, until they satisfy `stop`. -/
def follow (s : Stack) (stop : Path → Bool) : Nat → List Path → List Path
  | 0, _ => []
  | steps + 1, ps =>
    if ps.isEmpty then []
    else
      let going := ps.filter (!stop ·)
      let first := going.filterMap fun p => (s.frame p.frame).links.head?.map p.down
      let more := going.flatMap fun p => (s.frame p.frame).links.tail.map p.down
      ps.filter stop ++ follow s stop steps ((first ++ more).take maxPaths)

/-- The paths down from a frame over `count` readings, those that end in the same
frame together. -/
def popCount (s : Stack) (top count : Nat) : List (Nat × List (List Tree)) :=
  let paths := s.follow (·.count == count) (s.frames.size + 1) [{ frame := top }]
  (paths.map (·.frame)).eraseDups.map fun f =>
    (f, (paths.filter (·.frame == f)).map (·.trees))

/-- The readings of the whole text that end in a frame. -/
def popAll (s : Stack) (top : Nat) : List (List Tree) :=
  (s.follow (fun p => (s.frame p.frame).links.isEmpty) (s.frames.size + 1)
    [{ frame := top }]).map (·.trees)

/-- Cut the comments off the end of a row. -/
def splitComments (ts : List Tree) : List Tree × List Tree :=
  let r := ts.reverse.span (·.isComment)
  (r.2.reverse, r.1.reverse)

/-- The best construct that one of several rows of parts makes, and the comments
behind it. -/
def best (place : Cursor) (r : Automaton.Reduction) (rows : List (List Tree)) :
    Tree × List Tree :=
  let make (ts : List Tree) : Tree × List Tree :=
    let parts := splitComments ts
    (Tree.ofChildren place r parts.1, parts.2)
  rows.tail.foldl (fun a ts => let b := make ts; if a.1.isWorse b.1 then b else a)
    (make (rows.headD []))

/-- Complete a construct in a version, which stays as it is.  Every frame that the
parts are taken off to begins a new version, unless it merges with another. -/
def reduce (a : Automaton) (s : Stack) (v : Nat) (r : Automaton.Reduction) : Stack :=
  let top := (s.versions.getD v default).top
  (s.popCount top r.roles.length).foldl (fun s (base, rows) =>
    if maxNewVersions ≤ s.versions.length then s
    else
      let f := s.frame base
      let b := best f.place r rows
      let state := a.goto f.state r.head
      let pushed := (b.1 :: b.2).foldl (fun p t => p.1.push p.2 t state) (s, base)
      let s := pushed.1
      let new : Version := { top := pushed.2 }
      match s.versions.zipIdx.find? (fun (w, j) => j != v && s.mergeable w new) with
      | some (w, _) => s.merge w.top new.top
      | none => { s with versions := s.versions ++ [new] }) s

end Stack

end GomegaLint
