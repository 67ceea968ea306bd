/-!
# Paths

A path is its text.  Its components are what lies between slashes, without empty
ones and without dots that change nothing: a dot counts only at the front.
-/

namespace GomegaLint

/-- A step of a path. -/
inductive Component where
  | root
  | here
  | up
  | name (s : String)
  deriving DecidableEq, Repr, Inhabited

namespace Component

/-- The order of components: the root, dots, then names. -/
def compare : Component → Component → Ordering
  | root, root => .eq
  | root, _ => .lt
  | _, root => .gt
  | here, here => .eq
  | here, _ => .lt
  | _, here => .gt
  | up, up => .eq
  | up, _ => .lt
  | _, up => .gt
  | name a, name b => if a < b then .lt else if a = b then .eq else .gt

end Component

namespace Path

def segments (p : String) : List String := p.splitOn "/"

/-- The component that a segment behind the first one is. -/
def innerComponent? : String → Option Component
  | "" | "." => none
  | ".." => some .up
  | s => some (.name s)

/-- The component that the first segment is; a path that starts with a slash has
an empty one. -/
def firstComponent? (isAbsolute : Bool) : String → Option Component
  | "" => if isAbsolute then some .root else none
  | "." => some .here
  | s => innerComponent? s

def isAbsolute (p : String) : Bool := p.toList.head? == some '/'

/-- The components of a path. -/
def components (p : String) : List Component :=
  match segments p with
  | [] => []
  | s :: ss => (firstComponent? (isAbsolute p) s).toList ++ ss.filterMap innerComponent?

def compareComponents : List Component → List Component → Ordering
  | [], [] => .eq
  | [], _ => .lt
  | _, [] => .gt
  | a :: as, b :: bs =>
    match a.compare b with
    | .eq => compareComponents as bs
    | o => o

/-- The order of paths, component by component. -/
def le (p q : String) : Bool := compareComponents (components p) (components q) != .gt

/-- Paths with the same components. -/
def same (p q : String) : Bool := components p == components q

/-- The path of a name in a directory. -/
def join (p name : String) : String :=
  if p = "" ∨ p.toList.getLast? = some '/' then p ++ name else p ++ "/" ++ name

/-- The segments up to the last one that is a component. -/
def trimmed (isAbsolute : Bool) (ss : List String) : List String :=
  let isComponent : String × Nat → Bool := fun (s, i) =>
    if i = 0 then (firstComponent? isAbsolute s).isSome else (innerComponent? s).isSome
  ((ss.zipIdx.reverse.dropWhile (!isComponent ·)).reverse).map Prod.fst

/-- The path without its last component; a path without components, and the
root, have none. -/
def parent? (p : String) : Option String :=
  let isAbsolute := isAbsolute p
  match (trimmed isAbsolute (segments p)).reverse with
  | [] => none
  | _ :: before =>
    match trimmed isAbsolute before.reverse with
    | [] => if isAbsolute then none else some ""
    | [""] => some "/"
    | ss => some ("/".intercalate ss)

/-- A path and the directories above it, nearest first; at most `fuel`. -/
def upwardIn : Nat → String → List String
  | 0, _ => []
  | fuel + 1, p =>
    p :: match parent? p with
      | some q => upwardIn fuel q
      | none => []

/-- A path and the directories above it, nearest first. -/
def upward (p : String) : List String := upwardIn (p.length + 1) p

/-- The name of a Go file: it ends with `.go`, and more than that. -/
def isGoFile (name : String) : Bool :=
  let cs := name.toList
  ".go".toList.isSuffixOf cs && cs.length > 3

/-- Sorted, and without repetitions. -/
def sorted (ps : List String) : List String :=
  (ps.mergeSort le).foldr (fun p rest =>
    match rest with
    | q :: qs => if same p q then p :: qs else p :: q :: qs
    | [] => [p]) []

end Path

end GomegaLint
