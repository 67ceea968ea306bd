import GomegaLint.Workspace.Path

/-!
# Files

A `Workspace` is a tree of directories and files with a current directory.  It
answers as a file system does: a path that leads nowhere, through a file, or to
a file that is not text is an error of its own.
-/

namespace GomegaLint

/-- A file, a directory, or what is known of one. -/
inductive Entry where
  | text (contents : String)
  /-- A file whose bytes are not UTF-8. -/
  | bytes
  | directory (entries : List (String × Entry))
  deriving Repr, Inhabited

/-- Why a path could not be read. -/
inductive FileError where
  | notFound
  | notDirectory
  | isDirectory
  | notText
  deriving DecidableEq, Repr, Inhabited

namespace FileError

def message : FileError → String
  | notFound => "No such file or directory (os error 2)"
  | notDirectory => "Not a directory (os error 20)"
  | isDirectory => "Is a directory (os error 21)"
  | notText => "stream did not contain valid UTF-8"

end FileError

namespace Entry

def isFile : Entry → Bool
  | directory _ => false
  | _ => true

/-- Change what is under a name in a list of entries. -/
def updateIn (change : Option Entry → Entry) (name : String) :
    List (String × Entry) → List (String × Entry)
  | [] => [(name, change none)]
  | (k, e) :: es =>
    if k = name then (k, change (some e)) :: es else (k, e) :: updateIn change name es

/-- The entries of a directory; anything else has none. -/
def entries : Option Entry → List (String × Entry)
  | some (directory es) => es
  | _ => []

/-- Change what is where a row of names leads, with the directories on the way. -/
def update (change : Option Entry → Entry) : List String → Option Entry → Entry
  | [], old => change old
  | name :: names, old => directory (updateIn (update change names) name (entries old))

/-- Directories of vendored code, of test data and of version control. -/
def isLeftOut (name : String) : Bool := name == "vendor" || name == ".git" || name == "testdata"

/-- Follow the segments of a path from the entry on top of `stack`, whose parents
are below it. -/
def follow (stack : List Entry) : List String → Except FileError Entry
  | [] =>
    match stack with
    | e :: _ => .ok e
    | [] => .error .notFound
  | s :: ss =>
    match stack with
    | directory es :: parents =>
      if s = "" ∨ s = "." then follow stack ss
      else if s = ".." then follow (if parents.isEmpty then stack else parents) ss
      else
        match es.lookup s with
        | some e => follow (e :: stack) ss
        | none => .error .notFound
    | _ :: _ => .error .notDirectory
    | [] => .error .notFound

mutual

/-- The Go files in a directory at a path, given its entries. -/
def goFilesIn (path : String) : List (String × Entry) → List String
  | [] => []
  | (name, e) :: es => goFilesAt path name e ++ goFilesIn path es

/-- The Go files at a name in a directory. -/
def goFilesAt (path name : String) : Entry → List String
  | directory es => if isLeftOut name then [] else goFilesIn (Path.join path name) es
  | _ => if Path.isGoFile name then [Path.join path name] else []

end

end Entry

/-- A tree of files, and the path of the current directory. -/
structure Workspace where
  root : Entry := .directory []
  current : String := ""
  deriving Inhabited

namespace Workspace

/-- The path with the current directory before it, unless it is absolute. -/
def fullPath (w : Workspace) (p : String) : String :=
  if Path.isAbsolute p then p else Path.join w.current p

/-- What is at a path. -/
def find (w : Workspace) (p : String) : Except FileError Entry :=
  if p = "" then .error .notFound
  else Entry.follow [w.root] (Path.segments (w.fullPath p))

def isFile (w : Workspace) (p : String) : Bool :=
  match w.find p with
  | .ok e => e.isFile
  | .error _ => false

/-- The text of a file. -/
def read (w : Workspace) (p : String) : Except FileError String := do
  match ← w.find p with
  | .text s => .ok s
  | .bytes => .error .notText
  | .directory _ => .error .isDirectory

/-- The names that lead to a path from the root. -/
def namesOf (stack : List String) : List Component → List String
  | [] => stack.reverse
  | .name s :: cs => namesOf (s :: stack) cs
  | .up :: cs => namesOf stack.tail cs
  | _ :: cs => namesOf stack cs

/-- Change what is at a path. -/
def update (w : Workspace) (p : String) (change : Option Entry → Entry) : Workspace :=
  let names := namesOf [] (Path.components (w.fullPath p))
  { w with root := Entry.update change names (some w.root) }

/-- Put a file at a path. -/
def put (w : Workspace) (p : String) (file : Entry) : Workspace := w.update p fun _ => file

/-- Make a directory at a path, unless there is one. -/
def addDirectory (w : Workspace) (p : String) : Workspace :=
  w.update p fun old => .directory (Entry.entries old)

/-- Write a text to a file. -/
def write (w : Workspace) (p text : String) : Workspace := w.put p (.text text)

/-- The files that a path stands for: itself, or the Go files in it. -/
def goFiles (w : Workspace) (p : String) : Except FileError (List String) := do
  match ← w.find p with
  | .directory es => .ok (Entry.goFilesIn p es)
  | _ => .ok [p]

end Workspace

end GomegaLint
