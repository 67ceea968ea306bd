import GomegaLint.CommandLine.Run

/-!
# The program

The files that a command can reach are read before it runs, and those that it
changed are written behind it.
-/

namespace GomegaLint

/-- A file as it is found on disk. -/
def loadFile (path : String) : IO Entry := do
  match String.fromUTF8? (← IO.FS.readBinFile path) with
  | some s => return .text s
  | none => return .bytes

/-- Add the Go files of a directory, and what leads to them. -/
partial def loadDirectory (w : Workspace) (path : String) : IO Workspace := do
  let mut w := w.addDirectory path
  for child in ← (← IO.FS.realPath path).readDir do
    let inner := Path.join path child.fileName
    match (← child.path.symlinkMetadata).type with
    | .dir => unless Entry.isLeftOut child.fileName do w ← loadDirectory w inner
    | .file => if Path.isGoFile child.fileName then w := w.put inner (← loadFile inner)
    | _ => pure ()
  return w

/-- Add what is at a path, if there is anything. -/
def loadPath (w : Workspace) (path : String) : IO Workspace := do
  try
    if ← (← IO.FS.realPath path).isDir then loadDirectory w path
    else return w.put path (← loadFile path)
  catch _ => return w

/-- The files that a run can reach: those of its paths, and configurations. -/
def loadWorkspace (o : Options) : IO Workspace := do
  let w : Workspace := { current := (← IO.currentDir).toString }
  let w ← o.paths.foldlM loadPath w
  let candidates := (Path.upward (o.startDirectory w)).map (Path.join · Config.fileName)
  (o.config.toList ++ candidates).foldlM loadPath w

/-- The standard input. -/
def readInput : IO (Except FileError String) := do
  match String.fromUTF8? (← (← IO.getStdin).readBinToEnd) with
  | some s => return .ok s
  | none => return .error .notText

/-- Carry out a command on the files on disk. -/
def Command.perform : Command → IO Run
  | .lint o => do
    let w ← loadWorkspace o
    let input ← if o.paths.isEmpty && !o.fix then readInput else pure (.ok "")
    return (Command.lint o).run w input
  | command => return command.run {} (.ok "")

/-- Read the arguments, carry the command out, and print what comes of it. -/
def start (args : List String) : IO UInt32 := do
  match Command.parse args with
  | .error e =>
    IO.eprintln e.message
    return 2
  | .ok command =>
    let run ← command.perform
    for (path, text) in run.writes do
      IO.FS.writeFile path text
    match run.outcome with
    | .ok out =>
      IO.print out.text
      return out.code.toUInt32
    | .error e =>
      IO.eprintln e.message
      return 2

end GomegaLint

def main (args : List String) : IO UInt32 := GomegaLint.start args
