import DotGraph.Command.Run

/-!
# The program

Reads what a command may need from the disk into a tree of files, runs the command on it, and writes
back what has changed. Everything is decided by `DotGraph.runProgram`; this module only carries
texts and octets to it and from it.
-/

set_option autoImplicit false

namespace DotGraph.Disk

/-- The path of a place. -/
def pathOf (p : Place) : String :=
  "/" ++ String.ofList (List.intercalate ['/'] p.reverse)

/-- The place that the pieces of a path lead to from another one. -/
def placeOf (start : Place) (pieces : List Text) : Place :=
  pieces.foldl (fun p n =>
    if n.isEmpty ∨ n = ['.'] then p else if n = ['.', '.'] then p.tail else n :: p) start

/-- The place at the end of a path. -/
def resolve (working : Place) (path : Path) : Place :=
  placeOf (if path.head? = some '/' then [] else working) (List.splitOn '/' path)

/-- The names of the places on the way to a place, the outermost first, and the place itself. -/
def onTheWay (p : Place) : List Place :=
  ((List.range p.length).map (fun n => p.drop n)).reverse

/-- Whether octets start like a script. -/
def isScript (content : Octets) : Bool :=
  match content with
  | 35 :: 33 :: _ => true
  | _ => false

/-- Adds what is at a place on the disk to the tree. -/
def load (f : Files) (p : Place) : IO Files := do
  try
    let found ← IO.FS.realPath (pathOf p)
    if ← found.isDir then
      return f.put p .directory
    let content := (← IO.FS.readBinFile (pathOf p)).toList
    return f.put p (.file content (isScript content))
  catch _ => return f

/-- Adds what is at a place and on the way to it. -/
def loadPath (f : Files) (path : Path) : IO Files :=
  (onTheWay (resolve f.working path)).foldlM load f

/-- Adds all that is below a place. The fuel bounds the depth. -/
def loadBelow (f : Files) (p : Place) : Nat → IO Files
  | 0 => return f
  | fuel + 1 => do
    try
      let found ← IO.FS.realPath (pathOf p)
      if !(← found.isDir) then
        return f
      (← found.readDir).foldlM (fun f e => do
        let q := e.fileName.toList :: p
        loadBelow (← load f q) q fuel) f
    catch _ => return f

/-- The pieces of a pattern in front of the first one with a wildcard. -/
def fixedPieces (pattern : Text) : Path :=
  let isWildcard (c : Char) : Bool := c = '*' || c = '?' || c = '['
  let pieces := (List.splitOn '/' pattern).takeWhile (fun n => !n.any isWildcard)
  List.intercalate ['/'] pieces

/-- Adds what a command may look at. -/
def loadFor (f : Files) : Command → IO Files
  | .build input output _ => do
    loadPath (← loadPath f input) (output.getD [])
  | .render input output c _ => do
    loadPath (← loadPath (← loadPath f input) output) c.graphviz
  | .batch pattern directory c _ => do
    let g ← loadPath (← loadPath f directory) c.graphviz
    let start := fixedPieces pattern
    loadBelow (← loadPath g start) (resolve f.working start) 64
  | .demo output => loadPath f (output.getD [])

/-- Writes back what has changed, directories first. -/
def save (before after : Files) : IO Unit := do
  let changed := after.entries.filter (fun e => before.get? e.1 ≠ some e.2)
  for (p, i) in changed do
    if i = .directory then
      IO.FS.createDirAll (pathOf p)
  for (p, i) in changed do
    match i with
    | .file content _ => IO.FS.writeBinFile (pathOf p) ⟨content.toArray⟩
    | .directory => pure ()

/-- The tree with nothing but the working directory. -/
def start : IO Files := do
  let here := (← IO.currentDir).toString.toList
  let working := resolve [] here
  return (onTheWay working).foldl (fun f p => f.put p .directory) ⟨working, []⟩

/-- The variables of the environment that count. -/
def environment : IO (List (Text × Text)) := do
  let names := "RUST_LOG".toList ::
    (CommandName.all.flatMap CommandName.arguments).map Argument.variableName
  let found ← names.mapM (fun n => do return (n, ← IO.getEnv (String.ofList n)))
  return found.filterMap (fun (n, v) => v.map (fun t => (n, t.toList)))

end DotGraph.Disk

/-- Runs the program. -/
def main (arguments : List String) : IO UInt32 := do
  let words := arguments.map String.toList
  let environment ← DotGraph.Disk.environment
  let start ← DotGraph.Disk.start
  let files ← match DotGraph.CommandLine.read environment words with
    | .ok i => DotGraph.Disk.loadFor start i.command
    | .error _ => pure start
  let r := DotGraph.runProgram environment words files
  DotGraph.Disk.save files r.session.files
  IO.print (String.ofList r.session.output)
  for line in r.complaints do
    IO.eprintln (String.ofList line)
  return r.exitCode.toUInt32
