import DotGraph.Command.Options
import DotGraph.Command.Session
import DotGraph.Demo

/-!
# Writing the example graphs

The examples go to files in a directory or, if none is named, to the standard output with their
names above them.
-/

set_option autoImplicit false

namespace DotGraph.Demo

/-- An example as it is printed. -/
def listing (e : Text × Graph) : Text :=
  "// ".toList ++ e.1 ++ '\n' :: Dot.render .asIs e.2 ++ "\n\n".toList

/-- Writes examples to files in a directory. -/
def writeAll (directory : Path) (s : Session) : List (Text × Graph) → Except Report Unit × Session
  | [] => (.ok (), s)
  | (name, g) :: r =>
    let path := Path.join directory (name ++ ".dot".toList)
    match s.files.write path (Octets.ofText (Dot.render .asIs g ++ ['\n'])) with
    | .error e => (.error ⟨some ("Failed to write ".toList ++ path), .file e⟩, s)
    | .ok f => writeAll directory { s with files := f } r

/-- Makes a directory and writes the examples into it. -/
def writeInto (directory : Path) (s : Session) : Except Report Unit × Session :=
  match s.files.makeDirectories directory with
  | (.error e, f) =>
    (.error ⟨some ("Failed to create ".toList ++ directory), .file e⟩, { s with files := f })
  | (.ok (), f) => match writeAll directory { s with files := f } all with
    | (.error r, s) => (.error r, s)
    | (.ok (), s) => (.ok (), s.say "✓" ("Wrote ".toList ++ Decimal.digits all.length ++
        " examples to ".toList ++ directory))

end DotGraph.Demo

namespace DotGraph

/-- Writes the examples. -/
def DemoOptions.run (o : DemoOptions) (s : Session) : Except Report Unit × Session :=
  match o.output with
  | none => (.ok (), s.print (Demo.all.flatMap Demo.listing))
  | some directory => Demo.writeInto directory s

end DotGraph
