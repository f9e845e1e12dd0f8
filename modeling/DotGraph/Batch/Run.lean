import DotGraph.Batch.Plan
import DotGraph.Command.Build

/-!
# Rendering many inputs

All inputs that match a pattern are rendered to one directory. Whatever speaks against the batch as
a whole is found before the directory is made: a malformed pattern, and inputs that would share a
file. An input that fails does not keep the others from being rendered.
-/

set_option autoImplicit false

namespace DotGraph.Batch

/-- Renders one input to its output. -/
def renderOne (x : Exporter) (o : BatchOptions) (f : Files) (task : Path × Path) :
    Except Error Unit × Files :=
  match f.loadInput task.1 with
  | .error e => (.error e, f)
  | .ok d => x.renderToFile f (d.toDot (quotingFor o.escapeQuotes)) task.2 o.engine o.format

/-- Renders the inputs of a plan. The outcome lists the inputs that failed, in the order of the
plan, and the files. -/
def renderAll (x : Exporter) (o : BatchOptions) (f : Files) :
    List (Path × Path) → List (Path × Error) × Files
  | [] => ([], f)
  | task :: r => match renderOne x o f task with
    | (.error e, f) =>
      let (failures, f) := renderAll x o f r
      ((task.1, e) :: failures, f)
    | (.ok (), f) => renderAll x o f r

/-- How many inputs were rendered and how many failed. -/
structure Summary where
  rendered : Nat
  failed : Nat
  deriving DecidableEq, Repr

/-- The word for a number of files. -/
def files (n : Nat) : Text :=
  Decimal.digits n ++ if n = 1 then " file".toList else " files".toList

/-- The session after a failure has been reported. -/
def reportFailure (s : Session) (failure : Path × Error) : Session :=
  (s.note .warn "dotweave::executors::batch"
      ("Failed to render ".toList ++ failure.1 ++ ": ".toList ++ failure.2.message)).say "⚠"
    ("Failed to render ".toList ++ failure.1 ++ ": ".toList ++ failure.2.code)

/-- The session after a batch has been reported. -/
def reportEnd (s : Session) (summary : Summary) (failures : List (Path × Error)) : Session :=
  let s := if summary.failed = 0 then s.say "✓" ("Rendered ".toList ++ files summary.rendered)
    else s.say "⚠" ("Rendered ".toList ++ files summary.rendered ++ ", ".toList ++
      Decimal.digits summary.failed ++ " failed".toList)
  failures.foldl reportFailure s

/-- Renders the inputs of a plan to a directory that is made first. -/
def renderPlan (x : Exporter) (o : BatchOptions) (s : Session) (tasks : List (Path × Path)) :
    Except Report Summary × Session :=
  match s.files.makeDirectories o.directory with
  | (.error e, f) =>
    (.error ⟨some ("Failed to create ".toList ++ o.directory), .file e⟩, { s with files := f })
  | (.ok (), f) =>
    let s := { s with files := f }.say "🕸️"
      ("Rendering ".toList ++ files tasks.length ++ " matching ".toList ++ o.pattern)
    let (failures, f) := renderAll x o s.files tasks
    let summary : Summary := ⟨tasks.length - failures.length, failures.length⟩
    (.ok summary, reportEnd { s with files := f } summary failures)

/-- The report on a malformed pattern. -/
def malformed (pattern : Text) (f : Glob.Fault) : Report :=
  ⟨some ("Invalid glob pattern '".toList ++ pattern ++ ['\'']), .pattern f⟩

/-- Renders all inputs that match the pattern. -/
def runAll (x : Exporter) (o : BatchOptions) (s : Session) : Except Report Summary × Session :=
  match s.files.inputs o.pattern with
  | .error f => (.error (malformed o.pattern f), s)
  | .ok [] =>
    (.ok ⟨0, 0⟩, s.say "ℹ" ("No supported files match ".toList ++ o.pattern))
  | .ok inputs => match plan o.directory o.format.extension inputs with
    | .error e => (.error ⟨none, .error e⟩, s)
    | .ok tasks => renderPlan x o s tasks

end DotGraph.Batch

namespace DotGraph

/-- Renders all inputs that match the pattern. Failures of single inputs make the whole fail in the
end. -/
def BatchOptions.run (x : Exporter) (o : BatchOptions) (s : Session) :
    Except Report Unit × Session :=
  match Batch.runAll x o s with
  | (.error r, s) => (.error r, s)
  | (.ok summary, s) =>
    if summary.failed = 0 then (.ok (), s)
    else (.error ⟨none, .renderings summary.failed (summary.failed + summary.rendered)⟩, s)

end DotGraph
