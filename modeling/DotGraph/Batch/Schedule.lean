import DotGraph.Batch.Run

/-!
# Batches in parallel

The tasks of a batch may be done at the same time: each goes on step by step, and between two steps
of one task there can be any steps of the others. A schedule says which task takes a step next, so
that every schedule is one way to interleave the tasks.

A task reads its input, makes the image, sees to the directory of its output, and writes the output.
If one of these fails, it takes no further steps.
-/

set_option autoImplicit false

namespace DotGraph.Batch

/-- How far a task has come. -/
inductive Phase where
  | waiting
  | loaded (document : Document)
  | made (image : Octets)
  | placed (image : Octets)
  | rendered
  | failed (error : Error)
  deriving DecidableEq

namespace Phase

/-- Whether the output of a task has been written. -/
def isRendered : Phase → Bool
  | rendered => true
  | waiting | loaded _ | made _ | placed _ | failed _ => false

/-- Whether a task has failed. -/
def isFailed : Phase → Bool
  | failed _ => true
  | waiting | loaded _ | made _ | placed _ | rendered => false

/-- Why a task has failed, if it has. -/
def error? : Phase → Option Error
  | failed e => some e
  | waiting | loaded _ | made _ | placed _ | rendered => none

/-- Whether a task has come to its end. -/
def isOver (p : Phase) : Bool := p.isRendered || p.isFailed

/-- How many steps a task takes at most from where it is. -/
def stepsLeft : Phase → Nat
  | waiting => 4
  | loaded _ => 3
  | made _ => 2
  | placed _ => 1
  | rendered | failed _ => 0

/-- The next step of a task on the files that all tasks share. -/
def next (x : Exporter) (o : BatchOptions) (task : Path × Path) (f : Files) :
    Phase → Phase × Files
  | waiting => match f.loadInput task.1 with
    | .error e => (failed e, f)
    | .ok d => (loaded d, f)
  | loaded d => match x.render f (d.toDot (quotingFor o.escapeQuotes)) o.engine o.format with
    | (.error e, g) => (failed e, g)
    | (.ok image, g) => (made image, g)
  | made image => match f.makeDirectories (Path.parent task.2) with
    | (.error e, g) => (failed (.file e), g)
    | (.ok (), g) => (placed image, g)
  | placed image => match f.write task.2 image with
    | .error e => (failed (.file e), f)
    | .ok g => (rendered, g)
  | rendered => (rendered, f)
  | failed e => (failed e, f)

end Phase

/-- A task and how far it has come. -/
structure Thread where
  task : Path × Path
  phase : Phase

/-- The threads of a batch and the files they share. -/
structure Progress where
  threads : List Thread
  files : Files

namespace Progress

/-- The beginning: no task has taken a step. -/
def start (tasks : List (Path × Path)) (f : Files) : Progress :=
  ⟨tasks.map (fun t => ⟨t, .waiting⟩), f⟩

/-- The task with a number takes a step. -/
def advance (x : Exporter) (o : BatchOptions) (s : Progress) (i : Nat) : Progress :=
  match s.threads[i]? with
  | none => s
  | some t =>
    let (phase, f) := t.phase.next x o t.task s.files
    ⟨s.threads.set i ⟨t.task, phase⟩, f⟩

/-- The tasks take steps in the order of a schedule. -/
def play (x : Exporter) (o : BatchOptions) (s : Progress) (schedule : List Nat) : Progress :=
  schedule.foldl (advance x o) s

/-- Whether all tasks have come to their end. -/
def isOver (s : Progress) : Bool :=
  s.threads.all (fun t => t.phase.isOver)

/-- How many tasks were rendered and how many failed. -/
def summary (s : Progress) : Summary :=
  ⟨s.threads.countP (fun t => t.phase.isRendered), s.threads.countP (fun t => t.phase.isFailed)⟩

/-- The inputs that failed, in the order of the tasks. -/
def failures (s : Progress) : List (Path × Error) :=
  s.threads.filterMap (fun t => t.phase.error?.map (fun e => (t.task.1, e)))

/-- The schedule in which one task after the other, from a first one on, takes its four steps. -/
def turns (first count : Nat) : List Nat :=
  (List.range' first count).flatMap (List.replicate 4)

end Progress

end DotGraph.Batch
