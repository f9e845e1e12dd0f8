import DotGraph.Export
import DotGraph.Glob.Search
import DotGraph.Log

/-!
# Sessions

A command works on the files, prints to the standard output, and reports what it has done in status
lines. If it fails, a report says what it was doing and why it did not succeed.
-/

set_option autoImplicit false

namespace DotGraph

/-- Why a command fails: an error, a file that cannot be used, a malformed pattern, or renderings
that failed one by one. -/
inductive Failure where
  | error (error : Error)
  | file (fault : FileFault)
  | pattern (fault : Glob.Fault)
  | renderings (failed total : Nat)
  deriving DecidableEq, Repr

/-- The failure of a command, and what it was doing if that is worth saying. -/
structure Report where
  context : Option Text
  failure : Failure
  deriving DecidableEq, Repr

namespace Report

/-- The error behind a report, if it is one with a code and advice. -/
def error? (r : Report) : Option Error :=
  match r.failure with
  | .error e => some e
  | _ => none

/-- The wording of a report, outermost first. -/
def chain (r : Report) : List Text :=
  r.context.toList ++ match r.failure with
    | .error e => e.chain
    | .file f => [f.message]
    | .pattern f => [f.message]
    | .renderings failed total => [Decimal.digits failed ++ " of ".toList ++ Decimal.digits total ++
        " file(s) failed to render".toList]

end Report

/-- A report on an error met while something was being done. -/
def Error.during (doing : String) (what : Text) (e : Error) : Report :=
  ⟨some (doing.toList ++ what), .error e⟩

/-- The files, and what has been printed, reported and noted. -/
structure Session where
  files : Files
  output : Text
  status : List Text
  notes : List Log.Note
  deriving DecidableEq, Repr

namespace Session

/-- The session that starts with some files. -/
def start (f : Files) : Session := ⟨f, [], [], []⟩

/-- Prints a text. -/
def print (s : Session) (t : Text) : Session := { s with output := s.output ++ t }

/-- Adds a status line: a mark and a text. -/
def say (s : Session) (mark : String) (t : Text) : Session :=
  { s with status := s.status ++ [mark.toList ++ ' ' :: t] }

/-- Adds a note. -/
def note (s : Session) (level : Log.Level) (topic : String) (t : Text) : Session :=
  { s with notes := s.notes ++ [⟨level, topic.toList, t⟩] }

end Session

end DotGraph
