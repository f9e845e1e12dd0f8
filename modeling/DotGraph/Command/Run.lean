import DotGraph.Batch.Run
import DotGraph.Command.Demo
import DotGraph.Command.Line
import DotGraph.Command.Render

/-!
# Running commands

A command is turned into its options and run. A whole program run reads the command line first, and
ends with a status for its caller.
-/

set_option autoImplicit false

namespace DotGraph

/-- A report on options that cannot be used. -/
def refuse (c : CommandName) (e : Error) : Report :=
  ⟨some ("Failed to parse ".toList ++ c.text ++ " command configuration".toList), .error e⟩

/-- Runs a command. Programs that render are started by `start`. -/
def Command.run (start : Path → Exporter) (c : Command) (s : Session) :
    Except Report Unit × Session :=
  match c.name with
  | .build => match c.buildOptions with
    | .error e => (.error (refuse .build e), s)
    | .ok o => o.run s
  | .render => match c.renderOptions with
    | .error e => (.error (refuse .render e), s)
    | .ok o => o.run (start o.graphviz) s
  | .batch => match c.batchOptions with
    | .error e => (.error (refuse .batch e), s)
    | .ok o => o.run (start o.graphviz) s
  | .demo => match c.demoOptions with
    | .error e => (.error (refuse .demo e), s)
    | .ok o => o.run s

/-- The exporter for a program without leading arguments. -/
def startProgram (executable : Path) : Exporter :=
  .program executable []

/-- The text that is printed when the version is asked for. -/
def versionText : Text := "dotweave 0.1.0\n".toList

/-- What a run of the whole program leaves: its exit status, the session, and what goes to the error
output. -/
structure ProgramRun where
  exitCode : Nat
  session : Session
  complaints : List Text

/-- A note as it is shown. -/
def Log.Note.line (n : Log.Note) : Text :=
  n.level.name ++ ' ' :: n.topic ++ ": ".toList ++ n.text

/-- The wording of a report as it is shown. -/
def Report.lines (r : Report) : List Text :=
  let causes := match r.chain with
    | [] => []
    | m :: l => ("Error: ".toList ++ m) :: l.map (fun c => "  caused by: ".toList ++ c)
  causes ++ match r.error? with
    | some e => ["  code: ".toList ++ e.code, "  help: ".toList ++ e.help]
    | none => []

/-- What is said about a command line that is not run. -/
def Usage.message : Usage → Text
  | missingArgument => "a required argument is missing".toList
  | invalidValue => "a value is missing or invalid".toList
  | unknownArgument => "there is an unexpected argument".toList
  | repeatedArgument => "an argument is given more than once".toList
  | unknownCommand => "there is no such command".toList
  | missingCommand => "a command is missing".toList
  | needlessValue => "an argument that takes no value is given one".toList
  | nothingGiven => "a command is needed: build, render, batch or demo".toList
  | help => "dotweave [-v] build|render|batch|demo [options]\n".toList
  | version => versionText

/-- Runs the whole program on the files. -/
def runProgram (environment : List (Text × Text)) (words : List Text) (f : Files) : ProgramRun :=
  match CommandLine.read environment words with
  | .error .help => ⟨0, (Session.start f).print Usage.help.message, []⟩
  | .error .version => ⟨0, (Session.start f).print versionText, []⟩
  | .error u => ⟨u.exitCode, .start f, ["error: ".toList ++ u.message]⟩
  | .ok i =>
    let (outcome, s) := i.command.run startProgram (.start f)
    let shown := (s.notes.filter (Log.shows (Log.rules environment i.verbosity))).map Log.Note.line
    match outcome with
    | .ok () => ⟨0, s, shown ++ s.status⟩
    | .error r => ⟨1, s, shown ++ s.status ++ r.lines⟩

end DotGraph
