import DotGraph.Command.Options
import DotGraph.Command.Session

/-!
# Writing a description as DOT text

The text goes to a file or, if none is named, to the standard output, and ends with a line end. The
description is loaded before the file is touched.
-/

set_option autoImplicit false

namespace DotGraph

/-- How quotes are written if they are to be escaped or not. -/
def quotingFor (escapeQuotes : Bool) : Dot.Quoting :=
  if escapeQuotes then .escaped else .asIs

/-- The session after a description has been loaded. -/
def Session.noteLoaded (s : Session) (input : Path) : Session :=
  s.note .debug "dotweave::description" ("Loading description from ".toList ++ input)

/-- Puts a text into a file. -/
def Session.writeDot (s : Session) (path : Path) (text : Text) : Except Report Unit × Session :=
  match s.files.write path (Octets.ofText text) with
  | .error e => (.error ⟨some ("Failed to create ".toList ++ path), .file e⟩, s)
  | .ok f =>
    (.ok (), { s with files := f }.say "✓" ("Wrote DOT to ".toList ++ path))

/-- Writes a description as DOT text. -/
def BuildOptions.run (o : BuildOptions) (s : Session) : Except Report Unit × Session :=
  match s.files.loadDescription o.input with
  | .error e => (.error (e.during "Failed to load " o.input), s)
  | .ok g =>
    let s := (s.noteLoaded o.input).note .info "dotweave::executors::build"
      ("Serializing ".toList ++ Decimal.digits g.body.length ++
        " top-level statement(s) from ".toList ++ o.input)
    let text := Dot.render (quotingFor o.escapeQuotes) g ++ ['\n']
    match o.output with
    | some path => s.writeDot path text
    | none => (.ok (), s.print text)

end DotGraph
