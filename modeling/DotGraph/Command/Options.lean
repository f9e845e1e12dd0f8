import DotGraph.Error
import DotGraph.Path
import DotGraph.Text

/-!
# Options

What the commands are told. A draft holds the options that have been given so far; `finish` fills in
defaults, or names what is missing.
-/

set_option autoImplicit false

namespace DotGraph

/-- The program that renders when none is named. -/
def defaultGraphviz : Path := "dot".toList

/-- A field that has to be given. -/
def requireField {α : Type} (name : String) : Option α → Except Error α
  | some a => .ok a
  | none => .error (.configuration (.missingField name.toList))

/-- Options for writing a description as DOT text, to a file or to the standard output. -/
structure BuildOptions where
  input : Path
  output : Option Path
  escapeQuotes : Bool
  deriving DecidableEq, Repr

/-- Options for rendering one input. -/
structure RenderOptions where
  input : Path
  output : Path
  engine : Engine
  format : ImageFormat
  graphviz : Path
  escapeQuotes : Bool
  deriving DecidableEq, Repr

/-- Options for rendering all inputs that a pattern matches. -/
structure BatchOptions where
  pattern : Text
  directory : Path
  engine : Engine
  format : ImageFormat
  graphviz : Path
  escapeQuotes : Bool
  deriving DecidableEq, Repr

/-- Options for writing the example graphs, to a directory or to the standard output. -/
structure DemoOptions where
  output : Option Path
  deriving DecidableEq, Repr

/-- Options for writing a description that have been given. -/
structure BuildDraft where
  input : Option Path := none
  output : Option Path := none
  escapeQuotes : Option Bool := none

/-- Options for rendering one input that have been given. -/
structure RenderDraft where
  input : Option Path := none
  output : Option Path := none
  engine : Option Engine := none
  format : Option ImageFormat := none
  graphviz : Option Path := none
  escapeQuotes : Option Bool := none

/-- Options for rendering many inputs that have been given. -/
structure BatchDraft where
  pattern : Option Text := none
  directory : Option Path := none
  engine : Option Engine := none
  format : Option ImageFormat := none
  graphviz : Option Path := none
  escapeQuotes : Option Bool := none

/-- The options of a draft. -/
def BuildDraft.finish (d : BuildDraft) : Except Error BuildOptions :=
  match requireField "input" d.input with
  | .error e => .error e
  | .ok input => .ok ⟨input, d.output, d.escapeQuotes.getD false⟩

/-- The options of a draft. -/
def RenderDraft.finish (d : RenderDraft) : Except Error RenderOptions :=
  match requireField "input" d.input with
  | .error e => .error e
  | .ok input => match requireField "output" d.output with
    | .error e => .error e
    | .ok output => .ok ⟨input, output, d.engine.getD default, d.format.getD default,
        d.graphviz.getD defaultGraphviz, d.escapeQuotes.getD false⟩

/-- The options of a draft. A pattern of blanks is refused before a missing directory is. -/
def BatchDraft.finish (d : BatchDraft) : Except Error BatchOptions :=
  match requireField "pattern" d.pattern with
  | .error e => .error e
  | .ok pattern =>
    if (Text.trim pattern).isEmpty then .error (.configuration .blankPattern)
    else match requireField "out_dir" d.directory with
      | .error e => .error e
      | .ok directory => .ok ⟨pattern, directory, d.engine.getD default, d.format.getD default,
          d.graphviz.getD defaultGraphviz, d.escapeQuotes.getD false⟩

end DotGraph
