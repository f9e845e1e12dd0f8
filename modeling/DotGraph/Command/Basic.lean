import DotGraph.Command.Options

/-!
# Commands

What the program can be told to do. A command that has been typed is turned into the options of its
kind; the options of another kind cannot be taken from it.
-/

set_option autoImplicit false

namespace DotGraph

/-- The choice of an engine, a format and the program that renders. -/
structure EngineChoice where
  engine : Engine
  format : ImageFormat
  graphviz : Path
  deriving DecidableEq, Repr

/-- A command as it has been typed. -/
inductive Command where
  | build (input : Path) (output : Option Path) (escapeQuotes : Bool)
  | render (input output : Path) (choice : EngineChoice) (escapeQuotes : Bool)
  | batch (pattern : Text) (directory : Path) (choice : EngineChoice) (escapeQuotes : Bool)
  | demo (output : Option Path)
  deriving DecidableEq, Repr

namespace Command

/-- The name of a command. -/
def name : Command → CommandName
  | build .. => .build
  | render .. => .render
  | batch .. => .batch
  | demo .. => .demo

/-- The options of a command that writes a description as DOT text. -/
def buildOptions : Command → Except Error BuildOptions
  | build input output escape => BuildDraft.finish ⟨some input, output, some escape⟩
  | _ => .error (.configuration (.otherCommand .build))

/-- The options of a command that renders one input. -/
def renderOptions : Command → Except Error RenderOptions
  | render input output c escape =>
    RenderDraft.finish
      ⟨some input, some output, some c.engine, some c.format, some c.graphviz, some escape⟩
  | _ => .error (.configuration (.otherCommand .render))

/-- The options of a command that renders many inputs. -/
def batchOptions : Command → Except Error BatchOptions
  | batch pattern directory c escape =>
    BatchDraft.finish
      ⟨some pattern, some directory, some c.engine, some c.format, some c.graphviz, some escape⟩
  | _ => .error (.configuration (.otherCommand .batch))

/-- The options of a command that writes the examples. -/
def demoOptions : Command → Except Error DemoOptions
  | demo output => .ok ⟨output⟩
  | _ => .error (.configuration (.otherCommand .demo))

end Command

end DotGraph
