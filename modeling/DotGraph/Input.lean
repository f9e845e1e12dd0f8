import DotGraph.Dot.Render
import DotGraph.Files
import DotGraph.Json.Read
import DotGraph.Toml.Read

/-!
# Inputs

An input is a file with DOT text, which is taken as it is, or a description in JSON or TOML. The
extension of its path decides, before the file is touched.
-/

set_option autoImplicit false

namespace DotGraph

/-- The kinds of inputs. -/
inductive InputKind where
  | dot | json | toml
  deriving DecidableEq, Repr

namespace InputKind

/-- The kind that an extension in small letters stands for. -/
def ofExtension? (e : Text) : Option InputKind :=
  if e = "dot".toList ∨ e = "gv".toList then some .dot
  else if e = "json".toList then some .json
  else if e = "toml".toList then some .toml
  else none

/-- The kind of the input at a path. ASCII capitals in the extension count as small letters. -/
def ofPath (p : Path) : Except Error InputKind :=
  match ofExtension? (Text.asciiLower ((Path.extension? p).getD [])) with
  | some k => .ok k
  | none => .error (.configuration (.unsupportedInput p))

/-- Whether the input at a path is of one of the kinds. -/
def supports (p : Path) : Bool :=
  match ofPath p with
  | .ok _ => true
  | .error _ => false

end InputKind

/-- A loaded input. -/
inductive Document where
  | source (text : Text)
  | graph (graph : Graph)
  deriving DecidableEq

/-- The DOT text of an input. Only a graph is affected by the way of quoting. -/
def Document.toDot (q : Dot.Quoting) : Document → Text
  | source t => t
  | graph g => Dot.render q g

/-- Reads a graph from the text of a JSON description. -/
def parseJson (text : Text) : Except Error Graph :=
  match Json.parse text with
  | .ok g => .ok g
  | .error p => .error (.json p)

/-- Reads a graph from the text of a TOML description that has a name. -/
def parseToml (name text : Text) : Except Error Graph :=
  match Toml.parse text with
  | .ok g => .ok g
  | .error p => .error (.toml name p)

namespace Files

/-- The text of an input. -/
def inputText (f : Files) (p : Path) : Except Error Text :=
  match f.readText p with
  | .ok t => .ok t
  | .error e => .error (.unreadable p e)

/-- Loads a description. The file is read before DOT text is refused. -/
def loadDescription (f : Files) (p : Path) : Except Error Graph :=
  match InputKind.ofPath p with
  | .error e => .error e
  | .ok kind => match f.inputText p with
    | .error e => .error e
    | .ok t => match kind with
      | .json => parseJson t
      | .toml => parseToml p t
      | .dot => .error (.configuration (.notDescription p))

/-- Loads any input. -/
def loadInput (f : Files) (p : Path) : Except Error Document :=
  match InputKind.ofPath p with
  | .error e => .error e
  | .ok .dot => match f.inputText p with
    | .error e => .error e
    | .ok t => .ok (.source t)
  | .ok _ => match f.loadDescription p with
    | .error e => .error e
    | .ok g => .ok (.graph g)

end Files

end DotGraph
