import DotGraph.Text

/-!
# Engines and image formats

The layout engines and the output formats that can be asked for, with their names. A file in a
format has the name of the format as its extension, except for the two formats whose names mean
something else as an extension.
-/

set_option autoImplicit false

namespace DotGraph

/-- A layout engine. -/
inductive Engine where
  | dot | neato | fdp | sfdp | circo | twopi | osage | patchwork
  deriving DecidableEq, Repr

namespace Engine

/-- All engines in their order of declaration; the first is the default. -/
def all : List Engine := [.dot, .neato, .fdp, .sfdp, .circo, .twopi, .osage, .patchwork]

/-- The name of an engine. -/
def name : Engine → Text
  | dot => "dot".toList
  | neato => "neato".toList
  | fdp => "fdp".toList
  | sfdp => "sfdp".toList
  | circo => "circo".toList
  | twopi => "twopi".toList
  | osage => "osage".toList
  | patchwork => "patchwork".toList

instance : Inhabited Engine := ⟨.dot⟩

/-- The engine with a name. -/
def ofName? (t : Text) : Option Engine :=
  all.find? (fun e => e.name = t)

/-- The engine with a name, in any mixture of ASCII capitals and small letters. -/
def ofNameAnyCase? (t : Text) : Option Engine :=
  all.find? (fun e => e.name = t.asciiLower)

end Engine

/-- A format of rendered output. -/
inductive ImageFormat where
  | svg | png | pdf | jpg | gif | ps | json | dot | plain
  deriving DecidableEq, Repr

namespace ImageFormat

/-- All formats in their order of declaration; the first is the default. -/
def all : List ImageFormat := [.svg, .png, .pdf, .jpg, .gif, .ps, .json, .dot, .plain]

/-- The name of a format. -/
def name : ImageFormat → Text
  | svg => "svg".toList
  | png => "png".toList
  | pdf => "pdf".toList
  | jpg => "jpg".toList
  | gif => "gif".toList
  | ps => "ps".toList
  | json => "json".toList
  | dot => "dot".toList
  | plain => "plain".toList

instance : Inhabited ImageFormat := ⟨.svg⟩

/-- The format with a name. -/
def ofName? (t : Text) : Option ImageFormat :=
  all.find? (fun f => f.name = t)

/-- The format with a name, in any mixture of ASCII capitals and small letters. -/
def ofNameAnyCase? (t : Text) : Option ImageFormat :=
  all.find? (fun f => f.name = t.asciiLower)

/-- The extension of a file in a format. -/
def extension : ImageFormat → Text
  | dot => "gv".toList
  | plain => "txt".toList
  | f => f.name

end ImageFormat

end DotGraph
