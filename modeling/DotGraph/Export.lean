import DotGraph.Dot.Render
import DotGraph.Script.Launch
import DotGraph.Text

/-!
# Exporting

An exporter makes the octets of an image from DOT text. It may look at the files and may change
them; `Exporter.ofFunction` is one that does neither. What an exporter makes is put into a file only
after it has been made, so that a failure leaves the file alone.
-/

set_option autoImplicit false

namespace DotGraph

/-- Makes the octets of an image, and leaves the files. -/
structure Exporter where
  render : Files → Text → Engine → ImageFormat → Except Error Octets × Files

namespace Exporter

/-- The exporter that is a function of the DOT text, the engine and the format. -/
def ofFunction (make : Text → Engine → ImageFormat → Except Error Octets) : Exporter :=
  ⟨fun f dot engine format => (make dot engine format, f)⟩

/-- The arguments of a rendering program. -/
def programArguments (leading : List Text) (engine : Engine) (format : ImageFormat) : List Text :=
  leading ++ [['-', 'K'] ++ engine.name, ['-', 'T'] ++ format.name]

/-- What becomes of the result of a rendering program. -/
def ofResult (engine : Engine) (r : Script.Result) : Except Error Octets :=
  if r.status = .code 0 then .ok r.output
  else .error (.renderFailed engine r.status (Text.trim (Octets.decodeLossy r.complaint)))

/-- The exporter that runs a program with the DOT text as its input. The arguments for the engine
and the format come after the leading ones. -/
def program (executable : Path) (leading : List Text) : Exporter :=
  ⟨fun f dot engine format =>
    match Script.launch f executable (programArguments leading engine format)
      (Octets.ofText dot) with
    | .error .notFound => (.error (.engineNotFound executable), f)
    | .error e => (.error (.file e), f)
    | .ok r => (ofResult engine r, r.files)⟩

/-- Renders DOT text to a file. Directories that are missing on the way are made. -/
def renderToFile (x : Exporter) (f : Files) (dot : Text) (path : Path) (engine : Engine)
    (format : ImageFormat) : Except Error Unit × Files :=
  match x.render f dot engine format with
  | (.error e, f) => (.error e, f)
  | (.ok bytes, f) => match f.makeDirectories (Path.parent path) with
    | (.error e, f) => (.error (.file e), f)
    | (.ok (), f) => match f.write path bytes with
      | .error e => (.error (.file e), f)
      | .ok f => (.ok (), f)

/-- Renders a graph to a file. -/
def exportGraph (x : Exporter) (f : Files) (g : Graph) (path : Path) (engine : Engine)
    (format : ImageFormat) : Except Error Unit × Files :=
  x.renderToFile f (Dot.render .asIs g) path engine format

end Exporter

end DotGraph
