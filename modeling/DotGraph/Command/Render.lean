import DotGraph.Command.Build

/-!
# Rendering one input

An input is loaded and its DOT text is rendered to a file.
-/

set_option autoImplicit false

namespace DotGraph

/-- Renders an input. -/
def RenderOptions.run (x : Exporter) (o : RenderOptions) (s : Session) :
    Except Report Unit × Session :=
  match s.files.loadInput o.input with
  | .error e => (.error (e.during "Failed to load " o.input), s)
  | .ok d =>
    let s := s.note .info "dotweave::executors::render" ("Rendering ".toList ++ o.input ++
      " with ".toList ++ o.engine.name ++ " as ".toList ++ o.format.name)
    let dot := d.toDot (quotingFor o.escapeQuotes)
    match x.renderToFile s.files dot o.output o.engine o.format with
    | (.error e, f) => (.error (e.during "Failed to render " o.input), { s with files := f })
    | (.ok (), f) =>
      (.ok (), { s with files := f }.say "✓"
        ("Rendered ".toList ++ o.input ++ " → ".toList ++ o.output))

end DotGraph
