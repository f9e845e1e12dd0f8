import DotGraph.Builder

/-!
# Example graphs

Six graphs that together show every kind of statement. `Demo.all` lists them with their names, in
the order in which they are printed.
-/

set_option autoImplicit false

namespace DotGraph.Demo

/-- An attribute list with plain values. -/
def plain (l : List (String × String)) : Attrs :=
  Attrs.ofList (l.map (fun p => (p.1.toList, .plain p.2.toList)))

/-- A graph with steps run on it. -/
def built (g : Graph) (steps : List Step) : Graph :=
  g.withContainer (g.container.run steps).1

/-- A step that draws an edge between nodes. -/
def edge (source : String) (targets : List String) (attributes : List (String × String)) : Step :=
  .edge source.toList (targets.map String.toList) (plain attributes)

/-- A step that declares a node. -/
def node (name : String) (attributes : List (String × String)) : Step :=
  .node (.ofName name.toList) (plain attributes)

/-- Two nodes and an edge. -/
def hello : Graph :=
  built (.start false (some "hello".toList)
      (plain [("fontname", "sans serif"), ("bgcolor", "#fff0e0")]))
    [edge "a" ["b"] []]

/-- A chain with default attributes and a labelled branch. -/
def pipeline : Graph :=
  built (.start true (some "pipeline".toList) (plain [("rankdir", "LR")]))
    [.defaults .node (plain [("shape", "box"), ("style", "rounded")]),
      .defaults .edge (plain [("color", "#64B5F6")]),
      node "lex" [("label", "tokenize")],
      edge "lex" ["parse", "check", "emit"] [],
      edge "check" ["report"] [("style", "dashed"), ("label", "errors")]]

/-- Two clusters, an edge between them, and an edge to an unnamed group. -/
def clusters : Graph :=
  built (.start true (some "clusters".toList) (plain [("compound", "true")]))
    [.subgraph (some "cluster_frontend".toList)
        (plain [("label", "frontend"), ("color", "#1976D2")])
        [edge "ui" ["state"] []],
      .subgraph (some "cluster_backend".toList)
        (plain [("label", "backend"), ("color", "#F57C00")])
        [edge "api" ["db"] []],
      edge "state" ["api"] [("ltail", "cluster_frontend"), ("lhead", "cluster_backend")],
      .edgeBetween (.node (.ofName "api".toList)) [.subgraph workers] (plain [("style", "dotted")])]
where
  /-- The unnamed group of workers. -/
  workers : Subgraph :=
    let inner := (⟨true, []⟩ : Container).run [node "worker_1" [], node "worker_2" []]
    ⟨none, true, inner.1.statements⟩

/-- Record nodes joined through ports and compass points. -/
def records : Graph :=
  built (.start true (some "records".toList) .empty)
    [.defaultsNamed "node".toList (plain [("shape", "record")]),
      node "struct1" [("label", "<f0> left|<f1> mid|<f2> right")],
      node "struct2" [("label", "<f0> one|<f1> two")],
      edge "struct1:f1" ["struct2:f0"] [],
      .edgeBetween (.node (.withCompass "struct1".toList (some "f2".toList) .s))
        [.node (.withCompass "struct2".toList none .ne)] .empty]

/-- A table written as markup, with edges from and to its cells. -/
def htmlTable : Graph :=
  built (.start false (some "html".toList) .empty)
    [.defaults .node (plain [("shape", "plaintext")]),
      .node (.ofName "table".toList) (Attrs.ofList [("label".toList, .html table)]),
      edge "source" ["table:in"] [],
      edge "table:out" ["sink"] []]
where
  /-- The markup of the table. -/
  table : Text :=
    ("<table border=\"0\" cellborder=\"1\"><tr><td port=\"in\">in</td><td><b>core</b></td>" ++
      "<td port=\"out\">out</td></tr></table>").toList

/-- A strict graph with an edge given twice. -/
def strictEdges : Graph :=
  built { Graph.start false (some "strict".toList) .empty with strict := true }
    [edge "a" ["b"] [],
      edge "a" ["b"] [("color", "red")],
      .assign "label".toList (.plain "edges between a and b are merged".toList)]

/-- All examples with their names. -/
def all : List (Text × Graph) :=
  [("hello".toList, hello), ("pipeline".toList, pipeline), ("clusters".toList, clusters),
    ("records".toList, records), ("html".toList, htmlTable), ("strict".toList, strictEdges)]

end DotGraph.Demo
