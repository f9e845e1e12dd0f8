import DotGraph.Graph
import DotGraph.Description.Datum

/-!
# Descriptions of graphs

The description that a graph is written as. Node ids are one text, targets and attributes are always
lists, and the flags of subgraphs and edges are left out, as reading restores them from the flag of
the graph.
-/

set_option autoImplicit false

namespace DotGraph

/-- The description of a value. -/
def Value.toDatum : Value → Datum
  | .plain t => .text t
  | .html m => .map [⟨"html".toList, .text m⟩]

/-- The members that describe the entries of an attribute list. -/
def Attrs.members : List (Text × Value) → List Member
  | [] => []
  | (k, v) :: r => ⟨k, v.toDatum⟩ :: Attrs.members r

/-- The description of an attribute list. -/
def Attrs.toDatum (a : Attrs) : Datum :=
  .map (Attrs.members a.entries)

/-- The description of several attribute lists. -/
def Attrs.listToDatum (l : List Attrs) : Datum :=
  .list (l.map Attrs.toDatum)

/-- The member for a name, if there is one. -/
def nameMember : Option Text → List Member
  | none => []
  | some n => [⟨"name".toList, .text n⟩]

mutual

/-- The description of a statement. -/
def Statement.toDatum : Statement → Datum
  | .node id l => .map [⟨"kind".toList, .text "node".toList⟩, ⟨"id".toList, .text id.joined⟩,
      ⟨"attributes".toList, Attrs.listToDatum l⟩]
  | .edge e => .map (⟨"kind".toList, .text "edge".toList⟩ :: e.members)
  | .attr c l => .map [⟨"kind".toList, .text "attr".toList⟩, ⟨"component".toList, .text c.keyword⟩,
      ⟨"attributes".toList, Attrs.listToDatum l⟩]
  | .subgraph s => .map (⟨"kind".toList, .text "subgraph".toList⟩ :: s.members)
  | .assign k v => .map [⟨"kind".toList, .text "identity".toList⟩, ⟨"key".toList, .text k⟩,
      ⟨"value".toList, v.toDatum⟩]

/-- The members that describe an edge. -/
def Edge.members : Edge → List Member
  | ⟨_, s, t, l⟩ => [⟨"from".toList, s.toDatum⟩, ⟨"to".toList, .list (Endpoint.listToDatum t)⟩,
      ⟨"attributes".toList, Attrs.listToDatum l⟩]

/-- The description of an endpoint. -/
def Endpoint.toDatum : Endpoint → Datum
  | .node id => .text id.joined
  | .subgraph s => .map [⟨"subgraph".toList, .map s.members⟩]

/-- The members that describe a subgraph. -/
def Subgraph.members : Subgraph → List Member
  | ⟨n, _, b⟩ => nameMember n ++ [⟨"statements".toList, .list (Statement.listToDatum b)⟩]

/-- The descriptions of statements. -/
def Statement.listToDatum : List Statement → List Datum
  | [] => []
  | s :: r => s.toDatum :: Statement.listToDatum r

/-- The descriptions of endpoints. -/
def Endpoint.listToDatum : List Endpoint → List Datum
  | [] => []
  | e :: r => e.toDatum :: Endpoint.listToDatum r

end

/-- The description of a subgraph on its own. -/
def Subgraph.toDatum (s : Subgraph) : Datum :=
  .map s.members

/-- The description of a graph. -/
def Graph.toDatum (g : Graph) : Datum :=
  .map ([⟨"strict".toList, .bool g.strict⟩, ⟨"directed".toList, .bool g.directed⟩] ++
    nameMember g.name ++ [⟨"statements".toList, .list (Statement.listToDatum g.body)⟩])

end DotGraph
