import DotGraph.Graph

/-!
# Directedness

Subgraphs and edges carry a flag that says whether they are directed. `redirect` gives one flag to
everything inside a statement, an endpoint, an edge or a subgraph, at every depth, and changes
nothing else.
-/

set_option autoImplicit false

namespace DotGraph

mutual

/-- The statement with every flag in it set to `d`. -/
def Statement.redirect (d : Bool) : Statement → Statement
  | .node i l => .node i l
  | .edge e => .edge (e.redirect d)
  | .attr c l => .attr c l
  | .subgraph s => .subgraph (s.redirect d)
  | .assign k v => .assign k v

/-- The endpoint with every flag in it set to `d`. -/
def Endpoint.redirect (d : Bool) : Endpoint → Endpoint
  | .node i => .node i
  | .subgraph s => .subgraph (s.redirect d)

/-- The edge with its own flag and every flag in its endpoints set to `d`. -/
def Edge.redirect (d : Bool) : Edge → Edge
  | ⟨_, s, t, l⟩ => ⟨d, s.redirect d, Endpoint.redirectAll d t, l⟩

/-- The subgraph with its own flag and every flag in its body set to `d`. -/
def Subgraph.redirect (d : Bool) : Subgraph → Subgraph
  | ⟨n, _, b⟩ => ⟨n, d, Statement.redirectAll d b⟩

/-- The statements with every flag in them set to `d`. -/
def Statement.redirectAll (d : Bool) : List Statement → List Statement
  | [] => []
  | s :: r => s.redirect d :: Statement.redirectAll d r

/-- The endpoints with every flag in them set to `d`. -/
def Endpoint.redirectAll (d : Bool) : List Endpoint → List Endpoint
  | [] => []
  | e :: r => e.redirect d :: Endpoint.redirectAll d r

end

end DotGraph
