import DotGraph.Attrs
import DotGraph.NodeId

/-!
# Graphs

A graph is a header and a list of statements. A statement declares a node, an edge, default
attributes, a subgraph or a plain assignment. An edge leads from one endpoint through others; an
endpoint is a node or a whole subgraph, so that statements, endpoints and subgraphs contain each
other to any depth.

Subgraphs and edges carry a flag that says whether they are directed. It is meant to be the flag of
the graph they belong to; nothing in the types enforces that.
-/

set_option autoImplicit false

namespace DotGraph

/-- What a statement of default attributes applies to. -/
inductive Component where
  | graph | node | edge
  deriving DecidableEq, Repr

namespace Component

/-- All components in their order of declaration. -/
def all : List Component := [.graph, .node, .edge]

/-- The keyword of a component. -/
def keyword : Component → Text
  | graph => "graph".toList
  | node => "node".toList
  | edge => "edge".toList

/-- The component with a keyword. -/
def ofKeyword? (t : Text) : Option Component :=
  all.find? (fun c => c.keyword = t)

/-- The component with a keyword, or the fault that there is none. -/
def parse (t : Text) : Except ArgumentFault Component :=
  match ofKeyword? t with
  | some c => .ok c
  | none => .error (.unknownComponent t)

end Component

mutual

/-- One statement of a graph or subgraph. -/
inductive Statement where
  | node (id : NodeId) (attributes : List Attrs)
  | edge (edge : Edge)
  | attr (component : Component) (attributes : List Attrs)
  | subgraph (subgraph : Subgraph)
  | assign (key : Text) (value : Value)

/-- One end of an edge. -/
inductive Endpoint where
  | node (id : NodeId)
  | subgraph (subgraph : Subgraph)

/-- An edge from a source through one or more targets. -/
structure Edge where
  directed : Bool
  source : Endpoint
  targets : List Endpoint
  attributes : List Attrs

/-- A group of statements inside a graph. -/
structure Subgraph where
  name : Option Text
  directed : Bool
  body : List Statement

end

/-- A whole graph. -/
structure Graph where
  strict : Bool
  directed : Bool
  name : Option Text
  body : List Statement

/-- The graph without statements. -/
def Graph.empty (name : Option Text) (directed : Bool) : Graph := ⟨false, directed, name, []⟩

/-- The subgraph without statements. -/
def Subgraph.empty (name : Option Text) (directed : Bool) : Subgraph := ⟨name, directed, []⟩

instance : Inhabited Graph := ⟨.empty none false⟩
instance : Inhabited Subgraph := ⟨.empty none false⟩
instance : Inhabited Endpoint := ⟨.node (.ofName [])⟩
instance : Inhabited Statement := ⟨.node (.ofName []) []⟩

/-- An edge with one attribute list. It needs at least one target. -/
def Edge.make (directed : Bool) (source : Endpoint) (targets : List Endpoint) (attributes : Attrs) :
    Except ArgumentFault Edge :=
  match targets with
  | [] => .error .noDestination
  | t :: r => .ok ⟨directed, source, t :: r, [attributes]⟩

/-! ## Equality -/

mutual

/-- Decides whether two statements are equal. -/
def Statement.decEq : (a b : Statement) → Decidable (a = b)
  | .node i l, .node j m =>
    if h : i = j ∧ l = m then isTrue (by rw [h.1, h.2]) else isFalse (by simp_all)
  | .edge e, .edge f => match Edge.decEq e f with
    | isTrue h => isTrue (by rw [h])
    | isFalse h => isFalse (by simp_all)
  | .attr c l, .attr d m =>
    if h : c = d ∧ l = m then isTrue (by rw [h.1, h.2]) else isFalse (by simp_all)
  | .subgraph s, .subgraph t => match Subgraph.decEq s t with
    | isTrue h => isTrue (by rw [h])
    | isFalse h => isFalse (by simp_all)
  | .assign k v, .assign l w =>
    if h : k = l ∧ v = w then isTrue (by rw [h.1, h.2]) else isFalse (by simp_all)
  | .node .., .edge .. | .node .., .attr .. | .node .., .subgraph .. | .node .., .assign ..
  | .edge .., .node .. | .edge .., .attr .. | .edge .., .subgraph .. | .edge .., .assign ..
  | .attr .., .node .. | .attr .., .edge .. | .attr .., .subgraph .. | .attr .., .assign ..
  | .subgraph .., .node .. | .subgraph .., .edge .. | .subgraph .., .attr ..
  | .subgraph .., .assign .. | .assign .., .node .. | .assign .., .edge .. | .assign .., .attr ..
  | .assign .., .subgraph .. => isFalse (by simp)

/-- Decides whether two endpoints are equal. -/
def Endpoint.decEq : (a b : Endpoint) → Decidable (a = b)
  | .node i, .node j => if h : i = j then isTrue (by rw [h]) else isFalse (by simp_all)
  | .subgraph s, .subgraph t => match Subgraph.decEq s t with
    | isTrue h => isTrue (by rw [h])
    | isFalse h => isFalse (by simp_all)
  | .node .., .subgraph .. | .subgraph .., .node .. => isFalse (by simp)

/-- Decides whether two edges are equal. -/
def Edge.decEq : (a b : Edge) → Decidable (a = b)
  | ⟨d, s, t, l⟩, ⟨d', s', t', l'⟩ =>
    match Endpoint.decEq s s', Endpoint.decEqs t t' with
    | isTrue hs, isTrue ht =>
      if h : d = d' ∧ l = l' then isTrue (by rw [hs, ht, h.1, h.2]) else isFalse (by simp_all)
    | isFalse hs, _ => isFalse (by simp_all)
    | _, isFalse ht => isFalse (by simp_all)

/-- Decides whether two subgraphs are equal. -/
def Subgraph.decEq : (a b : Subgraph) → Decidable (a = b)
  | ⟨n, d, b⟩, ⟨n', d', b'⟩ => match Statement.decEqs b b' with
    | isTrue hb =>
      if h : n = n' ∧ d = d' then isTrue (by rw [hb, h.1, h.2]) else isFalse (by simp_all)
    | isFalse hb => isFalse (by simp_all)

/-- Decides whether two lists of statements are equal. -/
def Statement.decEqs : (a b : List Statement) → Decidable (a = b)
  | [], [] => isTrue rfl
  | [], _ :: _ | _ :: _, [] => isFalse (by simp)
  | a :: r, b :: s => match Statement.decEq a b, Statement.decEqs r s with
    | isTrue h, isTrue k => isTrue (by rw [h, k])
    | isFalse h, _ => isFalse (by simp_all)
    | _, isFalse h => isFalse (by simp_all)

/-- Decides whether two lists of endpoints are equal. -/
def Endpoint.decEqs : (a b : List Endpoint) → Decidable (a = b)
  | [], [] => isTrue rfl
  | [], _ :: _ | _ :: _, [] => isFalse (by simp)
  | a :: r, b :: s => match Endpoint.decEq a b, Endpoint.decEqs r s with
    | isTrue h, isTrue k => isTrue (by rw [h, k])
    | isFalse h, _ => isFalse (by simp_all)
    | _, isFalse h => isFalse (by simp_all)

end

instance : DecidableEq Statement := Statement.decEq
instance : DecidableEq Endpoint := Endpoint.decEq
instance : DecidableEq Edge := Edge.decEq
instance : DecidableEq Subgraph := Subgraph.decEq

/-- Decides whether two graphs are equal. -/
instance : DecidableEq Graph
  | ⟨s, d, n, b⟩, ⟨s', d', n', b'⟩ =>
    if h : s = s' ∧ d = d' ∧ n = n' ∧ b = b' then
      isTrue (by rw [h.1, h.2.1, h.2.2.1, h.2.2.2])
    else isFalse (by simp_all)

end DotGraph
