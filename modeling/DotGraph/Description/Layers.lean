import DotGraph.Description.Schema
import DotGraph.Directed

/-!
# Layers around a statement

A statement stands in the graph itself, or in a container inside it: a subgraph, or a subgraph at an
end of an edge. `Schema.Leads` says which layers of a datum lead from a part of a graph to a
statement in it, and `Schema.Surroundings` is what such layers are in a graph that has been read. A
value stands in a statement, as that of an identity or at a key of an attribute list:
`Schema.Carrier` is what is around it there.
-/

set_option autoImplicit false

namespace DotGraph.Schema

/-! ## Layers of a datum -/

/-- What stands around a datum in a map or list. -/
inductive Layer where
  | member (front : List Member) (key : Text) (back : List Member)
  | item (front back : List Datum)

/-- The map or list. -/
def Layer.around : Layer → Datum → Datum
  | member front key back, d => .map (front ++ ⟨key, d⟩ :: back)
  | item front back, d => .list (front ++ d :: back)

/-- A datum with layers around it, the outermost first. -/
def surround (layers : List Layer) (d : Datum) : Datum := layers.foldr Layer.around d

theorem surround_cons (layer : Layer) (p : List Layer) (d : Datum) :
    surround (layer :: p) d = layer.around (surround p d) :=
  rfl

/-- The layers through which a part of a graph leads to a statement in it. Where a list stands for a
map, its items are the fields in their order. -/
inductive Leads : Role → List Layer → Prop where
  | here : Leads .statement []
  | graph {front back : List Member} {p : List Layer} : Leads .body p →
      Leads .graph (.member front "statements".toList back :: p)
  | graphItem {front back : List Datum} {p : List Layer} : front.length = 4 → Leads .body p →
      Leads .graph (.item front back :: p)
  | body {front back : List Datum} {p : List Layer} : Leads .statement p →
      Leads .body (.item front back :: p)
  | nested {front back : List Member} {p : List Layer} : OfKind (front ++ back) .subgraph →
      Leads .body p → Leads .statement (.member front "statements".toList back :: p)
  | nestedItem {front back : List Datum} {p : List Layer} : front.length = 2 → Leads .body p →
      Leads .statement (.item (.text Kind.subgraph.name :: front) back :: p)
  | source {front back : List Member} {p : List Layer} : OfKind (front ++ back) .edge →
      Leads .endpoint p → Leads .statement (.member front "from".toList back :: p)
  | sourceItem {back : List Datum} {p : List Layer} : Leads .endpoint p →
      Leads .statement (.item [.text Kind.edge.name] back :: p)
  | goal {front back : List Member} {p : List Layer} : OfKind (front ++ back) .edge →
      Leads .targets p → Leads .statement (.member front "to".toList back :: p)
  | goalItem {source : Datum} {back : List Datum} {p : List Layer} : Leads .targets p →
      Leads .statement (.item [.text Kind.edge.name, source] back :: p)
  | inline {front back : List Member} {p : List Layer} : Leads .subgraph p →
      Leads .endpoint (.member front "subgraph".toList back :: p)
  | target {p : List Layer} : Leads .endpoint p → Leads .targets p
  | targets {front back : List Datum} {p : List Layer} : Leads .endpoint p →
      Leads .targets (.item front back :: p)
  | subgraph {front back : List Member} {p : List Layer} : Leads .body p →
      Leads .subgraph (.member front "statements".toList back :: p)
  | subgraphItem {front back : List Datum} {p : List Layer} : front.length = 2 → Leads .body p →
      Leads .subgraph (.item front back :: p)

/-- Layers of a graph with nothing but its list of statements around a statement. -/
def AtTop (p : List Layer) : Prop := p.length = 2

/-! ## Surroundings in a graph -/

/-- A container around a statement, with the other statements in it: a subgraph, or a subgraph at
the source or among the targets of an edge. -/
inductive Container where
  | subgraph (name : Option Text) (before after : List Statement)
  | source (name : Option Text) (before after : List Statement) (targets : List Endpoint)
      (attributes : List Attrs)
  | target (origin : Endpoint) (earlier : List Endpoint) (name : Option Text)
      (before after : List Statement) (later : List Endpoint) (attributes : List Attrs)

/-- The statement that a container with a statement in it is. The container and its edge have the
flag. -/
def Container.around (directed : Bool) : Container → Statement → Statement
  | subgraph name before after, a => .subgraph ⟨name, directed, before ++ a :: after⟩
  | source name before after targets attributes, a =>
    .edge ⟨directed, .subgraph ⟨name, directed, before ++ a :: after⟩, targets, attributes⟩
  | target origin earlier name before after later attributes, a =>
    .edge ⟨directed, origin, earlier ++ .subgraph ⟨name, directed, before ++ a :: after⟩ :: later,
      attributes⟩

/-- A spot for a statement among others: the containers around it, the outermost first, and what
stands before and after the outermost. -/
structure Spot where
  before : List Statement
  containers : List Container
  after : List Statement

/-- The statements with one in the spot. -/
def Spot.fill (directed : Bool) (s : Spot) (a : Statement) : List Statement :=
  s.before ++ s.containers.foldr (Container.around directed) a :: s.after

/-- A graph with a spot for a statement. All containers around the spot have the flag of the
graph. -/
structure Surroundings where
  strict : Bool
  directed : Bool
  name : Option Text
  spot : Spot

/-- The graph with a statement in the spot. -/
def Surroundings.fill (s : Surroundings) (a : Statement) : Graph :=
  ⟨s.strict, s.directed, s.name, s.spot.fill s.directed a⟩

/-! ## Surroundings of a value -/

/-- What attribute lists belong to. -/
inductive Owner where
  | node (id : NodeId)
  | edge (directed : Bool) (source : Endpoint) (targets : List Endpoint)
  | attr (component : Component)

/-- The statement with attribute lists. -/
def Owner.withLists : Owner → List Attrs → Statement
  | node id, l => .node id l
  | edge directed source targets, l => .edge ⟨directed, source, targets, l⟩
  | attr component, l => .attr component l

/-- A statement with a spot for a value: an identity, or an attribute list among others in which a
key has the value. -/
inductive Carrier where
  | assign (key : Text)
  | listed (owner : Owner) (before : List Attrs) (others : Attrs) (key : Text)
      (after : List Attrs)

/-- The statement with a value in the spot. -/
def Carrier.fill : Carrier → Value → Statement
  | assign key, x => .assign key x
  | listed owner before others key after, x =>
    owner.withLists (before ++ others.set key x :: after)

/-- The graph with a value in the spot of a statement in it, which has the flag of the graph as all
other parts have. -/
def Surroundings.hold (s : Surroundings) (c : Carrier) (x : Value) : Graph :=
  s.fill ((c.fill x).redirect s.directed)

end DotGraph.Schema
