import DotGraph.Directed

/-!
# Building graphs

A container is the flag and the statements of a graph or subgraph. Building only ever appends to it.
The flag of the container is given to every edge and subgraph made in it, also inside the endpoints
of an edge; only `push` takes a statement as it is.

`Step` lists the calls a program of such operations consists of, with the steps that fill a nested
subgraph inside the step that opens it, and `Container.run` runs them. A step that fails appends
nothing, except that a subgraph which is filled under supervision stays with what was put into it
before the failure.
-/

set_option autoImplicit false

namespace DotGraph

/-- The growing part of a graph or subgraph. -/
structure Container where
  directed : Bool
  statements : List Statement
  deriving DecidableEq

namespace Container

/-- The container with a statement appended as it is. -/
def push (c : Container) (s : Statement) : Container :=
  { c with statements := c.statements ++ [s] }

/-- Declares a node. -/
def node (c : Container) (id : NodeId) (attributes : Attrs) : Container :=
  c.push (.node id [attributes])

/-- Appends an edge between endpoints. Everything inside them takes the flag of the container. -/
def edgeBetween (c : Container) (source : Endpoint) (targets : List Endpoint)
    (attributes : Attrs) : Except ArgumentFault Container :=
  match Edge.make c.directed source targets attributes with
  | .ok e => .ok (c.push (.edge (e.redirect c.directed)))
  | .error f => .error f

/-- Reads the ids of several nodes; the first fault ends it. -/
def endpoints : List Text → Except ArgumentFault (List Endpoint)
  | [] => .ok []
  | t :: r => match NodeId.parse t with
    | .error f => .error f
    | .ok id => match endpoints r with
      | .error f => .error f
      | .ok es => .ok (.node id :: es)

/-- Appends an edge between nodes given by the texts of their ids. That there is no target is
noticed before any id is read. -/
def edge (c : Container) (source : Text) (targets : List Text) (attributes : Attrs) :
    Except ArgumentFault Container :=
  if targets.isEmpty then .error .noDestination
  else match NodeId.parse source with
    | .error f => .error f
    | .ok id => match endpoints targets with
      | .error f => .error f
      | .ok es => c.edgeBetween (.node id) es attributes

/-- Appends default attributes, unless there are none. -/
def defaults (c : Container) (component : Component) (attributes : Attrs) : Container :=
  if attributes.isEmpty then c else c.push (.attr component [attributes])

/-- Appends default attributes for a component given by its keyword. An unknown keyword is a fault
even if there are no attributes. -/
def defaultsNamed (c : Container) (keyword : Text) (attributes : Attrs) :
    Except ArgumentFault Container :=
  match Component.parse keyword with
  | .ok k => .ok (c.defaults k attributes)
  | .error f => .error f

/-- Appends a plain assignment. -/
def assign (c : Container) (key : Text) (value : Value) : Container :=
  c.push (.assign key value)

/-- What a new subgraph of a container starts with: its own attributes, if there are any. -/
def opened (directed : Bool) (attributes : Attrs) : Container :=
  (⟨directed, []⟩ : Container).defaults .graph attributes

/-- Appends a subgraph with a body. -/
def close (c : Container) (name : Option Text) (inner : Container) : Container :=
  c.push (.subgraph ⟨name, c.directed, inner.statements⟩)

end Container

/-- A new graph that starts with its own attributes, if there are any. -/
def Graph.start (directed : Bool) (name : Option Text) (attributes : Attrs) : Graph :=
  ⟨false, directed, name, (Container.opened directed attributes).statements⟩

/-- The graph marked as strict. -/
def Graph.makeStrict (g : Graph) : Graph := { g with strict := true }

/-- The growing part of a graph. -/
def Graph.container (g : Graph) : Container := ⟨g.directed, g.body⟩

/-- The graph with its growing part replaced. -/
def Graph.withContainer (g : Graph) (c : Container) : Graph := { g with body := c.statements }

/-! ## Programs of building steps -/

/-- One step of a building program. `invalid` is a step whose arguments could not be made; `refused`
is a statement that could not be read and is not counted as a failure of the step. -/
inductive Step where
  | node (id : NodeId) (attributes : Attrs)
  | edge (source : Text) (targets : List Text) (attributes : Attrs)
  | edgeBetween (source : Endpoint) (targets : List Endpoint) (attributes : Attrs)
  | defaultsNamed (keyword : Text) (attributes : Attrs)
  | defaults (component : Component) (attributes : Attrs)
  | assign (key : Text) (value : Value)
  | push (statement : Statement)
  | copy (index : Nat)
  | invalid (fault : ArgumentFault)
  | refused
  | subgraph (name : Option Text) (attributes : Attrs) (steps : List Step)
  | supervised (name : Option Text) (attributes : Attrs) (steps : List Step)

/-- What came of a step: its fault if it failed, the number of statements of its container
afterwards, the last of them, and what came of the steps inside it. -/
inductive Outcome where
  | mk (fault : Option ArgumentFault) (size : Nat) (last : Option Statement)
    (inner : Option (List Outcome))

/-- The fault of an outcome. -/
def Outcome.fault : Outcome → Option ArgumentFault
  | ⟨f, _, _, _⟩ => f

namespace Container

/-- The outcome of a step that leaves a container behind. -/
def outcome (c : Container) (fault : Option ArgumentFault) (inner : Option (List Outcome)) :
    Outcome :=
  ⟨fault, c.statements.length, c.statements.getLast?, inner⟩

/-- A simple step: the new container, or the old one and the fault. -/
def settle (c : Container) : Except ArgumentFault Container → Container × Outcome
  | .ok d => (d, d.outcome none none)
  | .error f => (c, c.outcome (some f) none)

mutual

/-- Runs one step. -/
def step (c : Container) : Step → Container × Outcome
  | .node id a => c.settle (.ok (c.node id a))
  | .edge s t a => c.settle (c.edge s t a)
  | .edgeBetween s t a => c.settle (c.edgeBetween s t a)
  | .defaultsNamed k a => c.settle (c.defaultsNamed k a)
  | .defaults k a => c.settle (.ok (c.defaults k a))
  | .assign k v => c.settle (.ok (c.assign k v))
  | .push s => c.settle (.ok (c.push s))
  | .copy i => c.settle (.ok (match c.statements[i]? with
    | some s => c.push s
    | none => c))
  | .invalid f => c.settle (.error f)
  | .refused => c.settle (.ok c)
  | .subgraph n a steps =>
    let (inner, outcomes) := run (opened c.directed a) steps
    let d := c.close n inner
    (d, d.outcome none (some outcomes))
  | .supervised n a steps =>
    let (inner, outcomes, fault) := runUntilFault (opened c.directed a) steps
    let d := c.close n inner
    (d, d.outcome fault (some outcomes))

/-- Runs all steps, also after one that failed. -/
def run (c : Container) : List Step → Container × List Outcome
  | [] => (c, [])
  | s :: r =>
    let (d, o) := step c s
    let (e, os) := run d r
    (e, o :: os)

/-- Runs steps up to and including the first that fails. -/
def runUntilFault (c : Container) : List Step → Container × List Outcome × Option ArgumentFault
  | [] => (c, [], none)
  | s :: r =>
    let (d, o) := step c s
    match o.fault with
    | some f => (d, [o], some f)
    | none =>
      let (e, os, f) := runUntilFault d r
      (e, o :: os, f)

end

end Container

end DotGraph
