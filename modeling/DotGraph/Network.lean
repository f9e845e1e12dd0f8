import DotGraph.Builder

/-!
# Networks

A network is a graph in the sense of a data structure: weighted nodes, numbered from zero, and
weighted edges between their numbers. `Network.draw` draws it: one statement for each node in the
order of the numbers, with the whole text of the node as its name, and then one for each edge.

The functions that give the attributes are asked once for each node and edge, in that order. What
they give may depend on what they were asked before, so they are actions on a memory that both of
them share. `Network.toGraph` draws with functions that have no memory.
-/

set_option autoImplicit false

namespace DotGraph

/-- An edge between two of `n` numbered nodes. -/
structure Network.Link (n : Nat) (ε : Type) where
  source : Fin n
  target : Fin n
  weight : ε
  deriving DecidableEq, Repr

/-- Numbered nodes and edges between them. -/
structure Network (ν ε : Type) where
  directed : Bool
  nodes : List ν
  links : List (Network.Link nodes.length ε)

namespace Network

variable {ν ε σ : Type}

/-- Declares the nodes in order. -/
def declare (text : ν → Text) (nodeAttrs : ν → StateM σ Attrs) (c : Container) :
    List ν → StateM σ Container
  | [] => pure c
  | w :: r => do
    let a ← nodeAttrs w
    declare text nodeAttrs (c.node (.ofName (text w)) a) r

/-- Draws the edges in order. -/
def connect (nodes : List ν) (text : ν → Text) (edgeAttrs : ε → StateM σ Attrs) (c : Container) :
    List (Link nodes.length ε) → StateM σ (Except ArgumentFault Container)
  | [] => pure (.ok c)
  | l :: r => do
    let source := NodeId.ofName (text (nodes.get l.source))
    let target := NodeId.ofName (text (nodes.get l.target))
    let a ← edgeAttrs l.weight
    match c.edgeBetween (.node source) [.node target] a with
    | .error f => pure (.error f)
    | .ok d => connect nodes text edgeAttrs d r

/-- Draws a network with attributes that come from functions with a memory. -/
def draw (text : ν → Text) (nodeAttrs : ν → StateM σ Attrs) (edgeAttrs : ε → StateM σ Attrs)
    (w : Network ν ε) : StateM σ (Except ArgumentFault Graph) := do
  let g := Graph.empty none w.directed
  let c ← declare text nodeAttrs g.container w.nodes
  match ← connect w.nodes text edgeAttrs c w.links with
  | .error f => pure (.error f)
  | .ok c => pure (.ok (g.withContainer c))

/-- The graph that draws a network with attributes that depend on the weights alone. -/
def toGraph (text : ν → Text) (nodeAttrs : ν → Attrs) (edgeAttrs : ε → Attrs) (w : Network ν ε) :
    Except ArgumentFault Graph :=
  ((draw text (fun v => pure (nodeAttrs v)) (fun e => pure (edgeAttrs e)) w).run ()).1

end Network

end DotGraph
