import DotGraph.Graph
import DotGraph.Dot.Escape

/-!
# DOT text

The text of a graph: a header, one line for each statement, indented by two spaces for each level of
nesting and closed by a semicolon, and a closing brace. Names and plain values stand between quotes,
markup between angle brackets; ports and keys are written as they are. Empty attribute lists of
nodes and edges are left out, those of default attributes are kept.
-/

set_option autoImplicit false

namespace DotGraph.Dot

/-- The indentation of a nesting level. -/
def indent (depth : Nat) : Text :=
  List.replicate (2 * depth) ' '

/-- The operator between the endpoints of an edge. -/
def edgeOperator (directed : Bool) : Text :=
  if directed then "->".toList else "--".toList

/-- The text of a value. -/
def value (q : Quoting) : Value → Text
  | .plain t => q.quoted t
  | .html m => '<' :: m ++ ['>']

/-- The entries of an attribute list, each with its semicolon. -/
def entries (q : Quoting) : List (Text × Value) → Text
  | [] => []
  | (k, v) :: r => k ++ '=' :: value q v ++ ';' :: entries q r

/-- An attribute list in brackets. -/
def attrs (q : Quoting) (a : Attrs) : Text :=
  '[' :: entries q a.entries ++ [']']

/-- Attribute lists one after the other. -/
def attrLists (q : Quoting) : List Attrs → Text
  | [] => []
  | a :: r => attrs q a ++ attrLists q r

/-- Attribute lists one after the other, without the empty ones. -/
def filledAttrLists (q : Quoting) (l : List Attrs) : Text :=
  attrLists q (l.filter (fun a => !a.isEmpty))

/-- The text of a node id: the quoted name, and the port as it is. -/
def nodeId (q : Quoting) (id : NodeId) : Text :=
  q.quoted id.name ++ id.port.getD []

/-- The optional name in a header, with a space in front. -/
def headerName (q : Quoting) : Option Text → Text
  | none => []
  | some n => ' ' :: q.quoted n

/-- The text of default attributes. A component without any list gets an empty one, because a bare
keyword is no statement. -/
def defaults (q : Quoting) (c : Component) : List Attrs → Text
  | [] => c.keyword ++ "[]".toList
  | a :: r => c.keyword ++ attrLists q (a :: r)

mutual

/-- The text of a statement that stands at a nesting level. -/
def statement (q : Quoting) (depth : Nat) : Statement → Text
  | .node id l => nodeId q id ++ filledAttrLists q l
  | .edge e => edge q depth e
  | .attr c l => defaults q c l
  | .subgraph s => subgraph q depth s
  | .assign k v => k ++ '=' :: value q v

/-- The text of an edge. -/
def edge (q : Quoting) (depth : Nat) : Edge → Text
  | ⟨d, s, t, l⟩ => endpoint q depth s ++ targets q depth d t ++ filledAttrLists q l

/-- The text of an endpoint. -/
def endpoint (q : Quoting) (depth : Nat) : Endpoint → Text
  | .node id => nodeId q id
  | .subgraph s => subgraph q depth s

/-- The text of the targets of an edge, each with the operator in front. -/
def targets (q : Quoting) (depth : Nat) (directed : Bool) : List Endpoint → Text
  | [] => []
  | e :: r => edgeOperator directed ++ endpoint q depth e ++ targets q depth directed r

/-- The text of a subgraph. -/
def subgraph (q : Quoting) (depth : Nat) : Subgraph → Text
  | ⟨n, _, b⟩ =>
    "subgraph".toList ++ headerName q n ++ " \x7b\n".toList ++ lines q (depth + 1) b
      ++ indent depth ++ ['}']

/-- The lines of a body at a nesting level. -/
def lines (q : Quoting) (depth : Nat) : List Statement → Text
  | [] => []
  | s :: r => indent depth ++ statement q depth s ++ ";\n".toList ++ lines q depth r

end

/-- The header of a graph up to its opening brace. -/
def header (q : Quoting) (g : Graph) : Text :=
  (if g.strict then "strict ".toList else []) ++
    (if g.directed then "digraph".toList else "graph".toList) ++ headerName q g.name ++
    " \x7b\n".toList

/-- The text of a graph. -/
def render (q : Quoting) (g : Graph) : Text :=
  header q g ++ lines q 1 g.body ++ ['}']

end DotGraph.Dot
