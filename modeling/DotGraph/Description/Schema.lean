import DotGraph.Description.Statement

/-!
# The schema of descriptions

Which data describe graphs. `Schema.Conforms` says so with one rule for each form of a graph,
subgraph, statement or endpoint; members that no rule mentions may be anything.

Some forms are taken or refused by rules of their own: a list in place of a graph, subgraph or
statement, and kinds and components that are no texts. `Schema.Irregular` says where these are.
-/

set_option autoImplicit false

namespace DotGraph

/-! ## Forms of single values -/

namespace Datum

/-- A text. -/
def IsText (d : Datum) : Prop := ∃ t, d = .text t

/-- A truth value. -/
def IsBool (d : Datum) : Prop := ∃ b, d = .bool b

/-- A name, which may be null. -/
def IsName (d : Datum) : Prop := d = .null ∨ d.IsText

/-- A text that is the id of a node. -/
def IsId (d : Datum) : Prop := ∃ t id, d = .text t ∧ NodeId.parse t = .ok id

/-- The keyword of a component. -/
def IsComponent (d : Datum) : Prop := ∃ c : Component, d = .text c.keyword

/-- The value of an attribute: a text, a number, a truth value or a map with a text as `html`. -/
def IsValue : Datum → Prop
  | .text _ | .unsigned _ | .signed _ | .float _ | .bool _ => True
  | .map l => ∃ t, ⟨"html".toList, .text t⟩ ∈ l
  | .null | .list _ => False

/-- A map of attributes. -/
def IsAttrs : Datum → Prop
  | .map l => ∀ m ∈ l, m.value.IsValue
  | _ => False

/-- One map of attributes or a list of them. -/
def IsAttrsList : Datum → Prop
  | .list l => ∀ d ∈ l, d.IsAttrs
  | d => d.IsAttrs

end Datum

mutual

/-- A datum in which no map repeats a key. -/
def Datum.Distinct : Datum → Prop
  | .list items => Datum.DistinctAll items
  | .map members => (members.map Member.key).Nodup ∧ Member.DistinctAll members
  | .null | .bool _ | .unsigned _ | .signed _ | .float _ | .text _ => True

/-- Data in which no map repeats a key. -/
def Datum.DistinctAll : List Datum → Prop
  | [] => True
  | d :: r => d.Distinct ∧ Datum.DistinctAll r

/-- Members in whose values no map repeats a key. -/
def Member.DistinctAll : List Member → Prop
  | [] => True
  | ⟨_, d⟩ :: r => d.Distinct ∧ Member.DistinctAll r

end

/-! ## The schema -/

namespace Schema

/-- What a datum stands for. -/
inductive Role where
  | graph | subgraph | body | statement | endpoint | targets
  deriving DecidableEq, Repr

/-- A member that has to be there in a form. -/
def Required (l : List Member) (key : Text) (form : Datum → Prop) : Prop :=
  ∃ v, ⟨key, v⟩ ∈ l ∧ form v

/-- A member that may be left out but has a form. -/
def Optional (l : List Member) (key : Text) (form : Datum → Prop) : Prop :=
  ∀ v, ⟨key, v⟩ ∈ l → form v

/-- The kind of a statement is given by its name. -/
def OfKind (l : List Member) (k : Kind) : Prop :=
  ⟨"kind".toList, .text k.name⟩ ∈ l

/-- The data that describe a graph or a part of one. -/
inductive Conforms : Role → Datum → Prop where
  | graph {l : List Member} : Optional l "strict".toList Datum.IsBool →
      Optional l "directed".toList Datum.IsBool → Conforms .subgraph (.map l) →
      Conforms .graph (.map l)
  | subgraph {l : List Member} : Optional l "name".toList Datum.IsName →
      Optional l "attributes".toList Datum.IsAttrs →
      (∀ v, ⟨"statements".toList, v⟩ ∈ l → Conforms .body v) → Conforms .subgraph (.map l)
  | body {l : List Datum} : (∀ d ∈ l, Conforms .statement d) → Conforms .body (.list l)
  | node {l : List Member} : OfKind l .node → Required l "id".toList Datum.IsId →
      Optional l "attributes".toList Datum.IsAttrsList → Conforms .statement (.map l)
  | edge {l : List Member} {s t : Datum} : OfKind l .edge → ⟨"from".toList, s⟩ ∈ l →
      Conforms .endpoint s → ⟨"to".toList, t⟩ ∈ l → Conforms .targets t →
      Optional l "attributes".toList Datum.IsAttrsList → Conforms .statement (.map l)
  | attr {l : List Member} : OfKind l .attr → Required l "component".toList Datum.IsComponent →
      Optional l "attributes".toList Datum.IsAttrsList → Conforms .statement (.map l)
  | assign {l : List Member} : OfKind l .assign → Required l "key".toList Datum.IsText →
      Required l "value".toList Datum.IsValue → Conforms .statement (.map l)
  | nested {l : List Member} : OfKind l .subgraph → Conforms .subgraph (.map l) →
      Conforms .statement (.map l)
  | named {d : Datum} : d.IsId → Conforms .endpoint d
  | inline {l : List Member} {v : Datum} : ⟨"subgraph".toList, v⟩ ∈ l → Conforms .subgraph v →
      Conforms .endpoint (.map l)
  | target {d : Datum} : Conforms .endpoint d → Conforms .targets d
  | targets {l : List Datum} : l ≠ [] → (∀ d ∈ l, Conforms .endpoint d) →
      Conforms .targets (.list l)

/-- The data in which a list stands for a graph, subgraph or statement, or in which a kind or the
component of default attributes is no text. -/
inductive Irregular : Role → Datum → Prop where
  | graphList {l : List Datum} : Irregular .graph (.list l)
  | subgraphList {l : List Datum} : Irregular .subgraph (.list l)
  | statementList {l : List Datum} : Irregular .statement (.list l)
  | kind {l : List Member} {v : Datum} : ⟨"kind".toList, v⟩ ∈ l → ¬ v.IsText →
      Irregular .statement (.map l)
  | component {l : List Member} {v : Datum} : OfKind l .attr → ⟨"component".toList, v⟩ ∈ l →
      ¬ v.IsText → Irregular .statement (.map l)
  | graph {l : List Member} : Irregular .subgraph (.map l) → Irregular .graph (.map l)
  | subgraph {l : List Member} {v : Datum} : ⟨"statements".toList, v⟩ ∈ l → Irregular .body v →
      Irregular .subgraph (.map l)
  | body {l : List Datum} {d : Datum} : d ∈ l → Irregular .statement d → Irregular .body (.list l)
  | source {l : List Member} {v : Datum} : OfKind l .edge → ⟨"from".toList, v⟩ ∈ l →
      Irregular .endpoint v → Irregular .statement (.map l)
  | goal {l : List Member} {v : Datum} : OfKind l .edge → ⟨"to".toList, v⟩ ∈ l →
      Irregular .targets v → Irregular .statement (.map l)
  | nested {l : List Member} : OfKind l .subgraph → Irregular .subgraph (.map l) →
      Irregular .statement (.map l)
  | inline {l : List Member} {v : Datum} : ⟨"subgraph".toList, v⟩ ∈ l → Irregular .subgraph v →
      Irregular .endpoint (.map l)
  | target {d : Datum} : Irregular .endpoint d → Irregular .targets d
  | targets {l : List Datum} {d : Datum} : d ∈ l → Irregular .endpoint d →
      Irregular .targets (.list l)

end Schema

end DotGraph
