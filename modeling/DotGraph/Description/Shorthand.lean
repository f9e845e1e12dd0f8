import DotGraph.Description.Read
import DotGraph.Description.Same

/-!
# Shorthand

Some parts of a description may be written in a short form: a single target or attribute list
without a list around it, the own attributes of a graph or subgraph apart from its statements,
fields left out that hold nothing, and numbers and truth values in place of their text.

- `Schema.Within`: how the layers of a description lead to a part of it.
- `Schema.Shorthand`: the short and the long forms of a part.
- `Schema.Rewrites`: a description with one part in its long form, at any depth.
-/

set_option autoImplicit false

namespace DotGraph

namespace Schema

/-! ## Parts of a description -/

/-- What a part of a description stands for. -/
inductive Site where
  | graph | subgraph | body | statement | endpoint | targets | lists | attributes | value
  deriving DecidableEq, Repr

/-- A member gives the kind. -/
def HasKind (l : List Member) (k : Kind) : Prop :=
  ∃ d, ⟨"kind".toList, d⟩ ∈ l ∧ Kind.ofDatum d = .ok k

end Schema

/-- What a field of a statement stands for, if it has parts or several forms. -/
def StatementField.site? : StatementField → Option Schema.Site
  | source => some .endpoint
  | targets => some .targets
  | value => some .value
  | lists => some .lists
  | attributes => some .attributes
  | body => some .body
  | id | component | key | name => none

/-- What a field of a graph stands for, if it has parts. -/
def HeadField.site? : HeadField → Option Schema.Site
  | attributes => some .attributes
  | body => some .body
  | strict | directed | name => none

namespace Schema

/-- The layers through which a part of a description leads to a part of it. A list in place of a map
has the fields in their order. -/
inductive Within : Site → List Layer → Site → Prop where
  | here {s : Site} : Within s [] s
  | graph {f : HeadField} {s t : Site} {front back : List Member} {p : List Layer} :
      f.site? = some s → Within s p t → Within .graph (.member front f.text back :: p) t
  | graphItem {f : HeadField} {s t : Site} {front back : List Datum} {p : List Layer} :
      HeadField.ofGraph[front.length]? = some f → f.site? = some s → Within s p t →
      Within .graph (.item front back :: p) t
  | subgraph {f : StatementField} {s t : Site} {front back : List Member} {p : List Layer} :
      f ∈ Kind.subgraph.fields → f.site? = some s → Within s p t →
      Within .subgraph (.member front f.text back :: p) t
  | subgraphItem {f : StatementField} {s t : Site} {front back : List Datum} {p : List Layer} :
      Kind.subgraph.fields[front.length]? = some f → f.site? = some s → Within s p t →
      Within .subgraph (.item front back :: p) t
  | body {t : Site} {front back : List Datum} {p : List Layer} : Within .statement p t →
      Within .body (.item front back :: p) t
  | statement {k : Kind} {f : StatementField} {s t : Site} {front back : List Member}
      {p : List Layer} : HasKind (front ++ back) k → f ∈ k.fields → f.site? = some s →
      Within s p t → Within .statement (.member front f.text back :: p) t
  | statementItem {k : Kind} {f : StatementField} {s t : Site} {kind : Datum}
      {front back : List Datum} {p : List Layer} : Kind.ofDatum kind = .ok k →
      k.fields[front.length]? = some f → f.site? = some s → Within s p t →
      Within .statement (.item (kind :: front) back :: p) t
  | endpoint {t : Site} {front back : List Member} {p : List Layer} : Within .subgraph p t →
      Within .endpoint (.member front "subgraph".toList back :: p) t
  | target {t : Site} {layer : Layer} {p : List Layer} : Within .endpoint (layer :: p) t →
      Within .targets (layer :: p) t
  | targets {t : Site} {front back : List Datum} {p : List Layer} : Within .endpoint p t →
      Within .targets (.item front back :: p) t
  | single {t : Site} {layer : Layer} {p : List Layer} : Within .attributes (layer :: p) t →
      Within .lists (layer :: p) t
  | lists {t : Site} {front back : List Datum} {p : List Layer} : Within .attributes p t →
      Within .lists (.item front back :: p) t
  | attributes {t : Site} {front back : List Member} {key : Text} {p : List Layer} :
      Within .value p t → Within .attributes (.member front key back :: p) t

/-! ## Graphs and subgraphs -/

/-- No member has the key. -/
def Lacks (l : List Member) (key : Text) : Prop := ∀ m ∈ l, m.key ≠ key

/-- A statement of default attributes for the graph, which are a single map. -/
inductive GraphAttributes (attributes : List Member) : List Member → Prop where
  | mk {l r : List Member} {kind component : Datum} : Kind.ofDatum kind = .ok .attr →
      Component.ofDatum component = .ok .graph → Lacks r "kind".toList →
      Lacks r "component".toList → Lacks r "attributes".toList →
      l.Perm (⟨"kind".toList, kind⟩ :: ⟨"component".toList, component⟩ ::
        ⟨"attributes".toList, .map attributes⟩ :: r) → GraphAttributes attributes l

/-- The members of a graph or subgraph in a short form and in a long one: empty attributes or
statements are added, or the attributes become the first statement. Under `outermost` the kind of
that statement is no number. -/
inductive Abbreviates (outermost : Prop) : List Member → List Member → Prop where
  | attributes {l m : List Member} : Lacks l "attributes".toList →
      m.Perm (⟨"attributes".toList, .map []⟩ :: l) → Abbreviates outermost l m
  | statements {l m : List Member} : Lacks l "statements".toList →
      m.Perm (⟨"statements".toList, .list []⟩ :: l) → Abbreviates outermost l m
  | moved {l m r a s : List Member} {items : List Datum} : a ≠ [] → GraphAttributes a s →
      (outermost → Unnumbered (.map s)) → Lacks r "attributes".toList →
      Lacks r "statements".toList →
      l.Perm (⟨"attributes".toList, .map a⟩ :: ⟨"statements".toList, .list items⟩ :: r) →
      m.Perm (⟨"statements".toList, .list (.map s :: items)⟩ :: r) → Abbreviates outermost l m

/-! ## All parts -/

/-- A short form and a long form of a part. -/
inductive Shorthand : Site → Datum → Datum → Prop where
  | unsigned {n : Nat} : n < Nat.pow 2 63 →
      Shorthand .value (.unsigned n) (.text (Decimal.ofInt n))
  | signed {n : Int} : -(Nat.pow 2 63 : Int) ≤ n → n < Nat.pow 2 63 →
      Shorthand .value (.signed n) (.text (Decimal.ofInt n))
  | bool {b : Bool} : Shorthand .value (.bool b)
      (.text (if b then "true".toList else "false".toList))
  | target {d : Datum} : (∀ l, d ≠ .list l) → Shorthand .targets d (.list [d])
  | attributes {l : List Member} : Shorthand .lists (.map l) (.list [.map l])
  | strict {l m : List Member} : Lacks l "strict".toList →
      m.Perm (⟨"strict".toList, .bool false⟩ :: l) → Shorthand .graph (.map l) (.map m)
  | directed {l m : List Member} : Lacks l "directed".toList →
      m.Perm (⟨"directed".toList, .bool false⟩ :: l) → Shorthand .graph (.map l) (.map m)
  | graph {l m : List Member} : Abbreviates True l m → Shorthand .graph (.map l) (.map m)
  | subgraph {l m : List Member} : Abbreviates False l m → Shorthand .subgraph (.map l) (.map m)
  | nested {l m : List Member} : HasKind l .subgraph → Abbreviates False l m →
      Shorthand .statement (.map l) (.map m)

/-- A description with a part in its short form, and the same one with this part in its long
form. -/
inductive Rewrites : Datum → Datum → Prop where
  | mk {s : Site} {p : List Layer} {d e : Datum} : Within .graph p s → Shorthand s d e →
      Rewrites (surround p d) (surround p e)

end Schema

end DotGraph
