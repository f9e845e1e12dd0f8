import DotGraph.Description.Source
import DotGraph.Directed

/-!
# Graphs from sources

Reads the graph that a source describes. The outer parts, that is the fields of the graph and its
own attributes, are read one after the other in the order of the text, and the first problem ends
the reading, whether the text or its meaning is at fault. A statement is first read as a whole,
except that its kind is judged where it stands, and then interpreted.

The own attributes of a graph become its first statement, and at last every subgraph and edge takes
the flag of the graph.
-/

set_option autoImplicit false

namespace DotGraph

namespace Source

/-- A mismatch without a place as an outcome. -/
def lift {α : Type} : Except Mismatch α → Except Problem α
  | .ok a => .ok a
  | .error m => .error (.mismatch m none)

/-- An outcome whose mismatch gets a place if it has none. -/
def located {α : Type} (p : Option Span) : Except Problem α → Except Problem α
  | .ok a => .ok a
  | .error e => .error (e.locate p)

/-- Reads a truth value. -/
def asBool (s : Source) : Except Problem Bool :=
  match s with
  | scalar _ (.bool b) => .ok b
  | s => .error (s.unexpected .boolean)

/-- Reads a text. -/
def asText (s : Source) : Except Problem Text :=
  match s with
  | scalar _ (.text t) => .ok t
  | s => .error (s.unexpected .string)

/-- Reads a name; null gives none. -/
def asName (s : Source) : Except Problem (Option Text) :=
  match s with
  | scalar _ .null => .ok none
  | scalar _ (.text t) => .ok (some t)
  | s => .error (s.unexpected .string)

/-- Reads the value of an attribute. -/
def asValue (room : Room) (s : Source) : Except Problem Value :=
  match s.datum room with
  | .error e => .error e
  | .ok d => match Value.ofDatum? d with
    | some v => .ok v
    | none => .error (.mismatch (.noForm .value) s.place)

/-- Reads the entries of an attribute list. -/
def attrEntries (room : Room) (a : Attrs) : List Entry → Except Problem Attrs
  | [] => .ok a
  | ⟨key, s⟩ :: r => match key with
    | none => .error .malformed
    | some k => match s.asValue room with
      | .error e => .error e
      | .ok v => attrEntries room (a.set k v) r

/-- Reads an attribute list. -/
def asAttrs (room : Room) (s : Source) : Except Problem Attrs :=
  match s with
  | map _ entries closed => match room.enter with
    | .error e => .error e
    | .ok inner => match attrEntries inner .empty entries with
      | .error e => .error e
      | .ok a => if closed then .ok a else .error .malformed
  | s => .error (s.unexpected .map)

/-- Reads the kind of a statement. In TOML an unsigned number stands for the kind with that
number. -/
def asKind (dialect : Dialect) (s : Source) : Except Problem Kind :=
  match dialect, s with
  | _, scalar p (.text t) => located p (lift (Kind.ofName t))
  | .toml, scalar p (.unsigned n) => located p (lift (Kind.ofIndex n))
  | _, s => .error (s.unexpected .kind)

/-- Reads the entries of a statement: its kind, and the other entries as they are. -/
def statementEntries (dialect : Dialect) (room : Room) (kind : Option Kind) :
    List Entry → Except Problem (Option Kind × List Member)
  | [] => .ok (kind, [])
  | ⟨key, s⟩ :: r => match key with
    | none => .error .malformed
    | some k =>
      if k = "kind".toList then
        match kind with
        | some _ => .error (.mismatch (.duplicateField k) none)
        | none => match s.asKind dialect with
          | .error e => .error e
          | .ok found => statementEntries dialect room (some found) r
      else match s.datum room with
        | .error e => .error e
        | .ok d => match statementEntries dialect room kind r with
          | .error e => .error e
          | .ok (found, members) => .ok (found, ⟨k, d⟩ :: members)

/-- Interprets the fields of a statement of a known kind. -/
def interpret (k : Kind) (s : Except Mismatch Slots) : Except Problem Statement :=
  match s with
  | .error m => .error (.mismatch m none)
  | .ok slots => lift (slots.toStatement k)

/-- Reads a statement. -/
def asStatement (dialect : Dialect) (room : Room) (s : Source) : Except Problem Statement :=
  match s with
  | map p entries closed => match room.enter with
    | .error e => .error e
    | .ok inner => match located p (statementEntries dialect inner none entries) with
      | .error e => .error e
      | .ok (kind, members) =>
        if closed then
          match kind with
          | none => .error (.mismatch (.missingField "kind".toList) p)
          | some k => interpret k (Slots.ofMembers k {} members)
        else .error .malformed
  | list p items closed => match room.enter with
    | .error e => .error e
    | .ok inner => match items with
      | [] => .error (if closed then .mismatch (.missingField "kind".toList) p else .malformed)
      | first :: rest => match located p (first.asKind dialect) with
        | .error e => .error e
        | .ok k => match itemData inner rest with
          | .error e => .error e
          | .ok data =>
            if closed then interpret k (Slots.ofItems k {} k.fields 0 data) else .error .malformed
  | s => .error (s.unexpected .statement)

/-- Reads several statements. -/
def statementItems (dialect : Dialect) (room : Room) : List Source → Except Problem (List Statement)
  | [] => .ok []
  | s :: r => match s.asStatement dialect room with
    | .error e => .error e
    | .ok a => match statementItems dialect room r with
      | .error e => .error e
      | .ok l => .ok (a :: l)

/-- Reads a list of statements. A mismatch inside a statement is placed at the whole list. -/
def asStatements (dialect : Dialect) (room : Room) (s : Source) : Except Problem (List Statement) :=
  match s with
  | list p items closed => match room.enter with
    | .error e => .error e
    | .ok inner => match located p (statementItems dialect inner items) with
      | .error e => .error e
      | .ok l => if closed then .ok l else .error .malformed
  | s => .error (s.unexpected .list)

end Source

/-! ## Graphs and subgraphs -/

/-- The fields of graphs and subgraphs. -/
inductive HeadField where
  | strict | directed | name | attributes | body
  deriving DecidableEq, Repr

namespace HeadField

/-- The key of a field. -/
def text : HeadField → Text
  | strict => "strict".toList
  | directed => "directed".toList
  | name => "name".toList
  | attributes => "attributes".toList
  | body => "statements".toList

/-- The fields of a graph in their order of declaration. -/
def ofGraph : List HeadField := [.strict, .directed, .name, .attributes, .body]

/-- The fields of a subgraph in their order of declaration. -/
def ofSubgraph : List HeadField := [.name, .attributes, .body]

end HeadField

/-- What has been read of a graph or subgraph so far. -/
structure Head where
  strict : Option Bool := none
  directed : Option Bool := none
  name : Option (Option Text) := none
  attributes : Option Attrs := none
  body : Option (List Statement) := none

namespace Head

/-- Whether a field has been read. -/
def has (h : Head) : HeadField → Bool
  | .strict => h.strict.isSome
  | .directed => h.directed.isSome
  | .name => h.name.isSome
  | .attributes => h.attributes.isSome
  | .body => h.body.isSome

/-- Reads a field. -/
def read (dialect : Dialect) (room : Room) (h : Head) (s : Source) :
    HeadField → Except Problem Head
  | .strict => s.asBool.map (fun x => { h with strict := some x })
  | .directed => s.asBool.map (fun x => { h with directed := some x })
  | .name => s.asName.map (fun x => { h with name := some x })
  | .attributes => (s.asAttrs room).map (fun x => { h with attributes := some x })
  | .body => (s.asStatements dialect room).map (fun x => { h with body := some x })

/-- Reads the entries of a map as fields; unknown ones are passed over. -/
def ofEntries (dialect : Dialect) (room : Room) (fields : List HeadField) (h : Head) :
    List Entry → Except Problem Head
  | [] => .ok h
  | ⟨key, s⟩ :: r => match key with
    | none => .error .malformed
    | some k => match fields.find? (fun f => f.text = k) with
      | none => match s.skip dialect with
        | .error e => .error e
        | .ok () => ofEntries dialect room fields h r
      | some f =>
        if h.has f then .error (.mismatch (.duplicateField k) none)
        else match h.read dialect room s f with
          | .error e => .error e
          | .ok h' => ofEntries dialect room fields h' r

/-- Reads the items of a list as the fields in their order; there may be fewer items than fields but
not more. -/
def ofItems (dialect : Dialect) (room : Room) (h : Head) :
    List HeadField → List Source → Except Problem Head
  | _, [] => .ok h
  | [], _ :: _ => .error .malformed
  | f :: fs, s :: r => match h.read dialect room s f with
    | .error e => .error e
    | .ok h' => ofItems dialect room h' fs r

/-- Reads the fields of a graph or subgraph. -/
def ofSource (dialect : Dialect) (room : Room) (fields : List HeadField) (expected : Expected)
    (s : Source) : Except Problem Head :=
  match s with
  | .map _ entries closed => match room.enter with
    | .error e => .error e
    | .ok inner => match ofEntries dialect inner fields {} entries with
      | .error e => .error e
      | .ok h => if closed then .ok h else .error .malformed
  | .list _ items closed => match room.enter with
    | .error e => .error e
    | .ok inner => match ofItems dialect inner {} fields items with
      | .error e => .error e
      | .ok h => if closed then .ok h else .error .malformed
  | s => .error (s.unexpected expected)

/-- The graph that the fields make. -/
def toGraph (h : Head) : Graph :=
  let directed := h.directed.getD false
  ⟨h.strict.getD false, directed, h.name.getD none,
    Statement.redirectAll directed (withOwnAttributes h.attributes h.body)⟩

/-- The subgraph that the fields make. -/
def toSubgraph (h : Head) : Subgraph :=
  ⟨h.name.getD none, false, withOwnAttributes h.attributes h.body⟩

end Head

/-- Reads a graph. -/
def Graph.ofSource (dialect : Dialect) (room : Room) (s : Source) : Except Problem Graph :=
  match Head.ofSource dialect room HeadField.ofGraph .graph s with
  | .ok h => .ok h.toGraph
  | .error e => .error e

/-- Reads a subgraph on its own. -/
def Subgraph.ofSource (dialect : Dialect) (room : Room) (s : Source) : Except Problem Subgraph :=
  match Head.ofSource dialect room HeadField.ofSubgraph .subgraph s with
  | .ok h => .ok h.toSubgraph
  | .error e => .error e

/-- Reads an endpoint on its own. -/
def Endpoint.ofSource (room : Room) (s : Source) : Except Problem Endpoint :=
  match s.datum room with
  | .error e => .error e
  | .ok d => match Endpoint.ofDatum? d with
    | some e => .ok e
    | none => .error (.mismatch (.noForm .endpoint) none)

/-- Reads a node id on its own. -/
def NodeId.ofSource (s : Source) : Except Problem NodeId :=
  match s.asText with
  | .error e => .error e
  | .ok t => match NodeId.parse t with
    | .ok id => .ok id
    | .error f => .error (.mismatch (.argument f) s.place)

end DotGraph
