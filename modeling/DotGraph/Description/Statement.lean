import DotGraph.Graph
import DotGraph.Description.Datum
import DotGraph.Description.Problem

/-!
# Statements from data

The statement that a datum describes. A statement is a map with a member `kind` anywhere among its
members, or a list that starts with the kind; the other members, or the further items in the order
of `Kind.fields`, are the fields of that kind. Members that are no field are passed over.

All flags of what is read here are false: a description only gives the flag of the whole graph.
-/

set_option autoImplicit false

namespace DotGraph

/-- What a datum is, for a message. -/
def Datum.found : Datum → Found
  | .null => .null
  | .bool b => .bool b
  | .unsigned n => .integer n
  | .signed n => .integer n
  | .float x => .float x
  | .text t => .text t
  | .list _ => .list
  | .map _ => .map

/-! ## Fields that hold no statements -/

/-- The markup in the members of a map: the only member `html`, which has to be a text. -/
def Value.ofMembers? (found : Option Text) : List Member → Option Value
  | [] => found.map .html
  | ⟨k, d⟩ :: r =>
    if k = "html".toList then
      match found, d with
      | none, .text t => Value.ofMembers? (some t) r
      | _, _ => none
    else Value.ofMembers? found r

/-- The value that a datum describes: markup, a text, an integer of 64 bits with a sign, another
number as the nearest one of 64 bits, or a truth value. -/
def Value.ofDatum? : Datum → Option Value
  | .map members => Value.ofMembers? none members
  | .text t => some (.plain t)
  | .unsigned n =>
    if n < Nat.pow 2 63 then some (.ofInt n)
    else some (.ofBinary64 (Binary.binary64.ofNat n))
  | .signed n => some (.ofInt n)
  | .float x => some (.ofBinary64 x)
  | .bool b => some (.ofBool b)
  | .null => none
  | .list _ => none

/-- The attribute list in the members of a map; of a repeated key the last value counts. -/
def Attrs.ofMembers (a : Attrs) : List Member → Except Mismatch Attrs
  | [] => .ok a
  | ⟨k, d⟩ :: r => match Value.ofDatum? d with
    | some v => Attrs.ofMembers (a.set k v) r
    | none => .error (.noForm .value)

/-- The attribute list that a datum describes. -/
def Attrs.ofDatum : Datum → Except Mismatch Attrs
  | .map members => Attrs.ofMembers .empty members
  | d => .error (.wrongType d.found .map)

/-- The attribute lists that data describe, if all of them do. -/
def Attrs.ofData? : List Datum → Option (List Attrs)
  | [] => some []
  | d :: r => match Attrs.ofDatum d, Attrs.ofData? r with
    | .ok a, some l => some (a :: l)
    | _, _ => none

/-- The attribute lists that a datum describes: one for each item of a list, or a single one. -/
def Attrs.listOfDatum (d : Datum) : Except Mismatch (List Attrs) :=
  match d with
  | .list items => match Attrs.ofData? items with
    | some l => .ok l
    | none => .error (.noForm .oneOrMany)
  | d => match Attrs.ofDatum d with
    | .ok a => .ok [a]
    | .error _ => .error (.noForm .oneOrMany)

/-- The text that a datum is. -/
def Datum.asText : Datum → Except Mismatch Text
  | .text t => .ok t
  | d => .error (.wrongType d.found .string)

/-- The name that a datum gives; null gives none. -/
def Datum.asName : Datum → Except Mismatch (Option Text)
  | .null => .ok none
  | .text t => .ok (some t)
  | d => .error (.wrongType d.found .string)

/-- The node id that a datum describes. -/
def NodeId.ofDatum (d : Datum) : Except Mismatch NodeId :=
  match d.asText with
  | .error m => .error m
  | .ok t => match NodeId.parse t with
    | .ok id => .ok id
    | .error f => .error (.argument f)

/-- The component with a keyword. -/
def Component.ofName (t : Text) : Except Mismatch Component :=
  match Component.ofKeyword? t with
  | some c => .ok c
  | none => .error (.unknownName t (Component.all.map Component.keyword))

/-- The component that a datum describes: its keyword, or a map with the keyword as only key and
nothing as its value. -/
def Component.ofDatum : Datum → Except Mismatch Component
  | .text t => Component.ofName t
  | .map [⟨t, d⟩] => match Component.ofName t with
    | .error m => .error m
    | .ok c => match d with
      | .null => .ok c
      | .map [] => .ok c
      | d => .error (.wrongType d.found .null)
  | .map _ => .error (.wrongValue .map .singleKey)
  | d => .error (.wrongType d.found .variant)

/-- The kind with a name. -/
def Kind.ofName (t : Text) : Except Mismatch Kind :=
  match Kind.ofName? t with
  | some k => .ok k
  | none => .error (.unknownName t (Kind.all.map Kind.name))

/-- The kind with a number. -/
def Kind.ofIndex (n : Nat) : Except Mismatch Kind :=
  match Kind.all[n]? with
  | some k => .ok k
  | none => .error (.wrongValue (.integer n) .kindIndex)

/-- The kind that a datum gives, by name or by number. -/
def Kind.ofDatum : Datum → Except Mismatch Kind
  | .text t => Kind.ofName t
  | .unsigned n => Kind.ofIndex n
  | d => .error (.wrongType d.found .kind)

/-- The kind among the members of a map. -/
def Kind.ofMembers (found : Option Kind) : List Member → Except Mismatch Kind
  | [] => match found with
    | some k => .ok k
    | none => .error (.missingField "kind".toList)
  | ⟨key, d⟩ :: r =>
    if key = "kind".toList then
      match found with
      | some _ => .error (.duplicateField "kind".toList)
      | none => match Kind.ofDatum d with
        | .ok k => Kind.ofMembers (some k) r
        | .error m => .error m
    else Kind.ofMembers found r

/-! ## Fields and slots -/

/-- The fields of statements. -/
inductive StatementField where
  | id | source | targets | component | key | value | lists | name | attributes | body
  deriving DecidableEq, Repr

/-- The key of a field. -/
def StatementField.text : StatementField → Text
  | id => "id".toList
  | source => "from".toList
  | targets => "to".toList
  | component => "component".toList
  | key => "key".toList
  | value => "value".toList
  | lists => "attributes".toList
  | name => "name".toList
  | attributes => "attributes".toList
  | body => "statements".toList

/-- The fields of a kind in their order of declaration. -/
def Kind.fields : Kind → List StatementField
  | node => [.id, .lists]
  | edge => [.source, .targets, .lists]
  | attr => [.component, .lists]
  | subgraph => [.name, .attributes, .body]
  | assign => [.key, .value]

/-- Whether a field may not be left out. -/
def StatementField.required : StatementField → Bool
  | id | source | targets | component | key | value => true
  | lists | name | attributes | body => false

/-- The field of a kind that has a key. -/
def Kind.field? (k : Kind) (key : Text) : Option StatementField :=
  k.fields.find? (fun f => f.text = key)

/-- What has been read of a statement so far. -/
structure Slots where
  id : Option NodeId := none
  source : Option Endpoint := none
  targets : Option (List Endpoint) := none
  component : Option Component := none
  key : Option Text := none
  value : Option Value := none
  lists : Option (List Attrs) := none
  name : Option (Option Text) := none
  attributes : Option Attrs := none
  body : Option (List Statement) := none

namespace Slots

/-- Whether a field has been read. -/
def has (s : Slots) : StatementField → Bool
  | .id => s.id.isSome
  | .source => s.source.isSome
  | .targets => s.targets.isSome
  | .component => s.component.isSome
  | .key => s.key.isSome
  | .value => s.value.isSome
  | .lists => s.lists.isSome
  | .name => s.name.isSome
  | .attributes => s.attributes.isSome
  | .body => s.body.isSome

/-- Reads a field that holds no statements; those that do are left to their own readers. -/
def readPlain (s : Slots) (d : Datum) : StatementField → Except Mismatch Slots
  | .id => (NodeId.ofDatum d).map (fun x => { s with id := some x })
  | .component => (Component.ofDatum d).map (fun x => { s with component := some x })
  | .key => d.asText.map (fun x => { s with key := some x })
  | .value => match Value.ofDatum? d with
    | some v => .ok { s with value := some v }
    | none => .error (.noForm .value)
  | .lists => (Attrs.listOfDatum d).map (fun x => { s with lists := some x })
  | .name => d.asName.map (fun x => { s with name := some x })
  | .attributes => (Attrs.ofDatum d).map (fun x => { s with attributes := some x })
  | .source | .targets | .body => .ok s

/-- Enters the endpoint read for the source. -/
def withSource (s : Slots) : Option Endpoint → Except Mismatch Slots
  | some e => .ok { s with source := some e }
  | none => .error (.noForm .endpoint)

/-- Enters the endpoints read for the targets. -/
def withTargets (s : Slots) : Option (List Endpoint) → Except Mismatch Slots
  | some l => .ok { s with targets := some l }
  | none => .error (.noForm .oneOrMany)

/-- Enters the statements read for the body. -/
def withBody (s : Slots) : Except Mismatch (List Statement) → Except Mismatch Slots
  | .ok b => .ok { s with body := some b }
  | .error m => .error m

end Slots

/-- The statements of a container with its own attributes, if there are any, in front. -/
def withOwnAttributes (attributes : Option Attrs) (body : Option (List Statement)) :
    List Statement :=
  let own := attributes.getD .empty
  (if own.isEmpty then [] else [.attr .graph [own]]) ++ body.getD []

/-- The subgraph that slots make. -/
def Slots.toSubgraph (s : Slots) : Subgraph :=
  ⟨s.name.getD none, false, withOwnAttributes s.attributes s.body⟩

/-- The statement that slots make; the first missing field in the order of declaration is named. -/
def Slots.toStatement (k : Kind) (s : Slots) : Except Mismatch Statement :=
  match k.fields.find? (fun f => f.required && !s.has f) with
  | some f => .error (.missingField f.text)
  | none => match k with
    | .node => .ok (.node (s.id.getD (.ofName [])) (s.lists.getD []))
    | .edge => match Edge.make false (s.source.getD default) (s.targets.getD []) .empty with
      | .ok e => .ok (.edge { e with attributes := s.lists.getD [] })
      | .error f => .error (.argument f)
    | .attr => .ok (.attr (s.component.getD .graph) (s.lists.getD []))
    | .subgraph => .ok (.subgraph s.toSubgraph)
    | .assign => .ok (.assign (s.key.getD []) (s.value.getD (.plain [])))

/-- The endpoint that a text describes. -/
def Endpoint.ofText? (t : Text) : Option Endpoint :=
  match NodeId.parse t with
  | .ok id => some (.node id)
  | .error _ => none

/-! ## Statements, endpoints and subgraphs -/

mutual

/-- Reads the members of a map as fields of a kind, in their order. -/
def Slots.ofMembers (k : Kind) (s : Slots) : List Member → Except Mismatch Slots
  | [] => .ok s
  | ⟨key, d⟩ :: r => match k.field? key with
    | none => Slots.ofMembers k s r
    | some f =>
      if s.has f then .error (.duplicateField key)
      else
        let read := match f with
          | .source => s.withSource (Endpoint.ofDatum? d)
          | .targets => s.withTargets (match d with
            | .list items => Endpoint.ofData? items
            | d => (Endpoint.ofDatum? d).map (fun e => [e]))
          | .body => s.withBody (match d with
            | .list items => Statement.ofData items
            | d => .error (.wrongType d.found .list))
          | f => s.readPlain d f
        match read with
        | .ok s' => Slots.ofMembers k s' r
        | .error m => .error m

/-- Reads the items of a list as the fields of a kind, in the order of declaration. `count` items
have been read before. -/
def Slots.ofItems (k : Kind) (s : Slots) (fields : List StatementField) (count : Nat) :
    List Datum → Except Mismatch Slots
  | [] => match fields with
    | [] => .ok s
    | f :: _ => if f.required then .error (.wrongLength count (.fields k)) else .ok s
  | d :: r => match fields with
    | [] => .error (.wrongLength (count + r.length + 1) (.items count))
    | f :: fs =>
      let read := match f with
        | .source => s.withSource (Endpoint.ofDatum? d)
        | .targets => s.withTargets (match d with
          | .list items => Endpoint.ofData? items
          | d => (Endpoint.ofDatum? d).map (fun e => [e]))
        | .body => s.withBody (match d with
          | .list items => Statement.ofData items
          | d => .error (.wrongType d.found .list))
        | f => s.readPlain d f
      match read with
      | .ok s' => Slots.ofItems k s' fs (count + 1) r
      | .error m => .error m

/-- The statement that a datum describes. -/
def Statement.ofDatum : Datum → Except Mismatch Statement
  | .map members => match Kind.ofMembers none members with
    | .error m => .error m
    | .ok k => match Slots.ofMembers k {} members with
      | .error m => .error m
      | .ok s => s.toStatement k
  | .list [] => .error (.missingField "kind".toList)
  | .list (d :: items) => match Kind.ofDatum d with
    | .error m => .error m
    | .ok k => match Slots.ofItems k {} k.fields 0 items with
      | .error m => .error m
      | .ok s => s.toStatement k
  | d => .error (.wrongType d.found .statement)

/-- The statements that data describe. -/
def Statement.ofData : List Datum → Except Mismatch (List Statement)
  | [] => .ok []
  | d :: r => match Statement.ofDatum d with
    | .error m => .error m
    | .ok s => match Statement.ofData r with
      | .error m => .error m
      | .ok l => .ok (s :: l)

/-- The endpoint that a datum describes: a node id, or a map whose only member `subgraph` describes
a subgraph. -/
def Endpoint.ofDatum? : Datum → Option Endpoint
  | .text t => Endpoint.ofText? t
  | .map members => Endpoint.ofMembers? none members
  | _ => none

/-- The endpoint in the members of a map. -/
def Endpoint.ofMembers? (found : Option Subgraph) : List Member → Option Endpoint
  | [] => found.map .subgraph
  | ⟨key, d⟩ :: r =>
    if key = "subgraph".toList then
      match found with
      | some _ => none
      | none =>
        let read := match d with
          | .map members => Slots.ofMembers .subgraph {} members
          | .list items => Slots.ofItems .subgraph {} Kind.subgraph.fields 0 items
          | d => .error (.wrongType d.found .subgraph)
        match read with
        | .ok s => Endpoint.ofMembers? (some s.toSubgraph) r
        | .error _ => none
    else Endpoint.ofMembers? found r

/-- The endpoints that data describe, if all of them do. -/
def Endpoint.ofData? : List Datum → Option (List Endpoint)
  | [] => some []
  | d :: r => match Endpoint.ofDatum? d with
    | none => none
    | some e => match Endpoint.ofData? r with
      | none => none
      | some l => some (e :: l)

end

end DotGraph
