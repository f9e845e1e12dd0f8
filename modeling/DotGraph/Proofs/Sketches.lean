import DotGraph.Proofs.Contributions
import DotGraph.Proofs.GraphSources
import DotGraph.Proofs.RoundTrip

/-!
# Building and describing the same graph

A sketch is what a statement is made from, before anything is built: ids and components are texts,
and a subgraph that is an endpoint comes with its own flag. It can be built, by a step of a building
program, or described, by a datum. A graph built from sketches is the one read from their
description, and where building fails the description is refused.

Building gives a flag to each thing when it is put into its container; reading gives one to
everything at the end. What agrees before that is what both make of a sketch up to flags.

- `Sketch.described`, `Terminal.described`: one sketch, one endpoint.
- `parseJson_sketch`: whole graphs.
-/

set_option autoImplicit false

namespace DotGraph

/-! ## Sketches -/

mutual

/-- What a statement is made from. Default attributes are not empty. -/
inductive Sketch where
  | node (id : Text) (attributes : Attrs)
  | edge (source : Text) (targets : List Text) (attributes : Attrs)
  | edgeBetween (source : Terminal) (targets : List Terminal) (attributes : Attrs)
  | defaults (component : Text) (attributes : Attrs) (filled : attributes.isEmpty = false)
  | assign (key : Text) (value : Value)
  | subgraph (name : Option Text) (attributes : Attrs) (body : List Sketch)

/-- What an endpoint is made from. A subgraph is made on its own, with any flag. -/
inductive Terminal where
  | node (id : Text)
  | subgraph (directed : Bool) (name : Option Text) (attributes : Attrs) (body : List Sketch)

end

/-- The step that appends an edge between endpoints, if these could be built. -/
def Step.between (source : Except ArgumentFault Endpoint)
    (targets : Except ArgumentFault (List Endpoint)) (a : Attrs) : Step :=
  match source with
  | .error f => .invalid f
  | .ok e => match targets with
    | .error f => .invalid f
    | .ok es => .edgeBetween e es a

mutual

/-- The building step for a sketch. -/
def Sketch.step : Sketch → Step
  | .node t a => match NodeId.parse t with
    | .ok id => .node id a
    | .error f => .invalid f
  | .edge s t a => .edge s t a
  | .edgeBetween s t a => .between s.build (Terminal.buildAll t) a
  | .defaults c a _ => .defaultsNamed c a
  | .assign k v => .assign k v
  | .subgraph n a b => .supervised n a (Sketch.steps b)

/-- The building steps for sketches. -/
def Sketch.steps : List Sketch → List Step
  | [] => []
  | s :: r => s.step :: Sketch.steps r

/-- Builds an endpoint; a subgraph is filled up to the first step that fails. -/
def Terminal.build : Terminal → Except ArgumentFault Endpoint
  | .node t => match NodeId.parse t with
    | .ok id => .ok (.node id)
    | .error f => .error f
  | .subgraph d n a b =>
    let (c, _, fault) := Container.runUntilFault (Container.opened d a) (Sketch.steps b)
    match fault with
    | some f => .error f
    | none => .ok (.subgraph ⟨n, d, c.statements⟩)

/-- Builds endpoints; the first that fails ends it. -/
def Terminal.buildAll : List Terminal → Except ArgumentFault (List Endpoint)
  | [] => .ok []
  | x :: r => match x.build with
    | .error f => .error f
    | .ok e => match Terminal.buildAll r with
      | .error f => .error f
      | .ok es => .ok (e :: es)

end

/-- The member for the kind of a statement. -/
abbrev Kind.member (k : Kind) : Member :=
  ⟨"kind".toList, .text k.name⟩

/-- The member for attributes, as one map. -/
def Attrs.member (a : Attrs) : Member :=
  ⟨"attributes".toList, a.toDatum⟩

/-- The members that describe an edge between endpoints. -/
def edgeMembers (s : Datum) (t : List Datum) (a : Attrs) : List Member :=
  [⟨"from".toList, s⟩, ⟨"to".toList, .list t⟩, a.member]

/-- The members that describe what graphs and subgraphs have in common. -/
def bodyMembers (n : Option Text) (a : Attrs) (b : List Datum) : List Member :=
  nameMember n ++ [a.member, ⟨"statements".toList, .list b⟩]

mutual

/-- The description of a sketch. -/
def Sketch.toDatum : Sketch → Datum
  | .node t a => .map [Kind.node.member, ⟨"id".toList, .text t⟩, a.member]
  | .edge s t a => .map (Kind.edge.member :: edgeMembers (.text s) (t.map .text) a)
  | .edgeBetween s t a =>
    .map (Kind.edge.member :: edgeMembers s.toDatum (Terminal.listToDatum t) a)
  | .defaults c a _ => .map [Kind.attr.member, ⟨"component".toList, .text c⟩, a.member]
  | .assign k v => .map [Kind.assign.member, ⟨"key".toList, .text k⟩, ⟨"value".toList, v.toDatum⟩]
  | .subgraph n a b => .map (Kind.subgraph.member :: bodyMembers n a (Sketch.listToDatum b))

/-- The descriptions of sketches. -/
def Sketch.listToDatum : List Sketch → List Datum
  | [] => []
  | s :: r => s.toDatum :: Sketch.listToDatum r

/-- The description of an endpoint. -/
def Terminal.toDatum : Terminal → Datum
  | .node t => .text t
  | .subgraph _ n a b => .map [⟨"subgraph".toList, .map (bodyMembers n a (Sketch.listToDatum b))⟩]

/-- The descriptions of endpoints. -/
def Terminal.listToDatum : List Terminal → List Datum
  | [] => []
  | x :: r => x.toDatum :: Terminal.listToDatum r

end

/-- The members that describe a graph of sketches. -/
def Sketch.graphMembers (directed : Bool) (n : Option Text) (a : Attrs) (b : List Sketch) :
    List Member :=
  ⟨"directed".toList, .bool directed⟩ :: bodyMembers n a (Sketch.listToDatum b)

/-! ## Fields -/

namespace Slots

/-- A field that has not been read yet and cannot be read. -/
theorem ofMembers_unreadable {k : Kind} {s : Slots} {key : Text} {d : Datum} {r : List Member}
    {f : StatementField} {m : Mismatch} (hf : k.field? key = some f) (hs : s.has f = false)
    (hr : s.read d f = .error m) : ofMembers k s (⟨key, d⟩ :: r) = .error m := by
  simp only [ofMembers_cons, hf, hs, Bool.false_eq_true, if_false, hr]

theorem read_member (s : Slots) (a : Attrs) :
    s.read a.toDatum .lists = .ok { s with lists := some [a] } := by
  have h : Attrs.listOfDatum a.toDatum = .ok [a] := by
    have ha := a.ofDatum_toDatum
    rw [Attrs.toDatum] at ha ⊢
    simp only [Attrs.listOfDatum, ha]
  simp only [read, readPlain, h]
  rfl

/-- The attributes of a statement come last and can always be read. -/
theorem ofMembers_attributes {k : Kind} {s : Slots}
    (hk : k.field? "attributes".toList = some .lists) (hs : s.lists = none) (a : Attrs) :
    ofMembers k s [a.member] = .ok { s with lists := some [a] } := by
  rw [Attrs.member, ofMembers_field hk (by simp [has, hs]) (read_member s a)]
  rfl

end Slots

/-! ## Texts as endpoints -/

theorem Endpoint.ofText?_eq (t : Text) : Endpoint.ofText? t = match NodeId.fault t with
    | some _ => none
    | none => some (.node (.ofText t)) := by
  rw [ofText?, NodeId.fault, NodeId.ofText]
  cases NodeId.parse t <;> rfl

theorem Endpoint.ofData?_texts : ∀ l : List Text,
    Endpoint.ofData? (l.map .text) = match l.findSome? NodeId.fault with
      | some _ => none
      | none => some (l.map (fun t => .node (.ofText t)))
  | [] => rfl
  | t :: r => by
    rw [List.map_cons, ofData?, ofDatum?, ofText?_eq, ofData?_texts r, List.findSome?_cons]
    cases NodeId.fault t with
    | some f => rfl
    | none => cases r.findSome? NodeId.fault <;> rfl

/-! ## What building and describing have in common -/

/-- A datum describes what a step does: it is refused if the step fails, and otherwise gives the
contribution of the step up to flags. -/
inductive Step.Described (s : Step) (d : Datum) : Prop where
  | refused {f : ArgumentFault} {m : Mismatch} : s.fault = some f →
      Statement.ofDatum d = .error m → Described s d
  | given {x : Statement} : s.fault = none → Statement.ofDatum d = .ok x →
      (∀ flag, s.contribution flag = [x.redirect flag]) → Described s d

/-- Data describe what steps do up to the first that fails. -/
inductive Step.DescribedAll (steps : List Step) (l : List Datum) : Prop where
  | refused {f : ArgumentFault} {m : Mismatch} : Step.firstFault steps = some f →
      Statement.ofData l = .error m → DescribedAll steps l
  | given {b : List Statement} : Step.firstFault steps = none → Statement.ofData l = .ok b →
      (∀ flag, Step.contributionsUntilFault flag steps = Statement.redirectAll flag b) →
      DescribedAll steps l

/-- A datum describes what was built of an endpoint. -/
inductive Endpoint.Described (x : Except ArgumentFault Endpoint) (d : Datum) : Prop where
  | refused {f : ArgumentFault} : x = .error f → Endpoint.ofDatum? d = none → Described x d
  | given {e e' : Endpoint} : x = .ok e → Endpoint.ofDatum? d = some e' →
      (∀ flag, e'.redirect flag = e.redirect flag) → Described x d

/-- Data describe what was built of endpoints. -/
inductive Endpoint.DescribedAll (x : Except ArgumentFault (List Endpoint)) (l : List Datum) :
    Prop where
  | refused {f : ArgumentFault} : x = .error f → Endpoint.ofData? l = none → DescribedAll x l
  | given {es es' : List Endpoint} : x = .ok es → Endpoint.ofData? l = some es' →
      (∀ flag, Endpoint.redirectAll flag es' = Endpoint.redirectAll flag es) → DescribedAll x l

theorem edgeMembers_ne_kind (s : Datum) (t : List Datum) (a : Attrs) :
    ∀ m ∈ edgeMembers s t a, m.key ≠ "kind".toList := by
  simp [edgeMembers, Attrs.member]

theorem bodyMembers_ne_kind (n : Option Text) (a : Attrs) (b : List Datum) :
    ∀ m ∈ bodyMembers n a b, m.key ≠ "kind".toList := by
  intro m hm
  rcases List.mem_append.mp hm with hm | hm
  · exact nameMember_ne_kind n m hm
  · simp only [List.mem_cons, List.not_mem_nil, or_false] at hm
    rcases hm with rfl | rfl <;> simp [Attrs.member]

/-- An edge is read from its endpoints, of which there are at least two. -/
theorem Statement.ofDatum_edge {s : Datum} {t : List Datum} {e x : Endpoint} {r : List Endpoint}
    (hs : Endpoint.ofDatum? s = some e) (ht : Endpoint.ofData? t = some (x :: r)) (a : Attrs) :
    Statement.ofDatum (.map (Kind.edge.member :: edgeMembers s t a)) =
      .ok (.edge ⟨false, e, x :: r, [a]⟩) := by
  rw [ofDatum_kind (edgeMembers_ne_kind s t a), edgeMembers,
    Slots.ofMembers_field (f := .source) (by decide) rfl (Slots.read_source hs _),
    Slots.ofMembers_field (f := .targets) (by decide) rfl (Slots.read_targets ht _),
    Slots.ofMembers_attributes (by decide) rfl a]
  rfl

/-- An edge is refused if an endpoint cannot be read or there is no target. -/
theorem Statement.ofDatum_edge_error {s : Datum} {t : List Datum}
    (h : Endpoint.ofDatum? s = none ∨ Endpoint.ofData? t = none ∨ Endpoint.ofData? t = some [])
    (a : Attrs) :
    ∃ m, Statement.ofDatum (.map (Kind.edge.member :: edgeMembers s t a)) = .error m := by
  rw [ofDatum_kind (edgeMembers_ne_kind s t a), edgeMembers]
  cases hs : Endpoint.ofDatum? s with
  | none =>
    have source : Slots.read {} s .source = .error (.noForm .endpoint) := by
      rw [Slots.read, hs]
      rfl
    rw [Slots.ofMembers_unreadable (f := .source) (by decide) rfl source]
    exact ⟨_, rfl⟩
  | some e =>
    rw [Slots.ofMembers_field (f := .source) (by decide) rfl (Slots.read_source hs _)]
    rcases h with h | h | h
    · rw [hs] at h
      cases h
    · have targets : Slots.read { source := some e } (.list t) .targets =
          .error (.noForm .oneOrMany) := by
        rw [Slots.read, h]
        rfl
      rw [Slots.ofMembers_unreadable (f := .targets) (by decide) rfl targets]
      exact ⟨_, rfl⟩
    · rw [Slots.ofMembers_field (f := .targets) (by decide) rfl (Slots.read_targets h _),
        Slots.ofMembers_attributes (by decide) rfl a]
      exact ⟨_, rfl⟩

/-- What is read of attributes and statements, which come last. -/
theorem Slots.ofMembers_rest {s : Slots} (ha : s.attributes = none) (hb : s.body = none) (a : Attrs)
    (l : List Datum) :
    ofMembers .subgraph s [a.member, ⟨"statements".toList, .list l⟩] =
      (Statement.ofData l).map (fun b => { s with attributes := some a, body := some b }) := by
  have own : s.read a.toDatum .attributes = .ok { s with attributes := some a } := by
    simp only [read, readPlain, a.ofDatum_toDatum]
    rfl
  have free : has { s with attributes := some a } .body = false := by simp [has, hb]
  rw [Attrs.member, ofMembers_field (f := .attributes) (by decide) (by simp [has, ha]) own]
  cases h : Statement.ofData l with
  | ok b =>
    rw [ofMembers_field (f := .body) (by decide) free (read_body h _)]
    rfl
  | error m =>
    rw [ofMembers_unreadable (f := .body) (m := m) (by decide) free (by rw [read, h]; rfl)]
    rfl

/-- What is read of the members of a subgraph. -/
theorem Slots.ofMembers_bodyMembers (n : Option Text) (a : Attrs) (l : List Datum) :
    ofMembers .subgraph {} (bodyMembers n a l) = (Statement.ofData l).map
      (fun b => { name := n.map some, attributes := some a, body := some b }) := by
  cases n with
  | none => exact ofMembers_rest rfl rfl a l
  | some n =>
    have name : read {} (.text n) .name = .ok { name := some (some n) } := rfl
    rw [bodyMembers, nameMember, List.singleton_append,
      ofMembers_field (f := .name) (by decide) rfl name]
    exact ofMembers_rest rfl rfl a l

theorem Slots.toSubgraph_bodyMembers (n : Option Text) (a : Attrs) (b : List Statement) :
    Slots.toSubgraph { name := n.map some, attributes := some a, body := some b } =
      ⟨n, false, Statement.defaults .graph a ++ b⟩ := by
  cases n <;> rfl

theorem Statement.redirectAll_defaults (d : Bool) (c : Component) (a : Attrs)
    (b : List Statement) : Statement.redirectAll d (Statement.defaults c a ++ b) =
      Statement.defaults c a ++ Statement.redirectAll d b := by
  unfold Statement.defaults
  split <;> rfl

mutual

/-- The steps for sketches are given all they need. -/
theorem Sketch.direct_step : ∀ s : Sketch, s.step.Direct
  | .node t a => by
    rw [Sketch.step]
    cases NodeId.parse t <;> trivial
  | .edge s t a => trivial
  | .edgeBetween s t a => by
    rw [Sketch.step]
    cases s.build with
    | error f => trivial
    | ok e => cases Terminal.buildAll t <;> trivial
  | .defaults c a _ => trivial
  | .assign k v => trivial
  | .subgraph n a b => Sketch.directAll_steps b

theorem Sketch.directAll_steps : ∀ l : List Sketch, Step.DirectAll (Sketch.steps l)
  | [] => trivial
  | s :: r => ⟨Sketch.direct_step s, Sketch.directAll_steps r⟩

end

theorem Endpoint.redirectAll_eq_nil_iff {d : Bool} {l : List Endpoint} :
    Endpoint.redirectAll d l = [] ↔ l = [] := by
  cases l <;> simp [Endpoint.redirectAll]

/-- An edge is described as it is built, if its endpoints are. -/
theorem Step.described_between {x : Except ArgumentFault Endpoint}
    {y : Except ArgumentFault (List Endpoint)} {s : Datum} {t : List Datum} (a : Attrs)
    (hs : Endpoint.Described x s) (ht : Endpoint.DescribedAll y t) :
    (Step.between x y a).Described (.map (Kind.edge.member :: edgeMembers s t a)) := by
  cases hs with
  | refused hx hs =>
    subst hx
    obtain ⟨m, hm⟩ := Statement.ofDatum_edge_error (.inl hs) a
    exact .refused rfl hm
  | @given e e' hx he hr =>
    subst hx
    cases ht with
    | refused hy ht =>
      subst hy
      obtain ⟨m, hm⟩ := Statement.ofDatum_edge_error (.inr (.inl ht)) a
      exact .refused rfl hm
    | @given es es' hy hes hrs =>
      subst hy
      cases es with
      | nil =>
        obtain rfl := Endpoint.redirectAll_eq_nil_iff.mp (hrs false)
        obtain ⟨m, hm⟩ := Statement.ofDatum_edge_error (.inr (.inr hes)) a
        exact .refused rfl hm
      | cons z zs =>
        cases es' with
        | nil => cases hrs false
        | cons z' zs' =>
          refine .given rfl (Statement.ofDatum_edge he hes a) (fun flag => ?_)
          rw [Step.between, Step.contribution, if_neg (by simp), Statement.redirect, Edge.redirect,
            hr, hrs]

/-- An edge between texts is described as it is built. -/
theorem Step.described_edge (s : Text) (t : List Text) (a : Attrs) :
    (Step.edge s t a).Described
      (.map (Kind.edge.member :: edgeMembers (.text s) (t.map .text) a)) := by
  have source : Endpoint.ofDatum? (.text s) = _ := Endpoint.ofText?_eq s
  have targets := Endpoint.ofData?_texts t
  cases t with
  | nil =>
    obtain ⟨m, hm⟩ := Statement.ofDatum_edge_error (.inr (.inr targets)) a
    exact .refused rfl hm
  | cons x r =>
    have fault : (Step.edge s (x :: r) a).fault = (s :: x :: r).findSome? NodeId.fault := rfl
    rw [List.findSome?_cons] at fault
    cases hs : NodeId.fault s with
    | some f =>
      rw [hs] at source fault
      obtain ⟨m, hm⟩ := Statement.ofDatum_edge_error (.inl source) a
      exact .refused fault hm
    | none =>
      rw [hs] at source fault
      cases ht : (x :: r).findSome? NodeId.fault with
      | some f =>
        rw [ht] at targets fault
        obtain ⟨m, hm⟩ := Statement.ofDatum_edge_error (.inr (.inl targets)) a
        exact .refused fault hm
      | none =>
        rw [ht] at targets fault
        have nodes := fun flag => Endpoint.redirectAll_nodes flag NodeId.ofText (x :: r)
        simp only [List.map_cons] at nodes
        refine .given fault (Statement.ofDatum_edge source targets a) (fun flag => ?_)
        rw [contribution, fault, Statement.redirect, Edge.redirect, nodes]
        rfl

/-- A node is described as it is built, also if its id is a fault. -/
theorem Sketch.described_node (t : Text) (a : Attrs) :
    (Sketch.node t a).step.Described (Sketch.node t a).toDatum := by
  rw [step, toDatum]
  cases hp : NodeId.parse t with
  | error f =>
    have read : Slots.read {} (.text t) .id = .error (.argument f) := by
      simp only [Slots.read, Slots.readPlain, NodeId.ofDatum, Datum.asText, hp]
      rfl
    refine .refused (m := .argument f) rfl ?_
    rw [Statement.ofDatum_kind (by simp [Attrs.member]),
      Slots.ofMembers_unreadable (f := .id) (by decide) rfl read]
  | ok id =>
    have read : Slots.read {} (.text t) .id = .ok { id := some id } := by
      simp only [Slots.read, Slots.readPlain, NodeId.ofDatum, Datum.asText, hp]
      rfl
    refine .given (x := .node id [a]) rfl ?_ (fun _ => rfl)
    rw [Statement.ofDatum_kind (by simp [Attrs.member]),
      Slots.ofMembers_field (f := .id) (by decide) rfl read,
      Slots.ofMembers_attributes (by decide) rfl a]
    rfl

/-- Default attributes are described as they are put in, as there are some. -/
theorem Step.described_defaults {c : Text} {a : Attrs} (h : a.isEmpty = false) :
    (Step.defaultsNamed c a).Described
      (.map [Kind.attr.member, ⟨"component".toList, .text c⟩, a.member]) := by
  have ne_kind : ∀ m ∈ [⟨"component".toList, .text c⟩, a.member], m.key ≠ "kind".toList := by
    simp [Attrs.member]
  cases hc : Component.ofKeyword? c with
  | none =>
    have read : Slots.read {} (.text c) .component =
        .error (.unknownName c (Component.all.map Component.keyword)) := by
      simp only [Slots.read, Slots.readPlain, Component.ofDatum, Component.ofName, hc]
      rfl
    refine .refused (f := .unknownComponent c) (by rw [fault, hc])
      (m := .unknownName c (Component.all.map Component.keyword)) ?_
    rw [Statement.ofDatum_kind ne_kind,
      Slots.ofMembers_unreadable (f := .component) (by decide) rfl read]
  | some k =>
    have read : Slots.read {} (.text c) .component = .ok { component := some k } := by
      simp only [Slots.read, Slots.readPlain, Component.ofDatum, Component.ofName, hc]
      rfl
    refine .given (x := .attr k [a]) (by rw [fault, hc]) ?_ (fun flag => ?_)
    · rw [Statement.ofDatum_kind ne_kind,
        Slots.ofMembers_field (f := .component) (by decide) rfl read,
        Slots.ofMembers_attributes (by decide) rfl a]
      rfl
    · rw [contribution, hc]
      simp only [Statement.defaults, h]
      rfl

/-- The endpoint that a text gives has no flag. -/
theorem Terminal.described_node (t : Text) :
    Endpoint.Described (Terminal.node t).build (Terminal.node t).toDatum := by
  have read : Endpoint.ofDatum? (.text t) = Endpoint.ofText? t := rfl
  rw [build, toDatum]
  cases hp : NodeId.parse t with
  | error f => exact .refused rfl (by rw [read, Endpoint.ofText?, hp])
  | ok id => exact .given rfl (by rw [read, Endpoint.ofText?, hp]) (fun _ => rfl)

theorem Terminal.build_subgraph (d : Bool) (n : Option Text) (a : Attrs) (b : List Sketch) :
    (Terminal.subgraph d n a b).build = match Step.firstFault (Sketch.steps b) with
      | some f => .error f
      | none => .ok (.subgraph ⟨n, d,
          Statement.defaults .graph a ++ Step.contributionsUntilFault d (Sketch.steps b)⟩) := by
  obtain ⟨hb, hf⟩ := Container.runUntilFault_contributes (Container.opened d a) (Sketch.steps b)
    (Sketch.directAll_steps b)
  rw [Container.opened_eq] at hb hf
  rw [build, Container.opened_eq]
  simp only [hb, hf]
  rfl

/-- What is read of a subgraph and given a flag. -/
theorem Slots.redirect_bodyMembers (n : Option Text) (a : Attrs) (b : List Statement)
    (flag : Bool) :
    (Slots.toSubgraph { name := n.map some, attributes := some a, body := some b }).redirect flag =
      ⟨n, flag, Statement.defaults .graph a ++ Statement.redirectAll flag b⟩ := by
  rw [Slots.toSubgraph_bodyMembers, Subgraph.redirect, Statement.redirectAll_defaults]

mutual

/-- **A sketch is described as it is built.** -/
theorem Sketch.described : ∀ s : Sketch, s.step.Described s.toDatum
  | .node t a => Sketch.described_node t a
  | .edge s t a => Step.described_edge s t a
  | .edgeBetween s t a => by
    rw [Sketch.step, Sketch.toDatum]
    exact Step.described_between a (Terminal.described s) (Terminal.describedAll t)
  | .defaults c a h => Step.described_defaults h
  | .assign k v => by
    have key : Slots.read {} (.text k) .key = .ok { key := some k } := rfl
    refine .given (x := .assign k v) rfl ?_ (fun _ => rfl)
    rw [Sketch.toDatum, Statement.ofDatum_kind (by simp),
      Slots.ofMembers_field (f := .key) (by decide) rfl key,
      Slots.ofMembers_field (f := .value) (by decide) rfl (Slots.read_value _ v)]
    rfl
  | .subgraph n a b => by
    have slots := Slots.ofMembers_bodyMembers n a (Sketch.listToDatum b)
    rw [Sketch.step, Sketch.toDatum]
    cases Sketch.describedAll b with
    | @refused f m hf hm =>
      refine .refused (m := m) hf ?_
      rw [Statement.ofDatum_kind (bodyMembers_ne_kind n a _), slots, hm]
      rfl
    | @given l hf hl hc =>
      rw [hl] at slots
      have read := Statement.ofDatum_kind (bodyMembers_ne_kind n a (Sketch.listToDatum b))
        (k := .subgraph)
      rw [slots] at read
      refine .given hf read (fun flag => ?_)
      rw [Step.contribution, hc, Statement.redirect, Slots.redirect_bodyMembers]

theorem Sketch.describedAll : ∀ l : List Sketch,
    Step.DescribedAll (Sketch.steps l) (Sketch.listToDatum l)
  | [] => .given (b := []) rfl rfl (fun _ => rfl)
  | s :: r => by
    rw [Sketch.steps, Sketch.listToDatum]
    cases Sketch.described s with
    | @refused f m hf hm =>
      refine .refused (f := f) (m := m) ?_ ?_
      · rw [Step.firstFault, hf]
      · rw [Statement.ofData, hm]
    | @given x hf hx hc =>
      cases Sketch.describedAll r with
      | @refused g m hg hm =>
        refine .refused (f := g) (m := m) ?_ ?_
        · rw [Step.firstFault, hf, hg]
        · rw [Statement.ofData, hx, hm]
      | @given b hg hb hd =>
        refine .given (b := x :: b) ?_ ?_ (fun flag => ?_)
        · rw [Step.firstFault, hf, hg]
        · rw [Statement.ofData, hx, hb]
        · rw [Step.contributionsUntilFault, hf, hc, hd]
          rfl

/-- **An endpoint is described as it is built.** -/
theorem Terminal.described : ∀ x : Terminal, Endpoint.Described x.build x.toDatum
  | .node t => Terminal.described_node t
  | .subgraph d n a b => by
    have slots : Slots.ofSubgraph (.map (bodyMembers n a (Sketch.listToDatum b))) = _ :=
      Slots.ofMembers_bodyMembers n a (Sketch.listToDatum b)
    have read := Endpoint.ofMembers?_cons none "subgraph".toList
      (.map (bodyMembers n a (Sketch.listToDatum b))) []
    rw [Terminal.build_subgraph, Terminal.toDatum]
    cases Sketch.describedAll b with
    | refused hf hm =>
      rw [hm] at slots
      rw [slots] at read
      rw [hf]
      exact .refused rfl read
    | @given l hf hl hc =>
      rw [hl] at slots
      rw [slots] at read
      rw [hf]
      refine .given rfl read (fun flag => ?_)
      rw [Endpoint.redirect, Endpoint.redirect, Slots.redirect_bodyMembers, Subgraph.redirect,
        Statement.redirectAll_defaults, hc, Statement.redirectAll_redirectAll]

theorem Terminal.describedAll : ∀ l : List Terminal,
    Endpoint.DescribedAll (Terminal.buildAll l) (Terminal.listToDatum l)
  | [] => .given rfl rfl (fun _ => rfl)
  | x :: r => by
    rw [Terminal.buildAll, Terminal.listToDatum]
    cases Terminal.described x with
    | @refused f hx hd =>
      rw [hx]
      exact .refused rfl (by rw [Endpoint.ofData?, hd])
    | @given e e' hx hd hr =>
      rw [hx]
      cases Terminal.describedAll r with
      | refused hy hs =>
        rw [hy]
        exact .refused rfl (by simp only [Endpoint.ofData?, hd, hs])
      | @given es es' hy hs hrs =>
        rw [hy]
        have read : Endpoint.ofData? (x.toDatum :: Terminal.listToDatum r) = some (e' :: es') := by
          simp only [Endpoint.ofData?, hd, hs]
        refine .given rfl read (fun flag => ?_)
        rw [Endpoint.redirectAll, Endpoint.redirectAll, hr, hrs]

end

/-! ## Graphs -/

theorem Attrs.plain_toDatum (a : Attrs) : a.toDatum.Plain :=
  Attrs.plain_members a.entries

theorem plainAll_bodyMembers {n : Option Text} {a : Attrs} {l : List Datum}
    (h : Datum.PlainAll l) : Member.PlainAll (bodyMembers n a l) :=
  plainAll_nameMember ⟨a.plain_toDatum, h, trivial⟩

theorem plainAll_texts : ∀ l : List Text, Datum.PlainAll (l.map .text)
  | [] => trivial
  | _ :: r => ⟨trivial, plainAll_texts r⟩

mutual

theorem Sketch.plain_toDatum : ∀ s : Sketch, s.toDatum.Plain
  | .node _ a => ⟨trivial, trivial, a.plain_toDatum, trivial⟩
  | .edge _ t a => ⟨trivial, trivial, plainAll_texts t, a.plain_toDatum, trivial⟩
  | .edgeBetween s t a => ⟨trivial, Terminal.plain_toDatum s, Terminal.plain_listToDatum t,
      a.plain_toDatum, trivial⟩
  | .defaults _ a _ => ⟨trivial, trivial, a.plain_toDatum, trivial⟩
  | .assign _ v => ⟨trivial, trivial, v.plain_toDatum, trivial⟩
  | .subgraph _ _ b => ⟨trivial, plainAll_bodyMembers (Sketch.plain_listToDatum b)⟩

theorem Sketch.plain_listToDatum : ∀ l : List Sketch, Datum.PlainAll (Sketch.listToDatum l)
  | [] => trivial
  | s :: r => ⟨Sketch.plain_toDatum s, Sketch.plain_listToDatum r⟩

theorem Terminal.plain_toDatum : ∀ x : Terminal, x.toDatum.Plain
  | .node _ => trivial
  | .subgraph _ _ _ b => ⟨plainAll_bodyMembers (Sketch.plain_listToDatum b), trivial⟩

theorem Terminal.plain_listToDatum : ∀ l : List Terminal, Datum.PlainAll (Terminal.listToDatum l)
  | [] => trivial
  | x :: r => ⟨Terminal.plain_toDatum x, Terminal.plain_listToDatum r⟩

end

theorem Sketch.plain_graphMembers (d : Bool) (n : Option Text) (a : Attrs) (b : List Sketch) :
    (Datum.map (Sketch.graphMembers d n a b)).Plain :=
  ⟨trivial, plainAll_bodyMembers (Sketch.plain_listToDatum b)⟩

/-- A field that has not been read yet is read. -/
theorem Head.ofMembers_field {fields : List HeadField} {h j : Head} {k : Text} {d : Datum}
    {r : List Member} {f : HeadField} (hf : fields.find? (fun f => f.text = k) = some f)
    (hh : h.has f = false) (hr : h.readDatum d f = .ok j) :
    ofMembers fields h (⟨k, d⟩ :: r) = ofMembers fields j r := by
  simp only [ofMembers, hf, hh, Bool.false_eq_true, if_false, hr]

/-- What is read of attributes and statements, which come last. -/
theorem Head.ofMembers_rest {h : Head} (ha : h.attributes = none) (hb : h.body = none) (a : Attrs)
    (l : List Datum) :
    ofMembers HeadField.ofGraph h [a.member, ⟨"statements".toList, .list l⟩] =
      (Statement.ofData l).map (fun b => { h with attributes := some a, body := some b }) := by
  have own : h.readDatum a.toDatum .attributes = .ok { h with attributes := some a } := by
    rw [readDatum, a.ofDatum_toDatum]
    rfl
  rw [Attrs.member, ofMembers_field (f := .attributes) (by decide) (by simp [has, ha]) own]
  have hf : HeadField.ofGraph.find? (fun f => f.text = "statements".toList) = some .body := by
    decide
  have free : has { h with attributes := some a } .body = false := by simp [has, hb]
  simp only [ofMembers, hf, free, Bool.false_eq_true, if_false, readDatum, Datum.asBody]
  cases Statement.ofData l <;> rfl

/-- What is read of the members of a graph. -/
theorem Head.ofMembers_graphMembers (d : Bool) (n : Option Text) (a : Attrs) (l : List Datum) :
    ofMembers HeadField.ofGraph {} (⟨"directed".toList, .bool d⟩ :: bodyMembers n a l) =
      (Statement.ofData l).map (fun b => ⟨none, some d, n.map some, some a, some b⟩) := by
  have flag : readDatum {} (.bool d) .directed = .ok { directed := some d } := rfl
  rw [ofMembers_field (f := .directed) (by decide) rfl flag, bodyMembers]
  cases n with
  | none => exact ofMembers_rest rfl rfl a l
  | some n =>
    have name : readDatum { directed := some d } (.text n) .name =
        .ok { directed := some d, name := some (some n) } := rfl
    rw [nameMember, List.singleton_append, ofMembers_field (f := .name) (by decide) rfl name]
    exact ofMembers_rest rfl rfl a l

theorem Head.toGraph_graphMembers (d : Bool) (n : Option Text) (a : Attrs) (b : List Statement) :
    Head.toGraph ⟨none, some d, n.map some, some a, some b⟩ =
      ⟨false, d, n, Statement.defaults .graph a ++ Statement.redirectAll d b⟩ := by
  rw [← Statement.redirectAll_defaults]
  cases n <;> rfl

/-- **Descriptions and building programs mean the same.** A graph is started with its own attributes
and filled by the steps for its sketches, which may fail. A JSON text for the description of the
sketches, within the limit of nesting, is read as a graph exactly if no step fails, and then as the
graph that was built, with all its flags. -/
theorem parseJson_sketch {text : Text} {directed : Bool} {name : Option Text} {attributes : Attrs}
    {body : List Sketch}
    (ht : Json.Denotes text (.map (Sketch.graphMembers directed name attributes body)))
    (hd : (Datum.map (Sketch.graphMembers directed name attributes body)).depth ≤ 127) :
    let start := Graph.start directed name attributes
    let built := start.container.runUntilFault (Sketch.steps body)
    ((∃ g, parseJson text = .ok g) ↔ built.2.2 = none) ∧
      ∀ g, parseJson text = .ok g → g = start.withContainer built.1 := by
  intro start built
  have plain := Sketch.plain_graphMembers directed name attributes body
  have named : ∀ d, ⟨"statements".toList, d⟩ ∈ Sketch.graphMembers directed name attributes body →
      Head.BodyNamed d := by
    rintro d hm items rfl e he
    have hp := Member.PlainAll.of_mem plain _ hm
    exact (Datum.PlainAll.of_mem hp e he).kindNamed
  have hr := fun g => parseJson_of_denotes (g := g) ht hd named
  obtain ⟨hb, hf⟩ := Container.runUntilFault_contributes start.container (Sketch.steps body)
    (Sketch.directAll_steps body)
  have fields := Head.ofMembers_graphMembers directed name attributes (Sketch.listToDatum body)
  have read : Graph.ofMembers (Sketch.graphMembers directed name attributes body) = _ :=
    congrArg (Except.map Head.toGraph) fields
  cases Sketch.describedAll body with
  | @refused f m hs hm =>
    have fault : built.2.2 = some f := hf.trans hs
    have refused : ∀ g, parseJson text ≠ .ok g := by
      intro g e
      have hg := (hr g).mp e
      rw [read, hm] at hg
      cases hg
    rw [fault]
    exact ⟨⟨fun ⟨g, e⟩ => absurd e (refused g), by simp⟩, fun g e => absurd e (refused g)⟩
  | @given b hs hm hc =>
    have fault : built.2.2 = none := hf.trans hs
    have given : parseJson text = .ok (start.withContainer built.1) := by
      refine (hr _).mpr ?_
      rw [read, hm, hb, Graph.withContainer, Container.extend, hc]
      show Except.ok (Head.toGraph _) = _
      rw [Head.toGraph_graphMembers]
      simp only [start, Graph.start, Graph.container, Container.opened_eq]
    rw [fault, given]
    simp

/-- A digraph whose edge leads to a subgraph that was made undirected; with an edge without targets
inside a subgraph it can neither be built nor read. -/
theorem parseJson_sketch_flags :
    let k := "k".toList
    let own : Attrs := .ofList [(k, .plain "v".toList)]
    let inner : Sketch := .edge "x:n".toList ["y".toList] .empty
    let good : List Sketch := [
      .edgeBetween (.node "a".toList) [.subgraph false (some k) own [inner]] own,
      .defaults "node".toList own rfl]
    let bad : List Sketch := [.assign k (.html "<b>".toList), .subgraph none own [.edge k [] own]]
    let text : List Sketch → Text := fun l =>
      Json.print (.map (Sketch.graphMembers true none own l))
    let edge : Edge := ⟨true, .node ⟨"x".toList, some ":n".toList⟩, [.node (.ofName "y".toList)],
      [.empty]⟩
    let endpoint : Endpoint := .subgraph ⟨some k, true, [.attr .graph [own], .edge edge]⟩
    parseJson (text good) = .ok ⟨false, true, none, [.attr .graph [own],
        .edge ⟨true, .node (.ofName "a".toList), [endpoint], [own]⟩, .attr .node [own]]⟩ ∧
      ∀ g, parseJson (text bad) ≠ .ok g := by
  intro k own inner good bad text edge endpoint
  have denotes : ∀ l, Json.Denotes (text l) (.map (Sketch.graphMembers true none own l)) :=
    fun l => Json.denotes_print (Sketch.plain_graphMembers true none own l)
  obtain ⟨hg, hgood⟩ := parseJson_sketch (denotes good) (by decide)
  obtain ⟨hb, -⟩ := parseJson_sketch (denotes bad) (by decide)
  constructor
  · obtain ⟨g, e⟩ := hg.mpr rfl
    rw [e, hgood g e]
    rfl
  · intro g e
    cases hb.mp ⟨g, e⟩

end DotGraph
