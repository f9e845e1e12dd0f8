import DotGraph.Proofs.Contexts
import DotGraph.Proofs.RoundTrip

/-!
# Short and long forms

A part of a description is read alike in its short and its long forms. Graphs and subgraphs have
readers of their own for their attributes and statements; what the forms of both rest on is in
`Schema.Holder`.

- `Schema.Holder.read?_abbreviates`: the forms of the members of a graph or subgraph.
- `Schema.Shorthand.read?_eq`: the forms of any part.
- `Schema.Rewrites.ofDatum?_eq`: a description with any part in another form.
-/

set_option autoImplicit false

namespace DotGraph

open Schema

/-! ## Fields that are given once -/

namespace FieldReader

variable {σ φ : Type} [DecidableEq φ] (R : FieldReader σ φ) {f : φ} {u : σ → σ}

/-- What every record takes enters a field. -/
theorem Uniform.enters {R : FieldReader σ φ} (hR : R.Uniform) {d : Datum}
    (hread : ∀ s, R.read s d f = .ok (u s)) (s : σ) : R.Enters f u := by
  obtain ⟨w, hw, -, hreadw⟩ := hR.enters_of_read (hread s)
  have same : u = w := funext (fun s => Except.ok.inj ((hread s).symm.trans (hreadw s)))
  exact same ▸ hw

/-- A field that no member gives can be entered after all members as well. -/
theorem ofMembers_lacks (hu : R.Enters f u) : ∀ {l : List Member} {s : σ}, Lacks l (R.text f) →
    R.ofMembers (u s) l = (R.ofMembers s l).map u
  | [], _, _ => rfl
  | ⟨key, d⟩ :: r, s, hl => by
    have rest : ∀ s, R.ofMembers (u s) r = (R.ofMembers s r).map u :=
      fun s => ofMembers_lacks hu (fun m hm => hl m (List.mem_cons_of_mem _ hm))
    have other : key ≠ R.text f := hl _ (List.mem_cons_self ..)
    rw [ofMembers, ofMembers]
    cases hk : R.field? key with
    | none => exact rest s
    | some g =>
      have hg : g ≠ f := by
        rintro rfl
        exact other ((R.field?_iff key g).mp hk).2.symm
      simp only [hu.has, hg, decide_false, Bool.or_false, hu.read s d g hg]
      cases R.has s g with
      | true => rfl
      | false =>
        cases R.read s d g with
        | error m => rfl
        | ok t => exact rest t

/-- A field that is given once is entered last. -/
theorem ofMembers_first (hR : R.Uniform) (hf : f ∈ R.fields) {d : Datum}
    (hread : ∀ s, R.read s d f = .ok (u s)) {s : σ} (hs : R.has s f = false) {l : List Member}
    (hl : Lacks l (R.text f)) : R.ofMembers s (⟨R.text f, d⟩ :: l) = (R.ofMembers s l).map u := by
  have field := (R.field?_iff _ f).mpr ⟨hf, rfl⟩
  rw [← R.ofMembers_lacks (hR.enters hread s) hl, ofMembers, field]
  simp only [hs, Bool.false_eq_true, if_false, hread]

/-- A field that is given once can be read after the other members. -/
theorem toOption_ofMembers_first {β : Type} (hR : R.Uniform) (hf : f ∈ R.fields)
    {reading : Datum → Except Mismatch β} {enter : β → σ → σ}
    (hread : ∀ s d, R.read s d f = (reading d).map (fun x => enter x s)) {s : σ}
    (hs : R.has s f = false) {l : List Member} (hl : Lacks l (R.text f)) (d : Datum) :
    (R.ofMembers s (⟨R.text f, d⟩ :: l)).toOption =
      (reading d).toOption.bind (fun x => (R.ofMembers s l).toOption.map (enter x)) := by
  cases hd : reading d with
  | error m =>
    have field := (R.field?_iff _ f).mpr ⟨hf, rfl⟩
    rw [R.toOption_ofMembers_field field hs, hread, hd]
    rfl
  | ok x =>
    have reads : ∀ s, R.read s d f = .ok (enter x s) := by
      intro s
      rw [hread, hd]
      rfl
    rw [R.ofMembers_first hR hf reads hs hl, toOption_map]
    rfl

/-- A field that no member gives is not read. -/
theorem has_ofMembers_of_lacks (hf : f ∈ R.fields) {l : List Member} {s t : σ}
    (ht : R.ofMembers s l = .ok t) (hs : R.has s f = false) (hl : Lacks l (R.text f)) :
    R.has t f = false := by
  rw [Bool.eq_false_iff]
  intro h
  rcases (R.has_ofMembers hf ht).mp h with h | ⟨v, hv⟩
  · cases hs.symm.trans h
  · exact hl _ hv rfl

end FieldReader

namespace Schema

/-! ## Graphs and subgraphs -/

/-- How graphs and subgraphs are read as far as they have their fields in common: what is made of
the fields does not tell empty attributes or statements from none, nor attributes from a first
statement that gives them. -/
structure Holder (σ φ α : Type) [DecidableEq φ] where
  reader : FieldReader σ φ
  start : σ
  view : σ → α
  attributes : φ
  body : φ
  withAttributes : Attrs → σ → σ
  withBody : List Statement → σ → σ
  uniform : reader.Uniform
  mem_attributes : attributes ∈ reader.fields
  mem_body : body ∈ reader.fields
  text_attributes : reader.text attributes = "attributes".toList
  text_body : reader.text body = "statements".toList
  has_start : ∀ f, reader.has start f = false
  read_attributes : ∀ s d, reader.read s d attributes =
    (Attrs.ofDatum d).map (fun a => withAttributes a s)
  read_body : ∀ s d, reader.read s d body = d.asBody.map (fun b => withBody b s)
  view_empty : ∀ s, reader.has s attributes = false → view (withAttributes .empty s) = view s
  view_nil : ∀ s, reader.has s body = false → view (withBody [] s) = view s
  view_moved : ∀ s a b, reader.has s attributes = false → a.isEmpty = false →
    view (withAttributes a (withBody b s)) = view (withBody (.attr .graph [a] :: b) s)

namespace Holder

variable {σ φ α : Type} [DecidableEq φ] (H : Holder σ φ α)

/-- Reads the members of a graph or subgraph. -/
def read? (l : List Member) : Option α := (H.reader.ofMembers H.start l).toOption.map H.view

theorem read?_perm {l m : List Member} (h : l.Perm m) : H.read? l = H.read? m := by
  rw [read?, read?, H.reader.ofMembers_perm H.uniform h]

/-- A field may be left out if its value is not told from its absence. -/
theorem read?_default {f : φ} (hf : f ∈ H.reader.fields) {d : Datum} {u : σ → σ}
    (hread : ∀ s, H.reader.read s d f = .ok (u s))
    (hview : ∀ s, H.reader.has s f = false → H.view (u s) = H.view s) {l : List Member}
    (hl : Lacks l (H.reader.text f)) : H.read? (⟨H.reader.text f, d⟩ :: l) = H.read? l := by
  rw [read?, read?, H.reader.ofMembers_first H.uniform hf hread (H.has_start f) hl]
  cases ht : H.reader.ofMembers H.start l with
  | error m => rfl
  | ok t =>
    have absent := H.reader.has_ofMembers_of_lacks hf ht (H.has_start f) hl
    exact congrArg some (hview t absent)

end Holder

/-! ### Attributes as a statement -/

theorem Lacks.cons {k key : Text} {d : Datum} {l : List Member} (hk : k ≠ key)
    (hl : Lacks l key) : Lacks (⟨k, d⟩ :: l) key := List.forall_mem_cons.mpr ⟨hk, hl⟩

/-- Members without a field of the kind are passed over. -/
theorem ofMembers_of_lacks {k : Kind} {s : Slots} : ∀ {l : List Member},
    (∀ f ∈ k.fields, Lacks l f.text) → Slots.ofMembers k s l = .ok s
  | [], _ => rfl
  | ⟨key, d⟩ :: r, h => by
    have unknown : k.field? key = none := by
      rw [Option.eq_none_iff_forall_ne_some]
      intro f hk
      obtain ⟨hf, text⟩ := Kind.field?_eq_some_iff.mp hk
      exact h f hf _ (List.mem_cons_self ..) text.symm
    rw [Slots.ofMembers_skip unknown]
    exact ofMembers_of_lacks (fun f hf m hm => h f hf m (List.mem_cons_of_mem _ hm))

theorem toOption_kind_perm {l m : List Member} (h : l.Perm m) :
    (Kind.ofMembers none l).toOption = (Kind.ofMembers none m).toOption := by
  rw [Kind.toOption_ofMembers, Kind.toOption_ofMembers,
    FieldReader.ofMembers_perm _ (FieldReader.single_uniform _ _) h]

/-- The order of the members of a statement does not matter. -/
theorem toOption_ofDatum_perm {l m : List Member} (h : l.Perm m) :
    (Statement.ofDatum (.map l)).toOption = (Statement.ofDatum (.map m)).toOption := by
  have fields : ∀ k, (Slots.ofMembers k {} l).toOption = (Slots.ofMembers k {} m).toOption := by
    intro k
    rw [Slots.ofMembers_eq, Slots.ofMembers_eq, (Slots.reader k).ofMembers_perm (Slots.uniform k) h]
  rw [Statement.toOption_ofDatum_map, Statement.toOption_ofDatum_map, toOption_kind_perm h]
  simp only [fields]

/-- What a statement of default attributes is read as if its members come in order. -/
theorem toOption_ofMembers_attr (kind : Datum) {component : Datum} {c : Component}
    (hc : Component.ofDatum component = .ok c) (a : List Member) {r : List Member}
    (hr : ∀ f ∈ Kind.attr.fields, Lacks r f.text) :
    (Slots.ofMembers .attr {} (⟨"kind".toList, kind⟩ :: ⟨"component".toList, component⟩ ::
      ⟨"attributes".toList, .map a⟩ :: r)).toOption = (Attrs.ofDatum (.map a)).toOption.map
        (fun x => { component := some c, lists := some [x] }) := by
  have reads : Slots.read {} component .component = .ok { component := some c } := by
    rw [Slots.read_eq_fill, Slots.fillingOf, hc]
    rfl
  have lists : (Slots.read { component := some c } (.map a) .lists).toOption =
      (Attrs.ofDatum (.map a)).toOption.map
        (fun x => { component := some c, lists := some [x] }) := by
    rw [Slots.read_eq_fill, Slots.fillingOf, toOption_map, toOption_map, toOption_listOfDatum_map,
      Option.map_map, Option.map_map]
    rfl
  rw [Slots.ofMembers_skip (by decide), Slots.ofMembers_field (f := .component) (by decide) rfl
    reads, Slots.ofMembers_eq, (Slots.reader .attr).toOption_ofMembers_field (f := .lists)
    (by decide) rfl]
  refine (congrArg (Option.bind · _) lists).trans ?_
  simp only [← Slots.ofMembers_eq, ofMembers_of_lacks hr]
  cases Attrs.ofDatum (.map a) <;> rfl

/-- The statement that gives the attributes of a graph. -/
theorem GraphAttributes.toOption_ofDatum {a l : List Member} (h : GraphAttributes a l) :
    (Statement.ofDatum (.map l)).toOption =
      (Attrs.ofDatum (.map a)).toOption.map (fun x => .attr .graph [x]) := by
  cases h with
  | @mk r kind component hk hc kindless componentless attributeless hp =>
    have once : Kind.ofMembers (some .attr) (⟨"component".toList, component⟩ ::
        ⟨"attributes".toList, .map a⟩ :: r) = .ok .attr :=
      Kind.ofMembers_some .attr (Lacks.cons (by decide) (Lacks.cons (by decide) kindless))
    have found : Kind.ofMembers none (⟨"kind".toList, kind⟩ :: ⟨"component".toList, component⟩ ::
        ⟨"attributes".toList, .map a⟩ :: r) = .ok .attr :=
      Kind.ofMembers_kind_eq_ok_iff.mpr ⟨rfl, .attr, hk, once⟩
    have fields := toOption_ofMembers_attr kind hc a
      (Kind.forall_fields_iff.mpr ⟨componentless, attributeless⟩)
    rw [toOption_ofDatum_perm hp, Statement.toOption_ofDatum_map, found]
    refine (congrArg (Option.bind · _) fields).trans ?_
    cases Attrs.ofDatum (.map a) <;> rfl

/-- Attributes of members are not empty. -/
theorem isEmpty_of_ofMembers : ∀ {l : List Member} {a b : Attrs}, Attrs.ofMembers a l = .ok b →
    l ≠ [] ∨ a.isEmpty = false → b.isEmpty = false
  | [], a, b, h, hl => by
    cases h
    exact hl.resolve_left (fun h => h rfl)
  | ⟨key, d⟩ :: r, a, b, h, _ => by
    rw [Attrs.ofMembers] at h
    split at h
    · rename_i v hv
      exact isEmpty_of_ofMembers h (.inr (a.isEmpty_set key v))
    · cases h

namespace Holder

variable {σ φ α : Type} [DecidableEq φ] (H : Holder σ φ α)

theorem toOption_attributes {l : List Member} (hl : Lacks l "attributes".toList) (d : Datum) :
    (H.reader.ofMembers H.start (⟨"attributes".toList, d⟩ :: l)).toOption =
      (Attrs.ofDatum d).toOption.bind (fun x =>
        (H.reader.ofMembers H.start l).toOption.map (H.withAttributes x)) := by
  rw [← H.text_attributes] at hl ⊢
  exact H.reader.toOption_ofMembers_first H.uniform H.mem_attributes H.read_attributes
    (H.has_start _) hl d

theorem toOption_body {l : List Member} (hl : Lacks l "statements".toList) (d : Datum) :
    (H.reader.ofMembers H.start (⟨"statements".toList, d⟩ :: l)).toOption =
      d.asBody.toOption.bind (fun b =>
        (H.reader.ofMembers H.start l).toOption.map (H.withBody b)) := by
  rw [← H.text_body] at hl ⊢
  exact H.reader.toOption_ofMembers_first H.uniform H.mem_body H.read_body (H.has_start _) hl d

/-- Attributes apart are read as a first statement that gives them. -/
theorem read?_moved {a s r : List Member} {items : List Datum} (ha : a ≠ [])
    (hs : GraphAttributes a s) (hra : Lacks r "attributes".toList)
    (hrs : Lacks r "statements".toList) :
    H.read? (⟨"attributes".toList, .map a⟩ :: ⟨"statements".toList, .list items⟩ :: r) =
      H.read? (⟨"statements".toList, .list (.map s :: items)⟩ :: r) := by
  have body : (Datum.list (.map s :: items)).asBody.toOption =
      (Attrs.ofDatum (.map a)).toOption.bind (fun x =>
        (Datum.list items).asBody.toOption.map (.attr .graph [x] :: ·)) := by
    simp only [Datum.asBody, Statement.toOption_ofData, List.mapM_cons, hs.toOption_ofDatum]
    cases (Attrs.ofDatum (.map a)).toOption with
    | none => rfl
    | some x => cases items.mapM (fun d => (Statement.ofDatum d).toOption) <;> rfl
  rw [read?, read?, H.toOption_attributes (hra.cons (by decide)), H.toOption_body hrs,
    H.toOption_body hrs, body]
  cases hx : Attrs.ofDatum (.map a) with
  | error m => rfl
  | ok x =>
    cases (Datum.list items).asBody with
    | error m => rfl
    | ok b =>
      cases ht : H.reader.ofMembers H.start r with
      | error m => rfl
      | ok t =>
        rw [← H.text_attributes] at hra
        have absent := H.reader.has_ofMembers_of_lacks H.mem_attributes ht (H.has_start _) hra
        have filled := isEmpty_of_ofMembers hx (.inl ha)
        exact congrArg some (H.view_moved t x b absent filled)

/-- **The forms of the members of a graph or subgraph are read alike.** -/
theorem read?_abbreviates {outermost : Prop} {l m : List Member} (h : Abbreviates outermost l m) :
    H.read? l = H.read? m := by
  cases h with
  | attributes hl hm =>
    rw [H.read?_perm hm, ← H.text_attributes]
    rw [← H.text_attributes] at hl
    refine (H.read?_default H.mem_attributes (u := H.withAttributes .empty) ?_ H.view_empty hl).symm
    intro s
    rw [H.read_attributes]
    rfl
  | statements hl hm =>
    rw [H.read?_perm hm, ← H.text_body]
    rw [← H.text_body] at hl
    refine (H.read?_default H.mem_body (u := H.withBody []) ?_ H.view_nil hl).symm
    intro s
    rw [H.read_body]
    rfl
  | moved ha hs _ hra hrs hl hm =>
    rw [H.read?_perm hl, H.read?_perm hm]
    exact H.read?_moved ha hs hra hrs

end Holder

end Schema

theorem withOwnAttributes_empty {a : Option Attrs} (ha : a.isSome = false)
    (b : Option (List Statement)) : withOwnAttributes (some .empty) b = withOwnAttributes a b := by
  rw [Option.not_isSome_iff_eq_none.mp (Bool.eq_false_iff.mp ha)]
  rfl

theorem withOwnAttributes_nil (a : Option Attrs) {b : Option (List Statement)}
    (hb : b.isSome = false) : withOwnAttributes a (some []) = withOwnAttributes a b := by
  rw [Option.not_isSome_iff_eq_none.mp (Bool.eq_false_iff.mp hb)]
  rfl

theorem withOwnAttributes_moved {a : Option Attrs} (ha : a.isSome = false) {x : Attrs}
    (hx : x.isEmpty = false) (b : List Statement) :
    withOwnAttributes (some x) (some b) = withOwnAttributes a (some (.attr .graph [x] :: b)) := by
  rw [Option.not_isSome_iff_eq_none.mp (Bool.eq_false_iff.mp ha)]
  simp only [withOwnAttributes, Option.getD_some, hx, Bool.false_eq_true, if_false]
  rfl

/-- Subgraphs. -/
def Slots.holder : Holder Slots StatementField Subgraph where
  reader := reader .subgraph
  start := {}
  view := toSubgraph
  attributes := .attributes
  body := .body
  withAttributes a s := { s with attributes := some a }
  withBody b s := { s with body := some b }
  uniform := uniform .subgraph
  mem_attributes := by decide
  mem_body := by decide
  text_attributes := rfl
  text_body := rfl
  has_start := has_empty
  read_attributes _ _ := rfl
  read_body s d := by
    refine (read_body_eq s d).trans ?_
    cases d.asBody <;> rfl
  view_empty s hs := by simp only [toSubgraph, withOwnAttributes_empty hs]
  view_nil s hs := by simp only [toSubgraph, withOwnAttributes_nil _ hs]
  view_moved s a b hs ha := by simp only [toSubgraph, withOwnAttributes_moved hs ha]

/-- Graphs. -/
def Head.holder : Holder Head HeadField Graph where
  reader := reader
  start := {}
  view := toGraph
  attributes := .attributes
  body := .body
  withAttributes a s := { s with attributes := some a }
  withBody b s := { s with body := some b }
  uniform := uniform
  mem_attributes := by decide
  mem_body := by decide
  text_attributes := rfl
  text_body := rfl
  has_start f := by cases f <;> rfl
  read_attributes _ _ := rfl
  read_body _ _ := rfl
  view_empty s hs := by simp only [toGraph, withOwnAttributes_empty hs]
  view_nil s hs := by simp only [toGraph, withOwnAttributes_nil _ hs]
  view_moved s a b hs ha := by simp only [toGraph, withOwnAttributes_moved hs ha]

namespace Schema

/-- A map is read as a graph by the members that graphs have. -/
theorem read?_graph_map (l : List Member) : Site.graph.read? (.map l) = Head.holder.read? l := by
  show (Head.ofMembers HeadField.ofGraph {} l).toOption.map Head.toGraph = _
  rw [Head.ofMembers_eq]
  rfl

theorem read?_subgraph_map (l : List Member) :
    Site.subgraph.read? (.map l) = Slots.holder.read? l := by
  show (Slots.ofMembers .subgraph {} l).toOption.map Slots.toSubgraph = _
  rw [Slots.ofMembers_eq]
  rfl

/-- The kind of a statement does not depend on the form of its other members. -/
theorem Abbreviates.toOption_kind {outermost : Prop} {l m : List Member}
    (h : Abbreviates outermost l m) :
    (Kind.ofMembers none l).toOption = (Kind.ofMembers none m).toOption := by
  cases h with
  | attributes _ hm | statements _ hm =>
    rw [toOption_kind_perm hm, Kind.ofMembers_field (by decide)]
  | moved _ _ _ _ _ hl hm =>
    rw [toOption_kind_perm hl, toOption_kind_perm hm, Kind.ofMembers_field (by decide),
      Kind.ofMembers_field (by decide), Kind.ofMembers_field (by decide)]

theorem Abbreviates.hasKind {outermost : Prop} {l m : List Member} (h : Abbreviates outermost l m)
    {k : Kind} (hk : HasKind l k) : HasKind m k := by
  obtain ⟨d, hd, hk⟩ := hk
  refine ⟨d, ?_, hk⟩
  cases h with
  | attributes _ hm | statements _ hm => exact hm.mem_iff.mpr (List.mem_cons_of_mem _ hd)
  | moved _ _ _ _ _ hl hm =>
    refine hm.mem_iff.mpr (List.mem_cons_of_mem _ ?_)
    rcases List.mem_cons.mp (hl.mem_iff.mp hd) with e | hd
    · cases (Member.mk.inj e).1
    · rcases List.mem_cons.mp hd with e | hd
      · cases (Member.mk.inj e).1
      · exact hd

/-- A statement that is a subgraph is read by the members that subgraphs have. -/
theorem toOption_ofDatum_subgraph {l : List Member} (hk : HasKind l .subgraph) :
    (Statement.ofDatum (.map l)).toOption = (Kind.ofMembers none l).toOption.bind (fun _ =>
      (Slots.holder.read? l).map .subgraph) := by
  rw [Statement.toOption_ofDatum_map_of_kind hk, Slots.ofMembers_eq]
  cases (Kind.ofMembers none l).toOption with
  | none => rfl
  | some k =>
    show _ = ((((Slots.reader .subgraph).ofMembers {} l).toOption.map Slots.toSubgraph).map
      Statement.subgraph)
    cases (Slots.reader .subgraph).ofMembers {} l <;> rfl

/-- **The forms of a part are read alike.** -/
theorem Shorthand.read?_eq {s : Site} {d e : Datum} (h : Shorthand s d e) :
    s.read? d = s.read? e := by
  cases h with
  | unsigned hn => exact if_pos hn
  | signed | bool => rfl
  | target hd =>
    refine (targetsOf?_of_not_list hd).trans ?_
    show _ = Endpoint.ofData? [d]
    rw [Endpoint.ofData?_eq_mapM]
    cases h : Endpoint.ofDatum? d <;> simp [h]
  | @attributes l =>
    refine (toOption_listOfDatum_map l).trans ?_
    refine Eq.trans ?_ (toOption_listOfDatum_list [.map l]).symm
    show _ = [Datum.map l].mapM (fun d => (Attrs.ofDatum d).toOption)
    cases h : Attrs.ofDatum (.map l) <;> simp [h, Except.toOption]
  | strict hl hm =>
    rw [read?_graph_map, read?_graph_map, Head.holder.read?_perm hm]
    have absent : ∀ h : Head, h.has .strict = false →
        (h.fill (.strict false)).toGraph = h.toGraph := by
      intro h hh
      have none : h.strict = none := by simpa [Head.has] using hh
      simp [Head.fill, Head.toGraph, none]
    exact (Head.holder.read?_default (f := .strict) (by decide) (fun _ => rfl) absent hl).symm
  | directed hl hm =>
    rw [read?_graph_map, read?_graph_map, Head.holder.read?_perm hm]
    have absent : ∀ h : Head, h.has .directed = false →
        (h.fill (.directed false)).toGraph = h.toGraph := by
      intro h hh
      have none : h.directed = none := by simpa [Head.has] using hh
      simp [Head.fill, Head.toGraph, none]
    exact (Head.holder.read?_default (f := .directed) (by decide) (fun _ => rfl) absent hl).symm
  | graph ha =>
    rw [read?_graph_map, read?_graph_map]
    exact Head.holder.read?_abbreviates ha
  | subgraph ha =>
    rw [read?_subgraph_map, read?_subgraph_map]
    exact Slots.holder.read?_abbreviates ha
  | nested hk ha =>
    refine (toOption_ofDatum_subgraph hk).trans ?_
    rw [ha.toOption_kind, Slots.holder.read?_abbreviates ha]
    exact (toOption_ofDatum_subgraph (ha.hasKind hk)).symm

/-- **A description with a part in another form describes the same graph.** -/
theorem Rewrites.ofDatum?_eq {d e : Datum} (h : Rewrites d e) :
    Graph.ofDatum? d = Graph.ofDatum? e := by
  cases h with
  | mk hp hs => exact hp.through.congr hs.read?_eq

end Schema

end DotGraph
