import DotGraph.Description.Layers
import DotGraph.Description.Shorthand
import DotGraph.Proofs.Acceptance
import DotGraph.Proofs.FieldOrder

/-!
# Parts that are exchanged

Of a description that can be read any part can be exchanged: what is read then differs only in what
this part is read as. This module has it for one step, from a list to one of its items, and from a
map, or a list in its place, to one of its fields.

- `mapM_exchange`: lists that are read item by item.
- `Head.ofMembers_exchange`, `Head.ofData?_exchange`: graphs.
- `Statement.ofDatum_exchange`, `Statement.ofDatum_exchangeItem`: statements.
- `Slots.toOption_read_bind`: what a statement is made of one of its fields.
- `Endpoint.ofMembers?_exchange`: endpoints.
- `Attrs.ofMembers_exchange`: attributes.
-/

set_option autoImplicit false

namespace DotGraph

/-! ## Lists with one item exchanged -/

/-- Of a list that is read item by item only what is made of one item depends on it. -/
theorem mapM_exchange {α β : Type} {g : α → Option β} {front back : List α} {v₀ : α} {b : List β}
    (h : (front ++ v₀ :: back).mapM g = some b) : ∃ before after, ∀ v,
      (front ++ v :: back).mapM g = (g v).map (fun a => before ++ a :: after) := by
  simp only [List.mapM_append, List.mapM_cons] at h ⊢
  simp only [Option.bind_eq_bind, Option.bind_eq_some_iff, Option.pure_def, Option.some.injEq] at h
  obtain ⟨before, hb, _, ⟨-, -, after, hr, rfl⟩, -⟩ := h
  refine ⟨before, after, fun v => ?_⟩
  rw [hb, hr]
  cases g v <;> rfl

/-! ## Maps with one field exchanged -/

namespace Kind

/-- Every kind that is given is the one that is found. -/
theorem ofDatum_of_ofMembers {k : Kind} : ∀ {l : List Member} {found : Option Kind},
    Kind.ofMembers found l = .ok k → (∀ j, found = some j → j = k) ∧
      ∀ d, ⟨"kind".toList, d⟩ ∈ l → Kind.ofDatum d = .ok k
  | [], found, h => by
    cases found with
    | none => cases h
    | some j =>
      cases h
      exact ⟨fun _ e => (Option.some.inj e).symm, nofun⟩
  | ⟨key, d⟩ :: r, found, h => by
    by_cases hkey : key = "kind".toList
    · subst hkey
      obtain ⟨rfl, j, hj, h⟩ := ofMembers_kind_eq_ok_iff.mp h
      obtain ⟨first, rest⟩ := ofDatum_of_ofMembers h
      refine ⟨nofun, fun e he => ?_⟩
      rcases List.mem_cons.mp he with he | he
      · cases he
        rw [hj, first j rfl]
      · exact rest e he
    · rw [ofMembers_field hkey] at h
      obtain ⟨first, rest⟩ := ofDatum_of_ofMembers h
      refine ⟨first, fun e he => ?_⟩
      rcases List.mem_cons.mp he with he | he
      · cases he
        exact absurd rfl hkey
      · exact rest e he

theorem eq_of_hasKind {l : List Member} {j k : Kind} (h : Kind.ofMembers none l = .ok k)
    (hj : Schema.HasKind l j) : k = j := by
  obtain ⟨d, hd, kind⟩ := hj
  exact Except.ok.inj (((ofDatum_of_ofMembers h).2 d hd).symm.trans kind)

/-- The kind does not depend on the other members. -/
theorem ofMembers_exchange {key : Text} (hkey : key ≠ "kind".toList) (v w : Datum)
    {back : List Member} : ∀ (front : List Member) (found : Option Kind),
    Kind.ofMembers found (front ++ ⟨key, v⟩ :: back) =
      Kind.ofMembers found (front ++ ⟨key, w⟩ :: back)
  | [], found => by
    simp only [List.nil_append, Kind.ofMembers, if_neg hkey]
  | ⟨j, d⟩ :: front, found => by
    simp only [List.cons_append, Kind.ofMembers, ofMembers_exchange hkey v w front]

end Kind

theorem Schema.HasKind.insert {front back : List Member} {k : Kind} (h : HasKind (front ++ back) k)
    (m : Member) : HasKind (front ++ m :: back) k := by
  obtain ⟨d, hd, hk⟩ := h
  exact ⟨d, List.perm_middle.mem_iff.mpr (List.mem_cons_of_mem m hd), hk⟩

namespace Slots

/-- The fields of a map of which one is exchanged. -/
theorem ofMembers_exchange {k : Kind} {f : StatementField} (hf : f ∈ k.fields)
    {front back : List Member} {v₀ : Datum} {t : Slots}
    (h : ofMembers k {} (front ++ ⟨f.text, v₀⟩ :: back) = .ok t) :
    ∃ r : Slots, ∀ v, ofMembers k {} (front ++ ⟨f.text, v⟩ :: back) = r.read v f := by
  rw [ofMembers_eq] at h
  obtain ⟨r, hr⟩ := (reader k).ofMembers_exchange (uniform k) hf h
  exact ⟨r, fun v => (ofMembers_eq k _ _).trans (hr v)⟩

end Slots

namespace Head

/-- The fields of a graph of which one is exchanged. -/
theorem ofMembers_exchange {f : HeadField} {front back : List Member} {v₀ : Datum} {t : Head}
    (h : ofMembers HeadField.ofGraph {} (front ++ ⟨f.text, v₀⟩ :: back) = .ok t) :
    ∃ r : Head, ∀ v, ofMembers HeadField.ofGraph {} (front ++ ⟨f.text, v⟩ :: back) =
      r.readDatum v f := by
  rw [ofMembers_eq] at h
  have member : f ∈ reader.fields := by cases f <;> decide
  obtain ⟨r, hr⟩ := reader.ofMembers_exchange uniform member h
  exact ⟨r, fun v => (ofMembers_eq _ _).trans (hr v)⟩

/-- What comes after a field has been entered is read as if another value had been entered. -/
theorem ofData?_enters {f : HeadField} {u : Head → Head} (hu : reader.Enters f u) :
    ∀ {fs : List HeadField} {l : List Datum} {s t : Head}, f ∉ fs → ofData? (u s) fs l = some t →
    ∃ r, ∀ w, reader.Enters f w → ofData? (w s) fs l = some (w r)
  | fs, [], s, t, _, _ => ⟨s, fun w _ => by rw [ofData?.eq_def]⟩
  | [], _ :: _, _, _, _, h => by cases h
  | g :: fs, d :: l, s, t, hf, h => by
    obtain ⟨hg, hf⟩ := not_or.mp (mt List.mem_cons.mpr hf)
    have step : ∀ {w}, reader.Enters f w → (w s).readDatum d g = (s.readDatum d g).map w :=
      fun hw => hw.read s d g (Ne.symm hg)
    obtain ⟨t', hread, h⟩ := ofData?_cons_eq_some_iff.mp h
    rw [step hu] at hread
    obtain ⟨s', hs, rfl⟩ := except_map_eq_ok_iff.mp hread
    obtain ⟨r, hr⟩ := ofData?_enters hu hf h
    refine ⟨r, fun w hw => ofData?_cons_eq_some_iff.mpr ⟨w s', ?_, hr w hw⟩⟩
    rw [step hw, hs]
    rfl

/-- The fields of a graph in a list of which one item is exchanged. -/
theorem ofData?_exchange {f : HeadField} {back : List Datum} {v₀ : Datum} :
    ∀ {fs : List HeadField} {front : List Datum} {s t : Head}, fs.Nodup →
    fs[front.length]? = some f → ofData? s fs (front ++ v₀ :: back) = some t →
    ∃ r : Head, ∀ v, ofData? s fs (front ++ v :: back) = (r.readDatum v f).toOption
  | [], [], _, _, _, hf, _ => by cases hf
  | [], _ :: _, _, _, _, hf, _ => by cases hf
  | g :: fs, [], s, t, nodup, hf, h => by
    obtain rfl : g = f := Option.some.inj hf
    obtain ⟨t', hread, h⟩ := ofData?_cons_eq_some_iff.mp h
    obtain ⟨u, hu, rfl, -⟩ := uniform.enters_of_read hread
    obtain ⟨r, hr⟩ := ofData?_enters hu (List.nodup_cons.mp nodup).1 h
    refine ⟨r, fun v => ?_⟩
    rw [List.nil_append, ofData?]
    rcases uniform v g with ⟨m, hm⟩ | ⟨w, hw, hread⟩
    · rw [show s.readDatum v g = .error m from hm s, show r.readDatum v g = .error m from hm r]
      rfl
    · rw [show s.readDatum v g = .ok (w s) from hread s,
        show r.readDatum v g = .ok (w r) from hread r]
      exact hr w hw
  | g :: fs, d :: front, s, t, nodup, hf, h => by
    obtain ⟨s', hs, h⟩ := ofData?_cons_eq_some_iff.mp h
    obtain ⟨r, hr⟩ := ofData?_exchange (List.nodup_cons.mp nodup).2 hf h
    refine ⟨r, fun v => ?_⟩
    rw [List.cons_append, ofData?, hs]
    exact hr v

end Head

theorem Head.toOption_read_body (r : Head) (v : Datum) : (r.readDatum v .body).toOption =
    v.asBody.toOption.map (fun b => { r with body := some b }) := by
  rw [readDatum, toOption_map]

theorem StatementField.text_ne_kind (f : StatementField) : f.text ≠ "kind".toList := by
  cases f <;> decide

/-- The statement of a map of which one field is exchanged. -/
theorem Statement.ofDatum_exchange {k : Kind} {f : StatementField} (hf : f ∈ k.fields)
    {front back : List Member} {v₀ : Datum} {a : Statement}
    (hk : Schema.HasKind (front ++ back) k)
    (h : Statement.ofDatum (.map (front ++ ⟨f.text, v₀⟩ :: back)) = .ok a) :
    ∃ r : Slots, ∀ v, Statement.ofDatum (.map (front ++ ⟨f.text, v⟩ :: back)) =
      (r.read v f).bind (Slots.toStatement k) := by
  obtain ⟨j, t, hj, ht, -⟩ := Statement.ofDatum_map_eq_ok_iff.mp h
  obtain rfl := Kind.eq_of_hasKind hj (hk.insert _)
  obtain ⟨r, hr⟩ := Slots.ofMembers_exchange hf ht
  refine ⟨r, fun v => ?_⟩
  rw [Statement.ofDatum, Kind.ofMembers_exchange f.text_ne_kind v v₀, hj]
  simp only [hr]
  cases r.read v f <;> rfl

theorem Kind.fields_nodup (k : Kind) : k.fields.Nodup := by
  cases k <;> decide

/-- The statement of a list of which one field is exchanged. -/
theorem Statement.ofDatum_exchangeItem {k : Kind} {kind : Datum} (hk : Kind.ofDatum kind = .ok k)
    {f : StatementField} {front back : List Datum} (hf : k.fields[front.length]? = some f)
    {v₀ : Datum} {a : Statement}
    (h : Statement.ofDatum (.list (kind :: front ++ v₀ :: back)) = .ok a) :
    ∃ r : Slots, ∀ v, Statement.ofDatum (.list (kind :: front ++ v :: back)) =
      (r.read v f).bind (Slots.toStatement k) := by
  obtain ⟨j, t, hj, ht, -⟩ := Statement.ofDatum_list_eq_ok_iff.mp h
  obtain rfl := Except.ok.inj (hk.symm.trans hj)
  obtain ⟨r, hr⟩ := Slots.ofItems_exchange k.fields_nodup hf ht
  refine ⟨r, fun v => ?_⟩
  rw [List.cons_append, Statement.ofDatum, hk]
  simp only [hr]
  cases r.read v f <;> rfl

/-! ## Endpoints and subgraphs -/

theorem Statement.redirectAll_append (d : Bool) (b c : List Statement) :
    redirectAll d (b ++ c) = redirectAll d b ++ redirectAll d c := by
  induction b with
  | nil => rfl
  | cons a b ih => rw [List.cons_append, redirectAll, redirectAll, ih, List.cons_append]

theorem Endpoint.redirectAll_append (d : Bool) (b c : List Endpoint) :
    redirectAll d (b ++ c) = redirectAll d b ++ redirectAll d c := by
  induction b with
  | nil => rfl
  | cons a b ih => rw [List.cons_append, redirectAll, redirectAll, ih, List.cons_append]

/-- An endpoint of which the subgraph is exchanged. -/
theorem Endpoint.ofMembers?_exchange {front back : List Member} {v₀ : Datum} {e : Endpoint}
    (h : Endpoint.ofMembers? none (front ++ ⟨"subgraph".toList, v₀⟩ :: back) = some e) (v : Datum) :
    Endpoint.ofMembers? none (front ++ ⟨"subgraph".toList, v⟩ :: back) =
      (Slots.ofSubgraph v).toOption.map (fun s => .subgraph s.toSubgraph) := by
  let reader := FieldReader.single "subgraph".toList Slots.ofSubgraph
  have eq : ∀ l, Endpoint.ofMembers? none l = (reader.ofMembers none l).toOption.join.map
      (fun s => .subgraph s.toSubgraph) := fun l => Endpoint.ofMembers?_eq l none
  rw [eq] at h
  obtain ⟨s, hs, -⟩ := Option.map_eq_some_iff.mp h
  have ht := toOption_eq_some_iff.mp (Option.join_eq_some_iff.mp hs)
  obtain ⟨r, hr⟩ := reader.ofMembers_exchange (FieldReader.single_uniform _ _)
    (List.mem_singleton_self ()) ht
  have read : reader.ofMembers none (front ++ ⟨"subgraph".toList, v⟩ :: back) =
      (Slots.ofSubgraph v).map some := hr v
  rw [eq, read]
  cases Slots.ofSubgraph v <;> rfl

/-! ## Fields of a statement -/

namespace Slots

theorem toOption_read_body (r : Slots) (v : Datum) : (r.read v .body).toOption =
    v.asBody.toOption.map (fun b => { r with body := some b }) := by
  rw [read_body_eq]
  cases v.asBody <;> rfl

theorem toOption_read_source (r : Slots) (v : Datum) : (r.read v .source).toOption =
    (Endpoint.ofDatum? v).map (fun e => { r with source := some e }) := by
  rw [read]
  cases Endpoint.ofDatum? v <;> rfl

theorem toOption_read_targets (r : Slots) (v : Datum) : (r.read v .targets).toOption =
    (Endpoint.targetsOf? v).map (fun l => { r with targets := some l }) := by
  rw [read_targets_eq]
  cases Endpoint.targetsOf? v <;> rfl

theorem toOption_read_attributes (r : Slots) (v : Datum) : (r.read v .attributes).toOption =
    (Attrs.ofDatum v).toOption.map (fun a => { r with attributes := some a }) := by
  rw [read_eq_fill, fillingOf, toOption_map, toOption_map, Option.map_map]
  rfl

theorem toOption_read_lists (r : Slots) (v : Datum) : (r.read v .lists).toOption =
    (Attrs.listOfDatum v).toOption.map (fun l => { r with lists := some l }) := by
  rw [read_eq_fill, fillingOf, toOption_map, toOption_map, Option.map_map]
  rfl

theorem toOption_read_value (r : Slots) (v : Datum) : (r.read v .value).toOption =
    (Value.ofDatum? v).map (fun x => { r with value := some x }) := by
  rw [read_eq_fill, fillingOf]
  cases Value.ofDatum? v <;> rfl

end Slots

section Fields

variable {r : Slots} {k : Kind} {f : StatementField} {v : Datum} {α : Type} {x : Option α}
  {u : α → Slots}

/-- A statement that can be read is one with something in each of its fields. -/
theorem Slots.exists_of_read_bind {a : Statement} (hread : (r.read v f).toOption = x.map u)
    (h : (r.read v f).bind (toStatement k) = .ok a) : ∃ y, toStatement k (u y) = .ok a := by
  rw [← toOption_eq_some_iff, toOption_bind, hread, Option.bind_eq_some_iff] at h
  obtain ⟨t, ht, h⟩ := h
  obtain ⟨y, -, rfl⟩ := Option.map_eq_some_iff.mp ht
  exact ⟨y, toOption_eq_some_iff.mp h⟩

/-- A statement varies with what is in one of its fields. -/
theorem Slots.toOption_read_bind {w : α → Statement} (hread : (r.read v f).toOption = x.map u)
    (whole : ∀ y, toStatement k (u y) = .ok (w y)) :
    ((r.read v f).bind (toStatement k)).toOption = x.map w := by
  rw [toOption_bind, hread]
  cases x with
  | none => rfl
  | some y => exact congrArg Except.toOption (whole y)

end Fields

/-! ## Statements with one field exchanged -/

theorem withOwnAttributes_some (a : Option Attrs) (b : List Statement) :
    withOwnAttributes a (some b) = withOwnAttributes a none ++ b := by
  simp [withOwnAttributes]

theorem withOwnAttributes_set (a : Attrs) (key : Text) (x : Value) (b : Option (List Statement)) :
    withOwnAttributes (some (a.set key x)) b = .attr .graph [a.set key x] :: b.getD [] := by
  simp [withOwnAttributes, a.isEmpty_set key x]

namespace Slots

theorem toStatement_source {r : Slots} {e₀ : Endpoint} {a : Statement}
    (h : toStatement .edge { r with source := some e₀ } = .ok a) : ∃ targets attributes, ∀ e,
      toStatement .edge { r with source := some e } =
        .ok (.edge ⟨false, e, targets, attributes⟩) := by
  obtain ⟨present, nonempty⟩ := toStatement_ok_iff.mp ⟨a, h⟩
  obtain ⟨l, hl⟩ := Option.isSome_iff_exists.mp (present .targets (by decide) rfl)
  replace hl : r.targets = some l := hl
  cases l with
  | nil => exact absurd hl (nonempty rfl)
  | cons t l =>
    refine ⟨t :: l, r.lists.getD [], fun e => ?_⟩
    simp [toStatement, Kind.fields, StatementField.required, has, hl, Edge.make]

theorem toStatement_targets {r : Slots} {l₀ : List Endpoint} {a : Statement}
    (h : toStatement .edge { r with targets := some l₀ } = .ok a) : ∃ origin attributes, ∀ l,
      l ≠ [] → toStatement .edge { r with targets := some l } =
        .ok (.edge ⟨false, origin, l, attributes⟩) := by
  obtain ⟨present, -⟩ := toStatement_ok_iff.mp ⟨a, h⟩
  obtain ⟨e, he⟩ := Option.isSome_iff_exists.mp (present .source (by decide) rfl)
  replace he : r.source = some e := he
  refine ⟨e, r.lists.getD [], fun l hl => ?_⟩
  obtain ⟨t, l, rfl⟩ := List.exists_cons_of_ne_nil hl
  simp [toStatement, Kind.fields, StatementField.required, has, he, Edge.make]

theorem toStatement_body (r : Slots) (b : List Statement) :
    toStatement .subgraph { r with body := some b } =
      .ok (.subgraph ⟨r.name.getD none, false, withOwnAttributes r.attributes none ++ b⟩) := by
  simp [toStatement, Kind.fields, StatementField.required, toSubgraph, withOwnAttributes_some]

end Slots

/-- A statement is read as what its attribute lists belong to, with these. -/
theorem Slots.toStatement_lists {k : Kind} (hk : .lists ∈ k.fields) {r : Slots} {l₀ : List Attrs}
    {a : Statement} (h : toStatement k { r with lists := some l₀ } = .ok a) :
    ∃ owner : Schema.Owner, ∀ l,
      toStatement k { r with lists := some l } = .ok (owner.withLists l) := by
  obtain ⟨present, nonempty⟩ := toStatement_ok_iff.mp ⟨a, h⟩
  have given : ∀ f ∈ k.fields, f.required = true → r.has f = true := fun f hf hr => by
    cases f <;> first | exact present _ hf hr | cases hr
  cases k with
  | node =>
    have id : r.id.isSome := given .id (by decide) rfl
    refine ⟨.node (r.id.getD (.ofName [])), fun l => ?_⟩
    simp [toStatement, Kind.fields, StatementField.required, has, id, Schema.Owner.withLists]
  | edge =>
    have source : r.source.isSome := given .source (by decide) rfl
    have targets : r.targets.isSome := given .targets (by decide) rfl
    obtain ⟨l, hl⟩ := Option.isSome_iff_exists.mp targets
    cases l with
    | nil => exact absurd hl (nonempty rfl)
    | cons e l =>
      refine ⟨.edge false (r.source.getD default) (e :: l), fun l => ?_⟩
      simp [toStatement, Kind.fields, StatementField.required, has, source, hl, Edge.make,
        Schema.Owner.withLists]
  | attr =>
    have component : r.component.isSome := given .component (by decide) rfl
    refine ⟨.attr (r.component.getD .graph), fun l => ?_⟩
    simp [toStatement, Kind.fields, StatementField.required, has, component,
      Schema.Owner.withLists]
  | subgraph | assign => exact absurd hk (by decide)

/-! ## Keys of identities -/

theorem Slots.key_of_read {s t : Slots} {d : Datum} (h : s.read d .key = .ok t) :
    ∃ key, d = .text key ∧ t = { s with key := some key } := by
  rw [read_eq_fill] at h
  cases d with
  | text key =>
    cases h
    exact ⟨key, rfl, rfl⟩
  | null | bool | unsigned | signed | float | list | map => cases h

theorem Slots.key_of_read_value {s t : Slots} {d : Datum} (h : s.read d .value = .ok t) :
    t.key = s.key := by
  rw [← toOption_eq_some_iff, toOption_read_value] at h
  obtain ⟨x, -, rfl⟩ := Option.map_eq_some_iff.mp h
  rfl

/-- The key of an identity is the text of a member. -/
theorem Slots.key_ofMembers {key : Text} : ∀ {l : List Member} {s t : Slots},
    ofMembers .assign s l = .ok t → t.key = some key →
      s.key = some key ∨ ⟨"key".toList, .text key⟩ ∈ l
  | [], s, t, h, given => by
    cases h
    exact .inl given
  | ⟨j, d⟩ :: l, s, t, h, given => by
    rw [ofMembers_eq] at h
    cases hj : (reader .assign).field? j with
    | none =>
      rw [(reader .assign).ofMembers_unknown hj, ← ofMembers_eq] at h
      exact (key_ofMembers h given).imp_right (List.mem_cons_of_mem _)
    | some f =>
      obtain ⟨-, s', hs, h⟩ := ((reader .assign).ofMembers_field_eq_ok_iff hj).mp h
      rw [← ofMembers_eq] at h
      refine (key_ofMembers h given).elim (fun new => ?_) (.inr ∘ List.mem_cons_of_mem _)
      obtain ⟨hf, rfl⟩ := Kind.field?_eq_some_iff.mp hj
      rcases List.mem_pair.mp hf with rfl | rfl
      · obtain ⟨k, rfl, rfl⟩ := key_of_read hs
        cases new
        exact .inr (List.mem_cons_self ..)
      · exact .inl ((key_of_read_value hs).symm.trans new)

theorem Slots.key_of_toStatement {k : Kind} {s : Slots} {key : Text} {x : Value}
    (h : s.toStatement k = .ok (.assign key x)) : k = .assign ∧ s.key = some key := by
  obtain ⟨present, -⟩ := toStatement_ok_iff.mp ⟨_, h⟩
  unfold toStatement at h
  split at h
  · cases h
  · cases k with
    | node | attr | subgraph => cases h
    | edge =>
      cases made : Edge.make false (s.source.getD default) (s.targets.getD []) .empty <;>
        simp [made] at h
    | assign =>
      obtain ⟨j, hj⟩ := Option.isSome_iff_exists.mp (present .key (by decide) rfl)
      replace hj : s.key = some j := hj
      simp only [hj, Except.ok.injEq, Statement.assign.injEq] at h
      exact ⟨rfl, hj.trans (congrArg some h.1)⟩

theorem Statement.key_mem_of_ofDatum_map {l : List Member} {key : Text} {x : Value}
    (h : ofDatum (.map l) = .ok (.assign key x)) : ⟨"key".toList, .text key⟩ ∈ l := by
  obtain ⟨k, s, -, hs, h⟩ := ofDatum_map_eq_ok_iff.mp h
  obtain ⟨rfl, given⟩ := Slots.key_of_toStatement h
  exact (Slots.key_ofMembers hs given).resolve_left nofun

theorem Statement.key_of_ofDatum_list {kind d e : Datum} {l : List Datum} {key : Text} {x : Value}
    (h : ofDatum (.list (kind :: d :: e :: l)) = .ok (.assign key x)) : d = .text key := by
  obtain ⟨k, s, -, hs, h⟩ := ofDatum_list_eq_ok_iff.mp h
  obtain ⟨rfl, given⟩ := Slots.key_of_toStatement h
  obtain ⟨s', hd, hs⟩ := Slots.ofItems_cons_eq_ok_iff.mp hs
  obtain ⟨j, rfl, rfl⟩ := Slots.key_of_read hd
  obtain ⟨s', he, hs⟩ := Slots.ofItems_cons_eq_ok_iff.mp hs
  have kept : s'.key = some j := Slots.key_of_read_value he
  cases l with
  | nil =>
    cases hs
    cases kept.symm.trans given
    rfl
  | cons e l => cases hs

/-- A value is the second field. -/
theorem Kind.index_value {k : Kind} {n : Nat} (h : k.fields[n]? = some .value) : n = 1 := by
  cases k with
  | assign =>
    match n, h with
    | 1, _ => rfl
  | node | edge | attr | subgraph => exact absurd (List.mem_of_getElem? h) (by decide)

/-! ## Attributes with one value exchanged -/

theorem Attrs.ofMembers_set {key : Text} (x : Value) : ∀ {l : List Member} {a : Attrs},
    Schema.Lacks l key → Attrs.ofMembers (a.set key x) l =
      (Attrs.ofMembers a l).map (fun b => b.set key x)
  | [], a, _ => rfl
  | ⟨k, d⟩ :: l, a, h => by
    have other : key ≠ k := fun e => h ⟨k, d⟩ (List.mem_cons_self ..) e.symm
    have rest : Schema.Lacks l key := fun m hm => h m (List.mem_cons_of_mem _ hm)
    rw [Attrs.ofMembers, Attrs.ofMembers]
    cases Value.ofDatum? d with
    | none => rfl
    | some y =>
      simp only [a.set_comm other]
      exact Attrs.ofMembers_set x rest

/-- A map of attributes in which the value of a key varies that is not written again. -/
theorem Attrs.ofMembers_exchange {key : Text} {back : List Member}
    (kept : Schema.Lacks back key) {v₀ : Datum} : ∀ {front : List Member} {a a₀ : Attrs},
    Attrs.ofMembers a (front ++ ⟨key, v₀⟩ :: back) = .ok a₀ →
    ∃ others : Attrs, ∀ v, (Attrs.ofMembers a (front ++ ⟨key, v⟩ :: back)).toOption =
      (Value.ofDatum? v).map (others.set key)
  | [], a, a₀, h => by
    rw [List.nil_append, Attrs.ofMembers] at h
    split at h
    · rename_i x₀ _
      rw [Attrs.ofMembers_set x₀ kept] at h
      obtain ⟨others, hothers, -⟩ := except_map_eq_ok_iff.mp h
      refine ⟨others, fun v => ?_⟩
      rw [List.nil_append, Attrs.ofMembers]
      cases Value.ofDatum? v with
      | none => rfl
      | some x =>
        simp only [Attrs.ofMembers_set x kept, hothers]
        rfl
    · cases h
  | ⟨k, d⟩ :: front, a, a₀, h => by
    rw [List.cons_append, Attrs.ofMembers] at h
    split at h
    · rename_i y hy
      obtain ⟨others, read⟩ := Attrs.ofMembers_exchange kept h
      refine ⟨others, fun v => ?_⟩
      rw [← read v, List.cons_append, Attrs.ofMembers, hy]
    · cases h

end DotGraph
