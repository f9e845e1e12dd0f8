import DotGraph.Proofs.NodeIds
import DotGraph.Proofs.Parts
import DotGraph.Proofs.Readers

/-!
# What descriptions can give

Whatever is read from a description has one flag everywhere, well-formed node ids, and a target for
every edge. Statements and endpoints are read with the flag `false`; the graph gives its own flag to
all of them at the end.

- `Statement.sound_ofDatum`, `Endpoint.sound_ofData?`: the same for what is read from data.
- `sound_of_parseJson`, `sound_of_parseToml`: the same for whole graphs, whatever the text is.
-/

set_option autoImplicit false

namespace DotGraph

/-- What holds of a part of something that was read with the flag `d`. -/
def Part.Sound (d : Bool) : Part → Prop
  | .flag e => e = d
  | .targets n => 0 < n
  | .node id => id.WellFormed
  | .name _ | .entry .. | .assign .. => True

/-- What holds of all parts of something that was read with the flag `d`. -/
def Sound (d : Bool) (l : List Part) : Prop := ∀ p ∈ l, p.Sound d

/-- Every node id among the parts is well formed. -/
def WellNamed (l : List Part) : Prop := ∀ id, Part.node id ∈ l → id.WellFormed

theorem sound_iff {d : Bool} {l : List Part} :
    Sound d l ↔ Uniform d l ∧ Targeted l ∧ WellNamed l := by
  constructor
  · intro h
    refine ⟨fun e he => h _ he, fun h0 => ?_, fun id hid => h _ hid⟩
    have := h _ h0
    simp [Part.Sound] at this
  · rintro ⟨hu, ht, hn⟩ p hp
    cases p with
    | flag e => exact hu e hp
    | targets n =>
      rcases n with _ | n
      · exact absurd hp ht
      · exact Nat.succ_pos n
    | node id => exact hn id hp
    | name | entry | assign => trivial

@[simp]
theorem sound_nil (d : Bool) : Sound d [] := by simp [Sound]

@[simp]
theorem sound_cons {d : Bool} {p : Part} {l : List Part} :
    Sound d (p :: l) ↔ p.Sound d ∧ Sound d l := by simp [Sound]

@[simp]
theorem sound_append {d : Bool} {l m : List Part} : Sound d (l ++ m) ↔ Sound d l ∧ Sound d m := by
  simp [Sound, or_imp, forall_and]

@[simp]
theorem Attrs.sound_parts (d : Bool) (l : List Attrs) : Sound d (Attrs.parts l) := by
  intro p hp
  simp only [Attrs.parts, List.mem_flatMap, List.mem_map] at hp
  obtain ⟨a, -, e, -, rfl⟩ := hp
  trivial

@[simp]
theorem Part.sound_ofName (d : Bool) (n : Option Text) : DotGraph.Sound d (Part.ofName n) := by
  cases n <;> simp [Part.ofName, Part.Sound]

theorem Sound.redirect {e : Bool} {l : List Part} (h : Sound e l) (d : Bool) :
    Sound d (l.map (Part.redirect d)) := by
  intro p hp
  obtain ⟨q, hq, rfl⟩ := List.mem_map.mp hp
  have := h q hq
  cases q <;> simp_all [Part.redirect, Part.Sound]

/-! ## Slots -/

/-- What holds of everything that has been read into slots. -/
structure Slots.Sound (s : Slots) : Prop where
  id : ∀ x, s.id = some x → x.WellFormed
  source : ∀ e, s.source = some e → DotGraph.Sound false e.parts
  targets : ∀ l, s.targets = some l → DotGraph.Sound false (Endpoint.partsAll l)
  body : ∀ b, s.body = some b → DotGraph.Sound false (Statement.partsAll b)

theorem Slots.Sound.empty : Slots.Sound {} := by
  constructor <;> intro x h <;> cases h

theorem NodeId.wellFormed_of_ofDatum {d : Datum} {id : NodeId} (h : NodeId.ofDatum d = .ok id) :
    id.WellFormed := by
  unfold NodeId.ofDatum at h
  split at h
  · cases h
  · split at h
    · rename_i hp
      cases h
      exact wellFormed_of_parse hp
    · cases h

theorem Slots.Sound.readPlain {s s' : Slots} {d : Datum} {f : StatementField} (hs : s.Sound)
    (h : s.readPlain d f = .ok s') : s'.Sound := by
  cases f with
  | id =>
    obtain ⟨x, hx, rfl⟩ := except_map_eq_ok_iff.mp h
    refine ⟨fun y hy => ?_, hs.source, hs.targets, hs.body⟩
    cases hy
    exact NodeId.wellFormed_of_ofDatum hx
  | component | key | lists | name | attributes =>
    obtain ⟨x, -, rfl⟩ := except_map_eq_ok_iff.mp h
    exact ⟨hs.id, hs.source, hs.targets, hs.body⟩
  | value =>
    simp only [Slots.readPlain] at h
    split at h
    · cases h
      exact ⟨hs.id, hs.source, hs.targets, hs.body⟩
    · cases h
  | source | targets | body =>
    cases h
    exact hs

/-- What holds of everything that can be read from a datum inside a statement. -/
structure Datum.ReadsSound (d : Datum) : Prop where
  endpoint : ∀ e, Endpoint.ofDatum? d = some e → Sound false e.parts
  endpoints : ∀ items l, d = .list items → Endpoint.ofData? items = some l →
    Sound false (Endpoint.partsAll l)
  body : ∀ items b, d = .list items → Statement.ofData items = .ok b →
    Sound false (Statement.partsAll b)

theorem Datum.ReadsSound.of_none {d : Datum} (he : Endpoint.ofDatum? d = none)
    (hl : ∀ items, d ≠ .list items) : d.ReadsSound where
  endpoint e h := by
    rw [he] at h
    cases h
  endpoints items _ h := absurd h (hl items)
  body items _ h := absurd h (hl items)

theorem Slots.Sound.read {s s' : Slots} {d : Datum} {f : StatementField} (hs : s.Sound)
    (hd : d.ReadsSound) (h : s.read d f = .ok s') : s'.Sound := by
  cases f with
  | source =>
    simp only [Slots.read, Slots.withSource] at h
    split at h
    · rename_i e he
      cases h
      refine ⟨hs.id, fun x hx => ?_, hs.targets, hs.body⟩
      cases hx
      exact hd.endpoint e he
    · cases h
  | targets =>
    simp only [Slots.read, Slots.withTargets] at h
    split at h
    · rename_i l hl
      cases h
      refine ⟨hs.id, hs.source, fun x hx => ?_, hs.body⟩
      cases hx
      split at hl
      · rename_i items
        exact hd.endpoints items l rfl hl
      · obtain ⟨e, he, rfl⟩ := Option.map_eq_some_iff.mp hl
        simpa [Endpoint.partsAll] using hd.endpoint e he
    · cases h
  | body =>
    simp only [Slots.read, Slots.withBody] at h
    split at h
    · rename_i b hb
      cases h
      refine ⟨hs.id, hs.source, hs.targets, fun x hx => ?_⟩
      cases hx
      split at hb
      · rename_i items
        exact hd.body items b rfl hb
      · cases hb
    · cases h
  | id | component | key | value | lists | name | attributes =>
    simp only [Slots.read] at h
    exact hs.readPlain h

/-- A field that may not be left out has been read once no such field is missing. -/
theorem StatementField.has_of_find? {k : Kind} {s : Slots} {f : StatementField}
    (h : k.fields.find? (fun f => f.required && !s.has f) = none) (hf : f ∈ k.fields)
    (hr : f.required = true) : s.has f = true := by
  have := List.find?_eq_none.mp h f hf
  simpa [hr] using this

theorem Slots.Sound.toSubgraph {s : Slots} (hs : s.Sound) :
    DotGraph.Sound false s.toSubgraph.parts := by
  have hb : DotGraph.Sound false (Statement.partsAll (s.body.getD [])) := by
    cases h : s.body with
    | none => exact sound_nil false
    | some b => exact hs.body b h
  simp only [Slots.toSubgraph, Subgraph.parts, withOwnAttributes, sound_cons, sound_append,
    Part.sound_ofName, Statement.partsAll_append]
  refine ⟨rfl, trivial, ?_, hb⟩
  split <;> simp [Statement.partsAll, Statement.parts]

theorem Slots.Sound.toStatement {s : Slots} {k : Kind} {a : Statement} (hs : s.Sound)
    (h : s.toStatement k = .ok a) : DotGraph.Sound false a.parts := by
  unfold Slots.toStatement at h
  split at h
  · cases h
  · rename_i hfind
    have has := fun f => StatementField.has_of_find? (f := f) hfind
    cases k with
    | node =>
      cases h
      obtain ⟨x, hx⟩ := Option.isSome_iff_exists.mp (has .id (by simp [Kind.fields]) rfl)
      simpa [Statement.parts, hx, Part.Sound] using hs.id x hx
    | edge =>
      obtain ⟨e, he⟩ := Option.isSome_iff_exists.mp (has .source (by simp [Kind.fields]) rfl)
      obtain ⟨l, hl⟩ := Option.isSome_iff_exists.mp (has .targets (by simp [Kind.fields]) rfl)
      simp only [he, hl, Option.getD_some] at h
      cases l with
      | nil => cases h
      | cons t r =>
        cases h
        have hsource := hs.source e he
        have htargets := hs.targets (t :: r) hl
        simpa [Statement.parts, Edge.parts, Part.Sound] using ⟨hsource, htargets⟩
    | attr =>
      cases h
      simp [Statement.parts]
    | subgraph =>
      cases h
      exact hs.toSubgraph
    | assign =>
      cases h
      simp [Statement.parts, Part.Sound]

mutual

theorem Datum.readsSound : ∀ d : Datum, d.ReadsSound
  | .list items => {
      endpoint := by
        intro e h
        cases h
      endpoints := by
        rintro _ l ⟨⟩ hl
        exact Endpoint.sound_ofData? items hl
      body := by
        rintro _ b ⟨⟩ hb
        exact Statement.sound_ofData items hb }
  | .map members => {
      endpoint := by
        intro e h
        rw [Endpoint.ofDatum?] at h
        exact Endpoint.sound_ofMembers? members none (by simp) h
      endpoints := by
        rintro _ l ⟨⟩
      body := by
        rintro _ b ⟨⟩ }
  | .text t => {
      endpoint := by
        intro e h
        simp only [Endpoint.ofDatum?, Endpoint.ofText?] at h
        split at h
        · rename_i id hid
          cases h
          simpa [Endpoint.parts, Part.Sound] using NodeId.wellFormed_of_parse hid
        · cases h
      endpoints := by
        rintro _ l ⟨⟩
      body := by
        rintro _ b ⟨⟩ }
  | .null => .of_none rfl (by simp)
  | .bool _ => .of_none rfl (by simp)
  | .unsigned _ => .of_none rfl (by simp)
  | .signed _ => .of_none rfl (by simp)
  | .float _ => .of_none rfl (by simp)

/-- **The slots of a subgraph that stands as an endpoint are sound.** -/
theorem Slots.sound_ofSubgraph : ∀ (d : Datum) {s : Slots}, Slots.ofSubgraph d = .ok s → s.Sound
  | .map members, _, h => Slots.sound_ofMembers members .empty h
  | .list items, _, h => Slots.sound_ofItems items .empty h
  | .null, _, h | .bool _, _, h | .unsigned _, _, h | .signed _, _, h | .float _, _, h
  | .text _, _, h => by cases h

theorem Slots.sound_ofMembers {k : Kind} : ∀ (l : List Member) {s s' : Slots}, s.Sound →
    Slots.ofMembers k s l = .ok s' → s'.Sound
  | [], s, s', hs, h => by
    cases h
    exact hs
  | ⟨key, d⟩ :: r, s, s', hs, h => by
    rw [Slots.ofMembers_cons] at h
    split at h
    · exact Slots.sound_ofMembers r hs h
    · split at h
      · cases h
      · split at h
        · rename_i hread
          exact Slots.sound_ofMembers r (hs.read (Datum.readsSound d) hread) h
        · cases h

theorem Slots.sound_ofItems {k : Kind} : ∀ (l : List Datum) {s s' : Slots}
    {fields : List StatementField} {count : Nat}, s.Sound →
    Slots.ofItems k s fields count l = .ok s' → s'.Sound
  | [], s, s', fields, count, hs, h => by
    rw [Slots.ofItems_nil] at h
    split at h
    · cases h
      exact hs
    · split at h
      · cases h
      · cases h
        exact hs
  | d :: r, s, s', [], count, hs, h => by cases h
  | d :: r, s, s', f :: fs, count, hs, h => by
    obtain ⟨_, hread, h⟩ := Slots.ofItems_cons_eq_ok_iff.mp h
    exact Slots.sound_ofItems r (hs.read (Datum.readsSound d) hread) h

/-- **A statement that data describe has the flag `false`, well-formed ids and targets.** -/
theorem Statement.sound_ofDatum : ∀ (d : Datum) {a : Statement},
    Statement.ofDatum d = .ok a → Sound false a.parts
  | .map members, a, h => by
    obtain ⟨k, s, -, hs, ha⟩ := Statement.ofDatum_map_eq_ok_iff.mp h
    exact (Slots.sound_ofMembers members .empty hs).toStatement ha
  | .list [], a, h => by cases h
  | .list (d :: items), a, h => by
    obtain ⟨k, s, -, hs, ha⟩ := Statement.ofDatum_list_eq_ok_iff.mp h
    exact (Slots.sound_ofItems items .empty hs).toStatement ha
  | .null, a, h | .bool _, a, h | .unsigned _, a, h | .signed _, a, h | .float _, a, h
  | .text _, a, h => by cases h

theorem Statement.sound_ofData : ∀ (l : List Datum) {b : List Statement},
    Statement.ofData l = .ok b → Sound false (Statement.partsAll b)
  | [], b, h => by
    cases h
    exact sound_nil false
  | d :: r, b, h => by
    obtain ⟨a, l, ha, hl, rfl⟩ := Statement.ofData_cons_eq_ok_iff.mp h
    rw [Statement.partsAll, sound_append]
    exact ⟨Statement.sound_ofDatum d ha, Statement.sound_ofData r hl⟩

theorem Endpoint.sound_ofMembers? : ∀ (l : List Member) (found : Option Subgraph) {e : Endpoint},
    (∀ s, found = some s → Sound false s.parts) → Endpoint.ofMembers? found l = some e →
    Sound false e.parts
  | [], found, e, hf, h => by
    rw [Endpoint.ofMembers?_nil] at h
    obtain ⟨s, hs, rfl⟩ := Option.map_eq_some_iff.mp h
    exact hf s hs
  | ⟨key, d⟩ :: r, found, e, hf, h => by
    rw [Endpoint.ofMembers?_cons] at h
    split at h
    · split at h
      · cases h
      · split at h
        · rename_i s hs
          refine Endpoint.sound_ofMembers? r _ ?_ h
          rintro _ ⟨⟩
          exact (Slots.sound_ofSubgraph d hs).toSubgraph
        · cases h
    · exact Endpoint.sound_ofMembers? r found hf h

theorem Endpoint.sound_ofData? : ∀ (l : List Datum) {b : List Endpoint},
    Endpoint.ofData? l = some b → Sound false (Endpoint.partsAll b)
  | [], b, h => by
    cases h
    exact sound_nil false
  | d :: r, b, h => by
    obtain ⟨e, l, he, hl, rfl⟩ := Endpoint.ofData?_cons_eq_some_iff.mp h
    rw [Endpoint.partsAll, sound_append]
    exact ⟨(Datum.readsSound d).endpoint e he, Endpoint.sound_ofData? r hl⟩

end

/-! ## Sources -/

namespace Source

theorem sound_asStatement {dialect : Dialect} {room : Room} {v : Source} {a : Statement}
    (h : v.asStatement dialect room = .ok a) : Sound false a.parts := by
  cases v with
  | broken | scalar => cases h
  | map p entries closed =>
    obtain ⟨_, k, m, s, -, -, -, hs, ha⟩ := asStatement_map_eq_ok_iff.mp h
    exact (Slots.sound_ofMembers m .empty hs).toStatement ha
  | list p items closed =>
    obtain ⟨_, _, _, k, data, s, -, -, -, -, -, hs, ha⟩ := asStatement_list_eq_ok_iff.mp h
    exact (Slots.sound_ofItems data .empty hs).toStatement ha

theorem sound_statementItems {dialect : Dialect} {room : Room} :
    ∀ (l : List Source) {b : List Statement}, statementItems dialect room l = .ok b →
      Sound false (Statement.partsAll b)
  | [], b, h => by
    cases h
    exact sound_nil false
  | v :: r, b, h => by
    obtain ⟨a, l, ha, hl, rfl⟩ := statementItems_cons_eq_ok_iff.mp h
    rw [Statement.partsAll, sound_append]
    exact ⟨sound_asStatement ha, sound_statementItems r hl⟩

theorem sound_asStatements {dialect : Dialect} {room : Room} {v : Source} {b : List Statement}
    (h : v.asStatements dialect room = .ok b) : Sound false (Statement.partsAll b) := by
  cases v with
  | broken | scalar | map => cases h
  | list p items closed =>
    obtain ⟨_, -, hb, -⟩ := asStatements_list_eq_ok_iff.mp h
    exact sound_statementItems items hb

end Source

/-! ## Graphs -/

namespace Head

/-- What holds of everything that has been read of a graph. -/
def Sound (h : Head) : Prop :=
  ∀ b, h.body = some b → DotGraph.Sound false (Statement.partsAll b)

theorem Sound.empty : Sound {} := by
  rintro _ ⟨⟩

theorem Sound.read {dialect : Dialect} {room : Room} {h h' : Head} {v : Source} {f : HeadField}
    (hs : h.Sound) (e : h.read dialect room v f = .ok h') : h'.Sound := by
  cases f with
  | strict | directed | name | attributes =>
    obtain ⟨x, -, rfl⟩ := except_map_eq_ok_iff.mp e
    exact hs
  | body =>
    obtain ⟨x, hx, rfl⟩ := except_map_eq_ok_iff.mp e
    rintro _ ⟨⟩
    exact Source.sound_asStatements hx

theorem Sound.ofEntries {dialect : Dialect} {room : Room} {fields : List HeadField} :
    ∀ (l : List Entry) {h h' : Head}, h.Sound → ofEntries dialect room fields h l = .ok h' →
      h'.Sound
  | [], h, h', hs, e => by
    cases e
    exact hs
  | ⟨none, v⟩ :: r, h, h', hs, e => by cases e
  | ⟨some key, v⟩ :: r, h, h', hs, e => by
    cases hf : fields.find? (fun f => f.text = key) with
    | none =>
      obtain ⟨-, e⟩ := (ofEntries_unknown_eq_ok_iff hf).mp e
      exact Sound.ofEntries r hs e
    | some f =>
      obtain ⟨-, i, hi, e⟩ := (ofEntries_field_eq_ok_iff hf).mp e
      exact Sound.ofEntries r (hs.read hi) e

theorem Sound.ofItems {dialect : Dialect} {room : Room} :
    ∀ (l : List Source) {fields : List HeadField} {h h' : Head}, h.Sound →
      ofItems dialect room h fields l = .ok h' → h'.Sound
  | [], fields, h, h', hs, e => by
    cases fields <;> cases e <;> exact hs
  | v :: r, [], h, h', hs, e => by cases e
  | v :: r, f :: fs, h, h', hs, e => by
    obtain ⟨i, hi, e⟩ := ofItems_cons_eq_ok_iff.mp e
    exact Sound.ofItems r (hs.read hi) e

theorem Sound.ofSource {dialect : Dialect} {room : Room} {fields : List HeadField}
    {expected : Expected} {v : Source} {h : Head}
    (e : ofSource dialect room fields expected v = .ok h) : h.Sound := by
  cases v with
  | broken | scalar => cases e
  | map p entries closed =>
    obtain ⟨_, -, hl, -⟩ := ofSource_map_eq_ok_iff.mp e
    exact Sound.ofEntries entries .empty hl
  | list p items closed =>
    obtain ⟨_, -, hl, -⟩ := ofSource_list_eq_ok_iff.mp e
    exact Sound.ofItems items .empty hl

theorem Sound.withOwnAttributes {h : Head} (hs : h.Sound) :
    DotGraph.Sound false (Statement.partsAll (withOwnAttributes h.attributes h.body)) := by
  rw [DotGraph.withOwnAttributes, Statement.partsAll_append, sound_append]
  constructor
  · split <;> simp [Statement.partsAll, Statement.parts]
  · cases hbody : h.body with
    | none => exact sound_nil false
    | some b => exact hs b hbody

theorem Sound.toGraph {h : Head} (hs : h.Sound) :
    DotGraph.Sound h.toGraph.directed h.toGraph.parts := by
  simp only [Head.toGraph, Graph.parts, sound_append, Part.sound_ofName, true_and,
    Statement.partsAll_redirect]
  exact hs.withOwnAttributes.redirect _

theorem Sound.toSubgraph {h : Head} (hs : h.Sound) : DotGraph.Sound false h.toSubgraph.parts := by
  simp only [Head.toSubgraph, Subgraph.parts, sound_cons, sound_append, Part.sound_ofName,
    true_and]
  exact ⟨rfl, hs.withOwnAttributes⟩

end Head

/-- **A graph that a source describes has one flag, well-formed ids and targets.** -/
theorem Graph.sound_ofSource {dialect : Dialect} {room : Room} {v : Source} {g : Graph}
    (h : Graph.ofSource dialect room v = .ok g) : Sound g.directed g.parts := by
  obtain ⟨j, hj, rfl⟩ := Graph.ofSource_eq_ok_iff.mp h
  exact (Head.Sound.ofSource hj).toGraph

/-- All flags of a subgraph that is read on its own are false. -/
theorem Subgraph.sound_ofSource {dialect : Dialect} {room : Room} {v : Source} {g : Subgraph}
    (h : Subgraph.ofSource dialect room v = .ok g) : Sound false g.parts := by
  unfold Subgraph.ofSource at h
  split at h
  · rename_i j hj
    cases h
    exact (Head.Sound.ofSource hj).toSubgraph
  · cases h

theorem sound_of_parseJson {text : Text} {g : Graph} (h : parseJson text = .ok g) :
    Sound g.directed g.parts :=
  Graph.sound_ofSource (parseJson_eq_ok_iff_ofSource.mp h).1

theorem sound_of_parseToml {name text : Text} {g : Graph} (h : parseToml name text = .ok g) :
    Sound g.directed g.parts := by
  obtain ⟨s, -, hs⟩ := parseToml_eq_ok_iff_ofSource.mp h
  exact Graph.sound_ofSource hs

end DotGraph
