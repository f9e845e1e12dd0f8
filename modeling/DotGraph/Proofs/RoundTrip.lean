import DotGraph.Description.Write
import DotGraph.Proofs.Soundness
import DotGraph.Proofs.Sources

/-!
# Writing and reading descriptions

A graph that is written as JSON and read again comes back exactly if all its flags agree, its node
ids are well formed, and its text does not open too many lists and maps. What is lost otherwise is
just that: flags are not written, ids are written as one text, and the reader has a limit.

- `Statement.ofDatum_toDatum`: what is read from the description of a statement.
- `parseJson_print_iff`: when a graph comes back.
-/

set_option autoImplicit false

namespace DotGraph

/-! ## Attributes -/

theorem Value.ofDatum?_toDatum (v : Value) : Value.ofDatum? v.toDatum = some v := by
  cases v <;> rfl

namespace Attrs

/-- A key beyond all others is put at the end. -/
theorem insertEntry_of_lt {k : Text} {v : Value} : ∀ {l : List (Text × Value)},
    (∀ x ∈ l, Text.cmp x.1 k = .lt) → insertEntry k v l = l ++ [(k, v)]
  | [], _ => rfl
  | (k', v') :: r, h => by
    have hk : Text.cmp k k' = .gt := Text.cmp_gt_iff.mpr (h (k', v') (List.mem_cons_self ..))
    rw [insertEntry, hk]
    simp only [insertEntry_of_lt (fun x hx => h x (List.mem_cons_of_mem _ hx)), List.cons_append]

theorem entries_setAll : ∀ (l : List (Text × Value)) (a : Attrs),
    (a.entries ++ l).Pairwise (fun x y => Text.cmp x.1 y.1 = .lt) →
    (a.setAll l).entries = a.entries ++ l
  | [], a, _ => by
    rw [List.append_nil]
    rfl
  | (k, v) :: r, a, h => by
    have hk : ∀ x ∈ a.entries, Text.cmp x.1 k = .lt :=
      fun x hx => (List.pairwise_append.mp h).2.2 x hx (k, v) (List.mem_cons_self ..)
    have he : (a.set k v).entries = a.entries ++ [(k, v)] := insertEntry_of_lt hk
    rw [← List.singleton_append, ← List.append_assoc, ← he] at h ⊢
    exact entries_setAll r (a.set k v) h

/-- Writing the entries of a list into the empty one gives the list. -/
theorem ofList_entries (a : Attrs) : ofList a.entries = a :=
  ext_entries (entries_setAll a.entries empty a.increasing)

theorem ofMembers_members : ∀ (l : List (Text × Value)) (a : Attrs),
    ofMembers a (members l) = .ok (a.setAll l)
  | [], _ => rfl
  | (k, v) :: r, a => by
    rw [members, ofMembers, Value.ofDatum?_toDatum]
    exact ofMembers_members r (a.set k v)

theorem ofDatum_toDatum (a : Attrs) : ofDatum a.toDatum = .ok a := by
  have h := ofMembers_members a.entries empty
  rw [toDatum, ofDatum, h]
  exact congrArg Except.ok (ofList_entries a)

theorem ofData?_map_toDatum : ∀ l : List Attrs, ofData? (l.map toDatum) = some l
  | [] => rfl
  | a :: r => by
    simp only [List.map_cons, ofData?, ofDatum_toDatum, ofData?_map_toDatum r]

theorem listOfDatum_listToDatum (l : List Attrs) : listOfDatum (listToDatum l) = .ok l := by
  simp only [listToDatum, listOfDatum, ofData?_map_toDatum]

end Attrs

/-! ## Statements -/

namespace Slots

/-- A member that is no field is passed over. -/
theorem ofMembers_skip {k : Kind} {s : Slots} {key : Text} {d : Datum} {r : List Member}
    (hf : k.field? key = none) : ofMembers k s (⟨key, d⟩ :: r) = ofMembers k s r := by
  rw [ofMembers_cons, hf]

/-- A field that has not been read yet is read. -/
theorem ofMembers_field {k : Kind} {s t : Slots} {key : Text} {d : Datum} {r : List Member}
    {f : StatementField} (hf : k.field? key = some f) (hs : s.has f = false)
    (hr : s.read d f = .ok t) : ofMembers k s (⟨key, d⟩ :: r) = ofMembers k t r := by
  simp only [ofMembers_cons, hf, hs, Bool.false_eq_true, if_false, hr]

end Slots

theorem NodeId.ofDatum_joined {id : NodeId} (h : id.WellFormed) :
    NodeId.ofDatum (.text id.joined) = .ok id := by
  rw [NodeId.ofDatum]
  simp only [Datum.asText, parse_joined h]

theorem Component.ofDatum_keyword (c : Component) :
    Component.ofDatum (.text c.keyword) = .ok c := by
  cases c <;> rfl

theorem Slots.read_lists (s : Slots) (l : List Attrs) :
    s.read (Attrs.listToDatum l) .lists = .ok { s with lists := some l } := by
  simp only [Slots.read, Slots.readPlain, Attrs.listOfDatum_listToDatum]
  rfl

theorem Slots.read_id {id : NodeId} (h : id.WellFormed) (s : Slots) :
    s.read (.text id.joined) .id = .ok { s with id := some id } := by
  simp only [Slots.read, Slots.readPlain, NodeId.ofDatum_joined h]
  rfl

theorem Slots.read_component (s : Slots) (c : Component) :
    s.read (.text c.keyword) .component = .ok { s with component := some c } := by
  simp only [Slots.read, Slots.readPlain, Component.ofDatum_keyword]
  rfl

theorem Slots.read_value (s : Slots) (v : Value) :
    s.read v.toDatum .value = .ok { s with value := some v } := by
  simp only [Slots.read, Slots.readPlain, Value.ofDatum?_toDatum]

theorem Slots.read_source {d : Datum} {e : Endpoint} (h : Endpoint.ofDatum? d = some e)
    (s : Slots) : s.read d .source = .ok { s with source := some e } := by
  rw [Slots.read, h]
  rfl

theorem Slots.read_targets {l : List Datum} {t : List Endpoint} (h : Endpoint.ofData? l = some t)
    (s : Slots) : s.read (.list l) .targets = .ok { s with targets := some t } := by
  rw [Slots.read, h]
  rfl

theorem Slots.read_body {l : List Datum} {b : List Statement} (h : Statement.ofData l = .ok b)
    (s : Slots) : s.read (.list l) .body = .ok { s with body := some b } := by
  rw [Slots.read, h]
  rfl

theorem Kind.ofName_name (k : Kind) : Kind.ofName k.name = .ok k := by
  cases k <;> rfl

theorem Kind.ofMembers_some (k : Kind) : ∀ {l : List Member}, (∀ m ∈ l, m.key ≠ "kind".toList) →
    Kind.ofMembers (some k) l = .ok k
  | [], _ => rfl
  | ⟨key, d⟩ :: r, h => by
    rw [Kind.ofMembers, if_neg (h _ (List.mem_cons_self ..))]
    exact Kind.ofMembers_some k (fun m hm => h m (List.mem_cons_of_mem _ hm))

/-- A statement with its kind in front is read from its other members. -/
theorem Statement.ofDatum_kind {k : Kind} {l : List Member} (hk : ∀ m ∈ l, m.key ≠ "kind".toList) :
    Statement.ofDatum (.map (⟨"kind".toList, .text k.name⟩ :: l)) =
      match Slots.ofMembers k {} l with
      | .error m => .error m
      | .ok s => s.toStatement k := by
  have hkind : Kind.ofMembers none (⟨"kind".toList, .text k.name⟩ :: l) = .ok k := by
    rw [Kind.ofMembers, if_pos rfl]
    simp only [Kind.ofDatum, Kind.ofName_name, Kind.ofMembers_some k hk]
  have hf : k.field? "kind".toList = none := by
    cases k <;> decide
  rw [Statement.ofDatum, hkind]
  cases h : Slots.ofMembers k {} l <;> simp only [Slots.ofMembers_skip hf, h]

theorem Statement.ofDatum_map {k : Kind} {l : List Member} {s : Slots} {a : Statement}
    (hk : ∀ m ∈ l, m.key ≠ "kind".toList) (hs : Slots.ofMembers k {} l = .ok s)
    (ha : s.toStatement k = .ok a) :
    Statement.ofDatum (.map (⟨"kind".toList, .text k.name⟩ :: l)) = .ok a := by
  rw [ofDatum_kind hk, hs]
  exact ha

/-- What is read of a subgraph makes the subgraph. -/
theorem Subgraph.toSubgraph_slots (s : Subgraph) :
    Slots.toSubgraph
      { name := s.name.map some, body := some (Statement.redirectAll false s.body) } =
      s.redirect false := by
  obtain ⟨n, d, b⟩ := s
  cases n <;> rfl

theorem nameMember_ne_kind (n : Option Text) : ∀ m ∈ nameMember n, m.key ≠ "kind".toList := by
  cases n <;> simp [nameMember]

theorem Slots.ofMembers_edge {f : Bool} {s s' : Endpoint} {t t' : List Endpoint} {l : List Attrs}
    (hs : Endpoint.ofDatum? s.toDatum = some s')
    (ht : Endpoint.ofData? (Endpoint.listToDatum t) = some t') :
    Slots.ofMembers .edge {} (Edge.members ⟨f, s, t, l⟩) =
      .ok { source := some s', targets := some t', lists := some l } := by
  rw [Edge.members,
    Slots.ofMembers_field (f := .source) (by decide) rfl (Slots.read_source hs _),
    Slots.ofMembers_field (f := .targets) (by decide) rfl (Slots.read_targets ht _),
    Slots.ofMembers_field (f := .lists) (by decide) rfl (Slots.read_lists _ l)]
  rfl

theorem Slots.ofMembers_subgraph {n : Option Text} {f : Bool} {b b' : List Statement}
    (hb : Statement.ofData (Statement.listToDatum b) = .ok b') :
    Slots.ofMembers .subgraph {} (Subgraph.members ⟨n, f, b⟩) =
      .ok { name := n.map some, body := some b' } := by
  have body := Slots.read_body hb
  rw [Subgraph.members]
  cases n with
  | none =>
    rw [nameMember, List.nil_append, Slots.ofMembers_field (f := .body) (by decide) rfl (body _)]
    rfl
  | some n =>
    rw [nameMember, List.singleton_append,
      Slots.ofMembers_field (f := .name) (t := { name := some (some n) }) (by decide) rfl rfl,
      Slots.ofMembers_field (f := .body) (by decide) rfl (body _)]
    rfl

theorem Subgraph.members_ne_kind (s : Subgraph) : ∀ m ∈ s.members, m.key ≠ "kind".toList := by
  obtain ⟨n, f, b⟩ := s
  intro m hm
  rw [Subgraph.members] at hm
  rcases List.mem_append.mp hm with hm | hm
  · exact nameMember_ne_kind n m hm
  · simp [List.mem_singleton.mp hm]

mutual

/-- **What is read from the description of a statement** is the statement with all its flags
false. -/
theorem Statement.ofDatum_toDatum {d : Bool} : ∀ s : Statement, Sound d s.parts →
    Statement.ofDatum s.toDatum = .ok (s.redirect false)
  | .node id l, h => by
    rw [Statement.parts, sound_cons] at h
    rw [Statement.toDatum]
    refine Statement.ofDatum_map (k := .node) (s := { id := some id, lists := some l })
      (by simp) ?_ rfl
    rw [Slots.ofMembers_field (f := .id) (by decide) rfl (Slots.read_id h.1 _),
      Slots.ofMembers_field (f := .lists) (by decide) rfl (Slots.read_lists _ l)]
    rfl
  | .edge ⟨_, s, [], l⟩, h => by
    rw [Statement.parts, Edge.parts, sound_cons, sound_cons] at h
    exact absurd h.2.1 (Nat.lt_irrefl 0)
  | .edge ⟨f, s, t :: m, l⟩, h => by
    rw [Statement.parts, Edge.parts, sound_cons, sound_cons, sound_append, sound_append] at h
    obtain ⟨-, -, ⟨hs, ht⟩, -⟩ := h
    have hslots := Slots.ofMembers_edge (f := f) (l := l) (Endpoint.ofDatum?_toDatum s hs)
      (Endpoint.ofData?_listToDatum (t :: m) ht)
    rw [Statement.toDatum]
    exact Statement.ofDatum_map (k := .edge) (by simp [Edge.members]) hslots rfl
  | .attr c l, _ => by
    rw [Statement.toDatum]
    refine Statement.ofDatum_map (k := .attr) (s := { component := some c, lists := some l })
      (by simp) ?_ rfl
    rw [Slots.ofMembers_field (f := .component) (by decide) rfl (Slots.read_component _ c),
      Slots.ofMembers_field (f := .lists) (by decide) rfl (Slots.read_lists _ l)]
    rfl
  | .subgraph s, h => by
    rw [Statement.toDatum, Statement.redirect, ← s.toSubgraph_slots]
    exact Statement.ofDatum_map (k := .subgraph) s.members_ne_kind
      (Subgraph.ofMembers_members s h) rfl
  | .assign k v, _ => by
    rw [Statement.toDatum]
    refine Statement.ofDatum_map (k := .assign) (s := { key := some k, value := some v })
      (by simp) ?_ rfl
    rw [Slots.ofMembers_field (f := .key) (t := { key := some k }) (by decide) rfl rfl,
      Slots.ofMembers_field (f := .value) (by decide) rfl (Slots.read_value _ v)]
    rfl

theorem Endpoint.ofDatum?_toDatum {d : Bool} : ∀ e : Endpoint, Sound d e.parts →
    Endpoint.ofDatum? e.toDatum = some (e.redirect false)
  | .node id, h => by
    rw [Endpoint.parts, sound_cons] at h
    rw [Endpoint.toDatum, Endpoint.ofDatum?, Endpoint.ofText?, NodeId.parse_joined h.1]
    rfl
  | .subgraph s, h => by
    have hs := Subgraph.ofMembers_members s h
    rw [Endpoint.toDatum, Endpoint.ofDatum?, Endpoint.ofMembers?_cons, if_pos rfl]
    simp only [Slots.ofSubgraph, hs, Endpoint.ofMembers?_nil, Endpoint.redirect,
      s.toSubgraph_slots]
    rfl

theorem Subgraph.ofMembers_members {d : Bool} : ∀ s : Subgraph, Sound d s.parts →
    Slots.ofMembers .subgraph {} s.members =
      .ok { name := s.name.map some, body := some (Statement.redirectAll false s.body) }
  | ⟨n, f, b⟩, h => by
    rw [Subgraph.parts, sound_cons, sound_append] at h
    exact Slots.ofMembers_subgraph (Statement.ofData_listToDatum b h.2.2)

theorem Statement.ofData_listToDatum {d : Bool} : ∀ b : List Statement,
    Sound d (Statement.partsAll b) →
    Statement.ofData (Statement.listToDatum b) = .ok (Statement.redirectAll false b)
  | [], _ => rfl
  | s :: r, h => by
    rw [Statement.partsAll, sound_append] at h
    rw [Statement.listToDatum, Statement.ofData, Statement.ofDatum_toDatum s h.1,
      Statement.ofData_listToDatum r h.2]
    rfl

theorem Endpoint.ofData?_listToDatum {d : Bool} : ∀ t : List Endpoint,
    Sound d (Endpoint.partsAll t) →
    Endpoint.ofData? (Endpoint.listToDatum t) = some (Endpoint.redirectAll false t)
  | [], _ => rfl
  | e :: r, h => by
    rw [Endpoint.partsAll, sound_append] at h
    rw [Endpoint.listToDatum, Endpoint.ofData?, Endpoint.ofDatum?_toDatum e h.1]
    simp only [Endpoint.ofData?_listToDatum r h.2]
    rfl

end

/-! ## Graphs -/

theorem Value.plain_toDatum (v : Value) : v.toDatum.Plain := by
  cases v <;> simp [Value.toDatum, Datum.Plain, Member.PlainAll]

theorem Attrs.plain_members : ∀ l : List (Text × Value), Member.PlainAll (Attrs.members l)
  | [] => trivial
  | (_, v) :: r => ⟨v.plain_toDatum, Attrs.plain_members r⟩

theorem Attrs.plain_listToDatum (l : List Attrs) : (Attrs.listToDatum l).Plain := by
  have h : ∀ l : List Attrs, Datum.PlainAll (l.map Attrs.toDatum) := by
    intro l
    induction l with
    | nil => trivial
    | cons a r ih => exact ⟨Attrs.plain_members a.entries, ih⟩
  exact h l

theorem plainAll_nameMember {n : Option Text} {l : List Member} (h : Member.PlainAll l) :
    Member.PlainAll (nameMember n ++ l) := by
  cases n with
  | none => exact h
  | some n => exact ⟨trivial, h⟩

mutual

theorem Statement.plain_toDatum : ∀ s : Statement, s.toDatum.Plain
  | .node _ l => ⟨trivial, trivial, Attrs.plain_listToDatum l, trivial⟩
  | .edge e => by
    rw [Statement.toDatum]
    exact ⟨trivial, Edge.plain_members e⟩
  | .attr _ l => ⟨trivial, trivial, Attrs.plain_listToDatum l, trivial⟩
  | .subgraph s => by
    rw [Statement.toDatum]
    exact ⟨trivial, Subgraph.plain_members s⟩
  | .assign _ v => ⟨trivial, trivial, v.plain_toDatum, trivial⟩

theorem Endpoint.plain_toDatum : ∀ e : Endpoint, e.toDatum.Plain
  | .node _ => trivial
  | .subgraph s => by
    rw [Endpoint.toDatum]
    exact ⟨Subgraph.plain_members s, trivial⟩

theorem Edge.plain_members : ∀ e : Edge, Member.PlainAll e.members
  | ⟨_, s, t, l⟩ => by
    rw [Edge.members]
    exact ⟨Endpoint.plain_toDatum s, Endpoint.plain_listToDatum t, Attrs.plain_listToDatum l,
      trivial⟩

theorem Subgraph.plain_members : ∀ s : Subgraph, Member.PlainAll s.members
  | ⟨_, _, b⟩ => by
    rw [Subgraph.members]
    exact plainAll_nameMember ⟨Statement.plain_listToDatum b, trivial⟩

theorem Statement.plain_listToDatum :
    ∀ b : List Statement, Datum.PlainAll (Statement.listToDatum b)
  | [] => trivial
  | s :: r => by
    rw [Statement.listToDatum]
    exact ⟨Statement.plain_toDatum s, Statement.plain_listToDatum r⟩

theorem Endpoint.plain_listToDatum :
    ∀ t : List Endpoint, Datum.PlainAll (Endpoint.listToDatum t)
  | [] => trivial
  | e :: r => by
    rw [Endpoint.listToDatum]
    exact ⟨Endpoint.plain_toDatum e, Endpoint.plain_listToDatum r⟩

end

theorem Graph.plain_toDatum (g : Graph) : g.toDatum.Plain :=
  ⟨trivial, trivial, plainAll_nameMember ⟨Statement.plain_listToDatum g.body, trivial⟩⟩

/-- A field that has not been read yet is read. -/
theorem Head.ofEntries_field {dialect : Dialect} {room : Room} {fields : List HeadField}
    {h j : Head} {k : Text} {v : Source} {r : List Entry} {f : HeadField}
    (hf : fields.find? (fun f => f.text = k) = some f) (hh : h.has f = false)
    (hr : h.read dialect room v f = .ok j) :
    ofEntries dialect room fields h (⟨some k, v⟩ :: r) = ofEntries dialect room fields j r := by
  simp only [ofEntries, hf, hh, Bool.false_eq_true, if_false, hr]

/-- The statements are read at the end. -/
theorem Head.ofEntries_statements {room : Room} {h : Head} {v : Source} (hb : h.body = none) :
    ofEntries .json room HeadField.ofGraph h [⟨some "statements".toList, v⟩] =
      (v.asStatements .json room).map (fun b => { h with body := some b }) := by
  have hf : HeadField.ofGraph.find? (fun f => f.text = "statements".toList) = some .body := by
    decide
  have hh : h.has .body = false := by simp [has, hb]
  simp only [ofEntries, hf, hh, Bool.false_eq_true, if_false, read]
  cases v.asStatements .json room <;> rfl

/-- The fields of a graph are read from its description one by one. -/
theorem Head.ofEntries_toDatum (g : Graph) (room : Room) :
    Head.ofEntries .json room HeadField.ofGraph {} (Member.entries
      ([⟨"strict".toList, .bool g.strict⟩, ⟨"directed".toList, .bool g.directed⟩] ++
        nameMember g.name ++ [⟨"statements".toList, .list (Statement.listToDatum g.body)⟩])) =
      ((Datum.list (Statement.listToDatum g.body)).source.asStatements .json room).map
        (fun b => ⟨some g.strict, some g.directed, g.name.map some, none, some b⟩) := by
  obtain ⟨s, d, n, b⟩ := g
  simp only [List.cons_append, List.nil_append, Member.entries]
  rw [Head.ofEntries_field (f := .strict) (j := { strict := some s }) (by decide) rfl rfl,
    Head.ofEntries_field (f := .directed) (j := { strict := some s, directed := some d })
      (by decide) rfl rfl]
  cases n with
  | none => exact Head.ofEntries_statements rfl
  | some n =>
    rw [nameMember, List.singleton_append, Member.entries,
      Head.ofEntries_field (f := .name)
        (j := { strict := some s, directed := some d, name := some (some n) })
        (by decide) rfl rfl]
    exact Head.ofEntries_statements rfl

theorem Graph.depth_toDatum (g : Graph) :
    g.toDatum.depth = (Datum.list (Statement.listToDatum g.body)).depth + 1 := by
  obtain ⟨s, d, n, b⟩ := g
  cases n <;> simp [Graph.toDatum, Datum.depth, nameMember, Member.depthAll]

/-- What is read from the description of a graph: its statements, if they can be read, with the flag
of the graph. -/
theorem Graph.ofSource_toDatum {g h : Graph} {n : Nat} :
    Graph.ofSource .json (some n) g.toDatum.source = .ok h ↔ g.toDatum.depth ≤ n ∧
      ∃ b, Statement.ofData (Statement.listToDatum g.body) = .ok b ∧
        h = ⟨g.strict, g.directed, g.name, Statement.redirectAll g.directed b⟩ := by
  have named : ∀ d ∈ Statement.listToDatum g.body, Source.KindNamed d :=
    fun d hd => ((Statement.plain_listToDatum g.body).of_mem d hd).kindNamed
  rw [Graph.depth_toDatum, Graph.ofSource, Graph.toDatum, Datum.source, Head.ofSource]
  cases n with
  | zero => simp [Room.enter]
  | succ n =>
    have body := fun b => Source.asStatements_source (n := n) (b := b) named
    simp only [Room.enter, Head.ofEntries_toDatum, if_true, Nat.succ_le_succ_iff]
    constructor
    · intro e
      cases hx : (Datum.list (Statement.listToDatum g.body)).source.asStatements .json (some n) with
      | error p =>
        rw [hx] at e
        cases e
      | ok b =>
        rw [hx] at e
        cases e
        obtain ⟨hd, hb⟩ := (body b).mp hx
        refine ⟨hd, b, hb, ?_⟩
        cases g.name <;> rfl
    · rintro ⟨hd, b, hb, rfl⟩
      rw [(body b).mpr ⟨hd, hb⟩]
      cases g.name <;> rfl

/-- What is read from the text of a graph. -/
theorem parseJson_print {g h : Graph} :
    parseJson (Json.print g.toDatum) = .ok h ↔ Json.nesting (Json.print g.toDatum) ≤ 127 ∧
      ∃ b, Statement.ofData (Statement.listToDatum g.body) = .ok b ∧
        h = ⟨g.strict, g.directed, g.name, Statement.redirectAll g.directed b⟩ := by
  rw [Json.nesting_print g.plain_toDatum, ← Graph.ofSource_toDatum, parseJson_eq_ok_iff_ofSource,
    Json.source_print g.plain_toDatum]
  exact and_iff_left rfl

/-- **When a graph comes back from its JSON text.** A graph whose edges all have targets is read
back as it is exactly if all its flags agree, its node ids are well formed, and its text has no more
than 127 lists and maps open at a time. And whatever graph is read, be it from JSON or from TOML,
satisfies the first two of these. -/
theorem parseJson_print_iff {g : Graph} (ht : Targeted g.parts) :
    (parseJson (Json.print g.toDatum) = .ok g ↔
      Uniform g.directed g.parts ∧ WellNamed g.parts ∧
        Json.nesting (Json.print g.toDatum) ≤ 127) ∧
    (∀ text h, parseJson text = .ok h → Uniform h.directed h.parts ∧ WellNamed h.parts) ∧
    (∀ name text h, parseToml name text = .ok h →
      Uniform h.directed h.parts ∧ WellNamed h.parts) := by
  have sound : ∀ {h : Graph}, Sound h.directed h.parts →
      Uniform h.directed h.parts ∧ WellNamed h.parts :=
    fun hs => ⟨(sound_iff.mp hs).1, (sound_iff.mp hs).2.2⟩
  refine ⟨⟨fun e => ?_, ?_⟩, fun text h e => sound (sound_of_parseJson e),
    fun name text h e => sound (sound_of_parseToml e)⟩
  · obtain ⟨hu, hn⟩ := sound (sound_of_parseJson e)
    exact ⟨hu, hn, (parseJson_print.mp e).1⟩
  · rintro ⟨hu, hn, hd⟩
    have hs : Sound g.directed g.parts := sound_iff.mpr ⟨hu, ht, hn⟩
    rw [Graph.parts, sound_append] at hs
    refine parseJson_print.mpr ⟨hd, _, Statement.ofData_listToDatum g.body hs.2, ?_⟩
    rw [Graph.parts, uniform_append] at hu
    rw [Statement.redirectAll_redirectAll, Statement.redirectAll_eq_self g.body hu.2]

/-- A digraph with a port inside a subgraph comes back; with a colon in a name it does not. -/
theorem parseJson_print_colon :
    let edge : NodeId → Edge := fun id =>
      ⟨true, .node id, [.subgraph ⟨some "s".toList, true, [.node id []]⟩], [.empty]⟩
    let g : NodeId → Graph := fun id => ⟨true, true, none, [.edge (edge id)]⟩
    parseJson (Json.print (g ⟨"a".toList, some ":p:n".toList⟩).toDatum) =
        .ok (g ⟨"a".toList, some ":p:n".toList⟩) ∧
      parseJson (Json.print (g ⟨"a:p".toList, none⟩).toDatum) ≠ .ok (g ⟨"a:p".toList, none⟩) := by
  intro edge g
  have parts : ∀ id, (g id).parts = [.flag true, .targets 1, .node id, .flag true,
      .name "s".toList, .node id] := fun id => rfl
  have targeted : ∀ id, Targeted (g id).parts := by
    intro id
    simp [parts, Targeted]
  constructor
  · refine (parseJson_print_iff (targeted _)).1.mpr ⟨?_, ?_, ?_⟩
    · rw [parts]
      simp [Uniform, g]
    · rw [parts]
      have wellFormed : NodeId.WellFormed ⟨"a".toList, some ":p:n".toList⟩ :=
        NodeId.wellFormed_of_parse (s := "a:p:n".toList) rfl
      simpa [WellNamed] using wellFormed
    · rw [Json.nesting_print (Graph.plain_toDatum _)]
      decide
  · intro e
    have named := ((parseJson_print_iff (targeted _)).1.mp e).2.1
    have := (named ⟨"a:p".toList, none⟩ (by simp [parts])).name.2
    revert this
    decide

end DotGraph
