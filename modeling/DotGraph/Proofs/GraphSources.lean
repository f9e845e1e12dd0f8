import DotGraph.Proofs.Sources

/-!
# Reading the source of a graph

If the whole of a source can be read, then a graph is read from it as its datum describes: from a
map in the order of its members, from a list in the order of the fields. Thus whether a JSON text is
read as a graph, and as which one, can be told from the datum that the text denotes.

- `Graph.ofSource_iff`: a graph is read as its datum describes.
- `Json.Denotes.unique`: a JSON text denotes at most one datum.
- `parseJson_eq_ok_iff`: when a JSON text is read as a graph, and as which.
-/

set_option autoImplicit false

namespace DotGraph

/-! ## Fields -/

theorem HeadField.eq_body_iff {f : HeadField} {key : Text}
    (h : ofGraph.find? (fun f => f.text = key) = some f) :
    f = .body ↔ key = "statements".toList := by
  have hf : f.text = key := by simpa using List.find?_some h
  constructor
  · rintro rfl
    exact hf.symm
  · rintro rfl
    have body : ofGraph.find? (fun f => f.text = "statements".toList) = some .body := by decide
    exact Option.some.inj (h.symm.trans body)

namespace Head

/-- Reads a field from its datum. -/
def readDatum (h : Head) (d : Datum) : HeadField → Except Mismatch Head
  | .strict => d.asBool.map (fun x => { h with strict := some x })
  | .directed => d.asBool.map (fun x => { h with directed := some x })
  | .name => d.asName.map (fun x => { h with name := some x })
  | .attributes => (Attrs.ofDatum d).map (fun x => { h with attributes := some x })
  | .body => d.asBody.map (fun x => { h with body := some x })

/-- Reads the members of a map as fields; unknown ones are passed over. -/
def ofMembers (fields : List HeadField) (h : Head) : List Member → Except Mismatch Head
  | [] => .ok h
  | ⟨k, d⟩ :: r => match fields.find? (fun f => f.text = k) with
    | none => ofMembers fields h r
    | some f =>
      if h.has f then .error (.duplicateField k)
      else match h.readDatum d f with
        | .error e => .error e
        | .ok h' => ofMembers fields h' r

/-- Reads the items of a list as the fields in their order, if there are not too many. -/
def ofData? (h : Head) : List HeadField → List Datum → Option Head
  | _, [] => some h
  | [], _ :: _ => none
  | f :: fs, d :: r => match h.readDatum d f with
    | .ok h' => ofData? h' fs r
    | .error _ => none

theorem ofMembers_unknown {fields : List HeadField} {key : Text}
    (hf : fields.find? (fun f => f.text = key) = none) {d : Datum} {r : List Member} {h : Head} :
    ofMembers fields h (⟨key, d⟩ :: r) = ofMembers fields h r := by
  rw [ofMembers, hf]

theorem ofMembers_field_eq_ok_iff {fields : List HeadField} {key : Text} {f : HeadField}
    (hf : fields.find? (fun f => f.text = key) = some f) {d : Datum} {r : List Member}
    {h j : Head} : ofMembers fields h (⟨key, d⟩ :: r) = .ok j ↔
      h.has f = false ∧ ∃ i, h.readDatum d f = .ok i ∧ ofMembers fields i r = .ok j := by
  rw [ofMembers]
  simp only [hf]
  cases h.has f with
  | true => simp
  | false => cases h.readDatum d f <;> simp

theorem ofData?_cons_eq_some_iff {f : HeadField} {fs : List HeadField} {d : Datum}
    {r : List Datum} {h j : Head} : ofData? h (f :: fs) (d :: r) = some j ↔
      ∃ i, h.readDatum d f = .ok i ∧ ofData? i fs r = some j := by
  rw [ofData?]
  cases h.readDatum d f <;> simp

variable (dialect : Dialect) {room : Room}

theorem read_iff {h j : Head} {s : Source} {d : Datum} (hs : s.datum room = .ok d) (f : HeadField) :
    h.read dialect room s f = .ok j ↔
      (f = .body → dialect = .json → BodyNamed d) ∧ h.readDatum d f = .ok j := by
  cases f with
  | strict | directed => simp [read, readDatum, except_map_eq_ok_iff, Source.asBool_iff hs]
  | name => simp [read, readDatum, except_map_eq_ok_iff, Source.asName_iff hs]
  | attributes => simp [read, readDatum, except_map_eq_ok_iff, Source.asAttrs_iff hs]
  | body =>
    simp [read, readDatum, except_map_eq_ok_iff, Source.asStatements_iff dialect hs, and_assoc]

theorem ofEntries_iff {j : Head} : ∀ {entries : List Entry} {l : List Member} {h : Head},
    Source.entryData room entries = .ok l →
    (ofEntries dialect room HeadField.ofGraph h entries = .ok j ↔
      (dialect = .json → ∀ d, ⟨"statements".toList, d⟩ ∈ l → BodyNamed d) ∧
        ofMembers HeadField.ofGraph h l = .ok j)
  | [], l, h, hl => by
    cases hl
    simp [ofEntries, ofMembers]
  | e :: r, l, h, hl => by
    obtain ⟨key, s, d, l, rfl, hd, hr, rfl⟩ := Source.entryData_cons_eq_ok_iff.mp hl
    rw [Member.forall_mem_cons, imp_and]
    cases hf : HeadField.ofGraph.find? (fun f => f.text = key) with
    | none =>
      have named : dialect = .json → key = "statements".toList → BodyNamed d := by
        rintro - rfl
        exact absurd hf (by decide)
      rw [ofEntries_unknown_eq_ok_iff hf, ofMembers_unknown hf, ofEntries_iff hr,
        and_iff_right named, and_iff_right (Source.skip_of_datum dialect hd)]
    | some f =>
      rw [ofEntries_field_eq_ok_iff hf, ofMembers_field_eq_ok_iff hf, ← HeadField.eq_body_iff hf,
        imp.swap (b := f = .body)]
      simp only [read_iff dialect hd, ofEntries_iff hr]
      constructor
      · rintro ⟨hh, i, ⟨named, hi⟩, others, hj⟩
        exact ⟨⟨named, others⟩, hh, i, hi, hj⟩
      · rintro ⟨⟨named, others⟩, hh, i, hi, hj⟩
        exact ⟨hh, i, ⟨named, hi⟩, others, hj⟩

theorem ofItems_iff {j : Head} : ∀ (fs : List HeadField) {items : List Source} {l : List Datum}
    {h : Head}, Source.itemData room items = .ok l →
    (ofItems dialect room h fs items = .ok j ↔
      (dialect = .json → ∀ (k : Nat), fs[k]? = some HeadField.body → ∀ d, l[k]? = some d →
        BodyNamed d) ∧ ofData? h fs l = some j)
  | fs, [], l, h, hl => by
    cases hl
    cases fs <;> simp [ofItems, ofData?]
  | [], s :: r, l, h, hl => by
    obtain ⟨d, l, hd, hl, rfl⟩ := Source.itemData_cons_eq_ok_iff.mp hl
    simp [ofItems, ofData?]
  | f :: fs, s :: r, l, h, hl => by
    obtain ⟨d, l, hd, hr, rfl⟩ := Source.itemData_cons_eq_ok_iff.mp hl
    have named : (∀ (k : Nat), (f :: fs)[k]? = some HeadField.body → ∀ e, (d :: l)[k]? = some e →
        BodyNamed e) ↔ (f = .body → BodyNamed d) ∧
        ∀ (k : Nat), fs[k]? = some HeadField.body → ∀ e, l[k]? = some e → BodyNamed e := by
      rw [← Nat.and_forall_add_one]
      simp
    rw [ofItems_cons_eq_ok_iff, ofData?_cons_eq_some_iff, named, imp_and,
      imp.swap (b := f = .body)]
    simp only [read_iff dialect hd, ofItems_iff fs hr]
    constructor
    · rintro ⟨i, ⟨named, hi⟩, others, hj⟩
      exact ⟨⟨named, others⟩, i, hi, hj⟩
    · rintro ⟨⟨named, others⟩, i, hi, hj⟩
      exact ⟨i, ⟨named, hi⟩, others, hj⟩

end Head

/-! ## Graphs -/

/-- The graph that a datum describes: a map, or a list of the fields in their order. -/
def Graph.ofDatum? : Datum → Option Graph
  | .map l => (Head.ofMembers HeadField.ofGraph {} l).toOption.map Head.toGraph
  | .list l => (Head.ofData? {} HeadField.ofGraph l).map Head.toGraph
  | .null | .bool _ | .unsigned _ | .signed _ | .float _ | .text _ => none

/-- The statements of a graph do not give their kinds by number. -/
structure Graph.BodyNamed (d : Datum) : Prop where
  map : ∀ l, d = .map l → ∀ e, ⟨"statements".toList, e⟩ ∈ l → Head.BodyNamed e
  list : ∀ l, d = .list l → ∀ e, l[4]? = some e → Head.BodyNamed e

theorem Graph.bodyNamed_map {l : List Member} :
    BodyNamed (.map l) ↔ ∀ e, ⟨"statements".toList, e⟩ ∈ l → Head.BodyNamed e := by
  refine ⟨fun h => h.map l rfl, fun h => ⟨?_, fun _ hl => by cases hl⟩⟩
  rintro _ ⟨⟩
  exact h

theorem Graph.bodyNamed_list {l : List Datum} :
    BodyNamed (.list l) ↔ ∀ (k : Nat), HeadField.ofGraph[k]? = some .body →
      ∀ e, l[k]? = some e → Head.BodyNamed e := by
  constructor
  · intro h k hk
    have last : k = 4 := by
      rcases k with _ | _ | _ | _ | _ | k
      all_goals first | rfl | simp [HeadField.ofGraph] at hk
    exact last ▸ h.list l rfl
  · refine fun h => ⟨fun _ hl => (by cases hl), ?_⟩
    rintro _ ⟨⟩
    exact h 4 rfl

/-- **A graph is read as its datum describes.** In JSON the statements of the graph itself must not
have their kinds by number. -/
theorem Graph.ofSource_iff (dialect : Dialect) {room : Room} {s : Source} {d : Datum}
    (h : s.datum room = .ok d) {g : Graph} : Graph.ofSource dialect room s = .ok g ↔
      (dialect = .json → BodyNamed d) ∧ Graph.ofDatum? d = some g := by
  rw [Graph.ofSource_eq_ok_iff]
  cases Source.shows_of_datum h with
  | null | bool | unsigned | signed | float | text => simp [Head.ofSource, ofDatum?]
  | @map p entries inner l hr hl =>
    rw [ofDatum?, bodyNamed_map, Option.map_eq_some_iff]
    simp only [Head.ofSource_map_eq_ok_iff, hr, Except.ok.injEq, exists_eq_left', and_true,
      Head.ofEntries_iff dialect hl, and_assoc, exists_and_left, toOption_eq_some_iff]
  | @list p items inner l hr hl =>
    rw [ofDatum?, bodyNamed_list, Option.map_eq_some_iff]
    simp only [Head.ofSource_list_eq_ok_iff, hr, Except.ok.injEq, exists_eq_left', and_true,
      Head.ofItems_iff dialect HeadField.ofGraph hl, and_assoc, exists_and_left]

/-! ## JSON texts -/

/-- A source comes from one datum only. -/
theorem Datum.source_injective : Function.Injective Datum.source := by
  intro d e h
  let n := max d.depth e.depth
  have hd : d.source.datum (some n) = .ok d := by
    rw [Source.datum_source, if_pos (Nat.le_max_left ..)]
  have he : e.source.datum (some n) = .ok e := by
    rw [Source.datum_source, if_pos (Nat.le_max_right ..)]
  rw [h, he] at hd
  exact (Except.ok.inj hd).symm

/-- **A JSON text denotes at most one datum.** -/
theorem Json.Denotes.unique {s : Text} {d e : Datum} (hd : Json.Denotes s d)
    (he : Json.Denotes s e) : d = e := by
  obtain ⟨t, ht, -⟩ := Json.source_of_denotes hd
  obtain ⟨u, hu, -⟩ := Json.source_of_denotes he
  exact Datum.source_injective (congrArg Prod.fst (ht.symm.trans hu))

/-- **What is read from a JSON text**: the graph that its datum describes, unless a statement of the
graph itself has its kind by number. -/
theorem parseJson_eq_ok_iff {t : Text} {d : Datum} (h : Json.Denotes t d) (hd : d.depth ≤ 127)
    {g : Graph} : parseJson t = .ok g ↔ Graph.BodyNamed d ∧ Graph.ofDatum? d = some g := by
  obtain ⟨rest, hs, hrest⟩ := Json.source_of_denotes h
  have whole : d.source.datum (some 127) = .ok d := Source.datum_source_eq_ok_iff.mpr ⟨hd, rfl⟩
  rw [parseJson_eq_ok_iff_ofSource, hs, Graph.ofSource_iff .json whole, forall_prop_of_true rfl]
  exact and_iff_left hrest

/-- The graph that the members of a map describe. -/
def Graph.ofMembers (l : List Member) : Except Mismatch Graph :=
  (Head.ofMembers HeadField.ofGraph {} l).map Head.toGraph

/-- **What is read from a JSON text that denotes a map**: the graph that its members describe. -/
theorem parseJson_of_denotes {s : Text} {l : List Member} {g : Graph} (h : Json.Denotes s (.map l))
    (hd : (Datum.map l).depth ≤ 127)
    (hk : ∀ d, ⟨"statements".toList, d⟩ ∈ l → Head.BodyNamed d) :
    parseJson s = .ok g ↔ Graph.ofMembers l = .ok g := by
  rw [parseJson_eq_ok_iff h hd, and_iff_right (Graph.bodyNamed_map.mpr hk), Graph.ofDatum?,
    Graph.ofMembers]
  cases Head.ofMembers HeadField.ofGraph {} l <;> simp [Except.toOption, Except.map]

/-- A value that is neither a list nor a map is no graph. -/
theorem parseJson_ne_ok {s : Text} {d : Datum} {g : Graph} (h : Json.Denotes s d)
    (hl : ∀ l, d ≠ .list l) (hm : ∀ l, d ≠ .map l) : parseJson s ≠ .ok g := by
  intro e
  cases d with
  | list l => exact hl l rfl
  | map l => exact hm l rfl
  | null | bool | unsigned | signed | float | text =>
    cases ((parseJson_eq_ok_iff h (Nat.zero_le _)).mp e).2

end DotGraph
