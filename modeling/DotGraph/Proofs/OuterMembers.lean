import DotGraph.Proofs.Formats

/-!
# Members that are no fields

Members of a graph under other keys than those of its fields are passed over: they need not even be
readable. So a description is what is left without them, and every text that is read as a graph
describes some datum in this sense.

- `Source.fieldsOnly`: a source without what is passed over.
- `Json.Describes`: the datum that a JSON text describes.
- `Json.Describes.parseJson_iff`: what is read from a text that describes a datum.
- `exists_describes`: every text that is read as a graph describes a datum.
- `Dialect.Describes`: the same for both formats.
-/

set_option autoImplicit false

namespace DotGraph

/-- A key of one of the fields of graphs. -/
def HeadField.isKey (key : Text) : Bool := (ofGraph.find? (fun f => f.text = key)).isSome

/-- An entry that is not passed over in a graph. -/
def Entry.isRead (e : Entry) : Bool :=
  match e.key with
  | some k => HeadField.isKey k
  | none => true

/-- A source without the outermost entries that are passed over in a graph. -/
def Source.fieldsOnly : Source → Source
  | map p entries closed => map p (entries.filter Entry.isRead) closed
  | s => s

/-- A member that is not passed over in a graph. -/
def Member.isRead (m : Member) : Bool := HeadField.isKey m.key

/-- A datum without the outermost members that are passed over in a graph. -/
def Datum.fieldsOnly : Datum → Datum
  | .map l => .map (l.filter Member.isRead)
  | d => d

/-- A JSON text describes a datum: the text is JSON, and the datum is what it denotes, within the
limit of nesting, without the outermost members that are no fields of graphs. -/
structure Json.Describes (t : Text) (d : Datum) : Prop where
  skip : (Json.source t).1.skip .json = .ok ()
  rest : Json.skipBlanks (Json.source t).2 = []
  datum : (Json.source t).1.fieldsOnly.datum (some 127) = .ok d

variable {dialect : Dialect} {room : Room}

/-! ## Passing over -/

namespace Source

theorem skipEntries_eq_ok_iff : ∀ {entries : List Entry},
    skipEntries dialect entries = .ok () ↔ ∀ e ∈ entries, e.value.skip dialect = .ok ()
  | [] => by simp [skipEntries]
  | ⟨key, s⟩ :: r => by
    have rest : skipEntries dialect r = .ok () ↔ ∀ e ∈ r, e.value.skip dialect = .ok () :=
      skipEntries_eq_ok_iff
    rw [skipEntries, List.forall_mem_cons, ← rest]
    cases s.skip dialect <;> simp

theorem skip_map_eq_ok_iff {p : Option Span} {entries : List Entry} {closed : Bool} :
    (map p entries closed).skip dialect = .ok () ↔
      (∀ e ∈ entries, e.value.skip dialect = .ok ()) ∧ closed = true := by
  rw [skip, ← skipEntries_eq_ok_iff]
  cases skipEntries dialect entries <;> cases closed <;> simp

/-- What is read as attributes can be read as a whole. -/
theorem datum_of_asAttrs {s : Source} {a : Attrs} (h : s.asAttrs room = .ok a) :
    ∃ d, s.datum room = .ok d := by
  have whole : ∀ {inner : Room} {entries : List Entry} {a b : Attrs},
      attrEntries inner a entries = .ok b → ∃ l, entryData inner entries = .ok l := by
    intro inner entries
    induction entries with
    | nil => exact fun _ => ⟨[], rfl⟩
    | cons e r ih =>
      intro a b h
      obtain ⟨_ | k, s⟩ := e
      · cases h
      · rw [attrEntries] at h
        split at h
        · cases h
        · rename_i v hv
          obtain ⟨l, hl⟩ := ih h
          rw [asValue] at hv
          split at hv
          · cases hv
          · rename_i d hd
            exact ⟨_, entryData_cons_eq_ok_iff.mpr ⟨k, s, d, l, rfl, hd, hl, rfl⟩⟩
  cases s with
  | broken | scalar | list => cases h
  | map p entries closed =>
    rw [asAttrs] at h
    split at h
    · cases h
    · rename_i inner hr
      split at h
      · cases h
      · rename_i a ha
        obtain ⟨l, hl⟩ := whole ha
        cases closed with
        | false => cases h
        | true => exact ⟨_, datum_map_eq_ok_iff.mpr ⟨inner, l, hr, hl, rfl, rfl⟩⟩

end Source

namespace Head

/-- What is read as a field can be read as a whole. -/
theorem datum_of_read {h i : Head} {s : Source} {f : HeadField}
    (hi : h.read dialect room s f = .ok i) : ∃ d, s.datum room = .ok d := by
  cases f with
  | strict | directed =>
    obtain ⟨b, hb, -⟩ := except_map_eq_ok_iff.mp hi
    unfold Source.asBool at hb
    split at hb
    · exact ⟨_, rfl⟩
    · cases hb
  | name =>
    obtain ⟨n, hn, -⟩ := except_map_eq_ok_iff.mp hi
    unfold Source.asName at hn
    split at hn
    · exact ⟨_, rfl⟩
    · exact ⟨_, rfl⟩
    · cases hn
  | attributes =>
    obtain ⟨a, ha, -⟩ := except_map_eq_ok_iff.mp hi
    exact Source.datum_of_asAttrs ha
  | body =>
    obtain ⟨b, hb, -⟩ := except_map_eq_ok_iff.mp hi
    exact Source.datum_of_asStatements dialect hb

/-- Entries that can be passed over and are no fields make no difference. -/
theorem ofEntries_filter {j : Head} : ∀ {entries : List Entry} {h : Head},
    (∀ e ∈ entries, e.value.skip dialect = .ok ()) →
    (ofEntries dialect room HeadField.ofGraph h entries = .ok j ↔
      ofEntries dialect room HeadField.ofGraph h (entries.filter Entry.isRead) = .ok j)
  | [], h, _ => Iff.rfl
  | ⟨none, s⟩ :: r, h, _ => by
    have read : Entry.isRead ⟨none, s⟩ = true := rfl
    rw [List.filter_cons_of_pos read, ofEntries, ofEntries]
  | ⟨some key, s⟩ :: r, h, hskip => by
    obtain ⟨hs, hr⟩ := List.forall_mem_cons.mp hskip
    cases hf : HeadField.ofGraph.find? (fun f => f.text = key) with
    | none =>
      have passed : ¬ Entry.isRead ⟨some key, s⟩ = true := by
        simp [Entry.isRead, HeadField.isKey, hf]
      rw [List.filter_cons_of_neg passed, ofEntries_unknown_eq_ok_iff hf, ofEntries_filter hr]
      exact and_iff_right hs
    | some f =>
      have read : Entry.isRead ⟨some key, s⟩ = true := by
        simp [Entry.isRead, HeadField.isKey, hf]
      rw [List.filter_cons_of_pos read, ofEntries_field_eq_ok_iff hf, ofEntries_field_eq_ok_iff hf]
      simp only [ofEntries_filter hr]

/-- Of entries that are read the fields can be read as a whole, and all can be passed over. -/
theorem whole_of_ofEntries {j : Head} : ∀ {entries : List Entry} {h : Head},
    ofEntries dialect room HeadField.ofGraph h entries = .ok j →
    (∀ e ∈ entries, e.value.skip dialect = .ok ()) ∧
      ∃ l, Source.entryData room (entries.filter Entry.isRead) = .ok l
  | [], _, _ => ⟨nofun, [], rfl⟩
  | ⟨none, _⟩ :: _, _, hj => by cases hj
  | ⟨some key, s⟩ :: r, h, hj => by
    cases hf : HeadField.ofGraph.find? (fun f => f.text = key) with
    | none =>
      obtain ⟨hs, hj⟩ := (ofEntries_unknown_eq_ok_iff hf).mp hj
      obtain ⟨hr, l, hl⟩ := whole_of_ofEntries hj
      have passed : ¬ Entry.isRead ⟨some key, s⟩ = true := by
        simp [Entry.isRead, HeadField.isKey, hf]
      rw [List.filter_cons_of_neg passed]
      exact ⟨List.forall_mem_cons.mpr ⟨hs, hr⟩, l, hl⟩
    | some f =>
      obtain ⟨-, i, hi, hj⟩ := (ofEntries_field_eq_ok_iff hf).mp hj
      obtain ⟨hr, l, hl⟩ := whole_of_ofEntries hj
      obtain ⟨d, hd⟩ := datum_of_read hi
      have read : Entry.isRead ⟨some key, s⟩ = true := by
        simp [Entry.isRead, HeadField.isKey, hf]
      rw [List.filter_cons_of_pos read]
      refine ⟨List.forall_mem_cons.mpr ⟨Source.skip_of_datum dialect hd, hr⟩, ⟨key, d⟩ :: l, ?_⟩
      exact Source.entryData_cons_eq_ok_iff.mpr ⟨key, s, d, l, rfl, hd, hl, rfl⟩

theorem itemData_of_ofItems {j : Head} : ∀ {fs : List HeadField} {items : List Source} {h : Head},
    ofItems dialect room h fs items = .ok j → ∃ l, Source.itemData room items = .ok l
  | _, [], _, _ => ⟨[], rfl⟩
  | [], _ :: _, _, hj => by cases hj
  | f :: fs, s :: r, h, hj => by
    obtain ⟨i, hi, hj⟩ := ofItems_cons_eq_ok_iff.mp hj
    obtain ⟨d, hd⟩ := datum_of_read hi
    obtain ⟨l, hl⟩ := itemData_of_ofItems hj
    exact ⟨_, Source.itemData_cons_eq_ok_iff.mpr ⟨d, l, hd, hl, rfl⟩⟩

end Head

namespace Graph

/-- A graph is read from its fields. -/
theorem ofSource_fieldsOnly {s : Source} (hs : s.skip dialect = .ok ()) {g : Graph} :
    ofSource dialect room s = .ok g ↔ ofSource dialect room s.fieldsOnly = .ok g := by
  cases s with
  | broken | scalar | list => exact Iff.rfl
  | map p entries closed =>
    have skipped := (Source.skip_map_eq_ok_iff.mp hs).1
    rw [Source.fieldsOnly, ofSource_eq_ok_iff, ofSource_eq_ok_iff]
    simp only [Head.ofSource_map_eq_ok_iff, Head.ofEntries_filter skipped]

/-- Of what is read as a graph the fields can be read as a whole. -/
theorem whole_of_ofSource {s : Source} {g : Graph} (h : ofSource dialect room s = .ok g) :
    s.skip dialect = .ok () ∧ ∃ d, s.fieldsOnly.datum room = .ok d := by
  obtain ⟨head, hh, -⟩ := ofSource_eq_ok_iff.mp h
  cases s with
  | broken | scalar => cases hh
  | map p entries closed =>
    obtain ⟨inner, hr, hj, rfl⟩ := Head.ofSource_map_eq_ok_iff.mp hh
    obtain ⟨skipped, l, hl⟩ := Head.whole_of_ofEntries hj
    exact ⟨Source.skip_map_eq_ok_iff.mpr ⟨skipped, rfl⟩, _,
      Source.datum_map_eq_ok_iff.mpr ⟨inner, l, hr, hl, rfl, rfl⟩⟩
  | list p items closed =>
    obtain ⟨inner, hr, hj, rfl⟩ := Head.ofSource_list_eq_ok_iff.mp hh
    obtain ⟨l, hl⟩ := Head.itemData_of_ofItems hj
    have whole : (Source.list p items true).datum room = .ok (.list l) :=
      Source.datum_list_eq_ok_iff.mpr ⟨inner, l, hr, hl, rfl, rfl⟩
    exact ⟨Source.skip_of_datum dialect whole, _, whole⟩

end Graph

/-! ## Texts -/

/-- **What is read from a text is told by the datum it describes.** -/
theorem Json.Describes.parseJson_iff {t : Text} {d : Datum} (h : Json.Describes t d) {g : Graph} :
    parseJson t = .ok g ↔ Graph.BodyNamed d ∧ Graph.ofDatum? d = some g := by
  rw [parseJson_eq_ok_iff_ofSource, Graph.ofSource_fieldsOnly h.skip,
    Graph.ofSource_iff .json h.datum, forall_prop_of_true rfl]
  exact and_iff_left h.rest

/-- **Every text that is read as a graph describes a datum.** -/
theorem exists_describes {t : Text} {g : Graph} (h : parseJson t = .ok g) :
    ∃ d, Json.Describes t d := by
  obtain ⟨hg, hrest⟩ := parseJson_eq_ok_iff_ofSource.mp h
  obtain ⟨hskip, d, hd⟩ := Graph.whole_of_ofSource hg
  exact ⟨d, hskip, hrest, hd⟩

theorem Source.entryData_filter : ∀ {entries : List Entry} {l : List Member},
    entryData room entries = .ok l →
      entryData room (entries.filter Entry.isRead) = .ok (l.filter Member.isRead)
  | [], _, h => by
    cases h
    rfl
  | e :: r, _, h => by
    obtain ⟨key, s, d, l, rfl, hd, hl, rfl⟩ := entryData_cons_eq_ok_iff.mp h
    have rest := entryData_filter hl
    cases hk : HeadField.isKey key with
    | true =>
      have entry : Entry.isRead ⟨some key, s⟩ = true := hk
      have member : Member.isRead ⟨key, d⟩ = true := hk
      rw [List.filter_cons_of_pos entry, List.filter_cons_of_pos member]
      exact entryData_cons_eq_ok_iff.mpr ⟨key, s, d, _, rfl, hd, rest, rfl⟩
    | false =>
      have entry : ¬ Entry.isRead ⟨some key, s⟩ = true := Bool.eq_false_iff.mp hk
      have member : ¬ Member.isRead ⟨key, d⟩ = true := Bool.eq_false_iff.mp hk
      rw [List.filter_cons_of_neg entry, List.filter_cons_of_neg member]
      exact rest

theorem Source.datum_fieldsOnly {s : Source} {d : Datum} (h : s.datum room = .ok d) :
    s.fieldsOnly.datum room = .ok d.fieldsOnly := by
  cases shows_of_datum h with
  | map hr hl => exact datum_map_eq_ok_iff.mpr ⟨_, _, hr, entryData_filter hl, rfl, rfl⟩
  | null | bool | unsigned | signed | float | text | list => exact h

/-- A text that denotes a datum describes what is left of it without the members that are no
fields. -/
theorem Json.Denotes.describes {t : Text} {d : Datum} (h : Json.Denotes t d) (hd : d.depth ≤ 127) :
    Json.Describes t d.fieldsOnly := by
  obtain ⟨rest, hs, hrest⟩ := Json.source_of_denotes h
  have whole : d.source.datum (some 127) = .ok d := Source.datum_source_eq_ok_iff.mpr ⟨hd, rfl⟩
  refine ⟨?_, ?_, ?_⟩
  · rw [hs]
    exact Source.skip_of_datum .json whole
  · rw [hs]
    exact hrest
  · rw [hs]
    exact Source.datum_fieldsOnly whole

/-! ## Descriptions in either format -/

namespace Dialect

/-- A text describes a datum: the datum is what the text denotes, without the outermost members that
are no fields of graphs. -/
def Describes : Dialect → Text → Datum → Prop
  | json, t, d => Json.Describes t d
  | toml, t, d => ∃ s, Toml.source? t = some s ∧ s.skip .toml = .ok () ∧
      s.fieldsOnly.datum none = .ok d

variable {D : Dialect} {t : Text} {d : Datum}

/-- What is read from a text is told by the datum that it describes. -/
theorem Describes.parse_iff (h : D.Describes t d) {name : Text} {g : Graph} :
    D.parse name t = .ok g ↔ (D = json → Graph.BodyNamed d) ∧ Graph.ofDatum? d = some g := by
  cases D with
  | json => simpa [parse] using Json.Describes.parseJson_iff h
  | toml =>
    obtain ⟨s, hs, skip, datum⟩ := h
    rw [parse, parseToml_eq_ok_iff_ofSource, hs, ← Graph.ofSource_iff .toml datum,
      ← Graph.ofSource_fieldsOnly skip]
    simp

/-- Every text that is read as a graph describes a datum. -/
theorem exists_describes {name : Text} {g : Graph} (h : D.parse name t = .ok g) :
    ∃ d, D.Describes t d := by
  cases D with
  | json => exact DotGraph.exists_describes h
  | toml =>
    obtain ⟨s, hs, hg⟩ := parseToml_eq_ok_iff_ofSource.mp h
    obtain ⟨skip, d, hd⟩ := Graph.whole_of_ofSource hg
    exact ⟨d, s, hs, skip, hd⟩

/-- A text describes what is left of the datum that it writes. -/
theorem Denotes.describes (h : D.Denotes t d) : D.Describes t d.fieldsOnly := by
  cases D with
  | json => exact Json.Denotes.describes h.1 h.2
  | toml =>
    obtain ⟨s, hs, datum⟩ := h
    exact ⟨s, hs, Source.skip_of_datum .toml datum, Source.datum_fieldsOnly datum⟩

end Dialect

end DotGraph
