import DotGraph.Description.Schema
import DotGraph.Proofs.Fields
import DotGraph.Proofs.RoundTrip

/-!
# When data can be read

A value, a list of them or a map can be read exactly if it has the form that the schema names, as
long as no map repeats a key. What a statement holds is left open here: its fields are those that
can be read by themselves.

- `Attrs.ofDatum_ok_iff`, `Value.ofDatum?_isSome_iff` and so on: when single values can be read.
- `Statement.ofDatum_ok_iff`: when a map is read as a statement.
- `Endpoint.ofMembers?_isSome_iff`: when a map is read as an endpoint.
-/

set_option autoImplicit false

namespace DotGraph

/-! ## Maps that repeat no key -/

theorem Datum.DistinctAll.of_mem : ∀ {l : List Datum}, Datum.DistinctAll l → ∀ d ∈ l, d.Distinct
  | e :: r, h, d, hd => by
    rw [Datum.DistinctAll] at h
    rcases List.mem_cons.mp hd with rfl | hd
    · exact h.1
    · exact of_mem h.2 d hd

theorem Member.DistinctAll.of_mem : ∀ {l : List Member}, Member.DistinctAll l →
    ∀ m ∈ l, m.value.Distinct
  | ⟨k, e⟩ :: r, h, m, hm => by
    rw [Member.DistinctAll] at h
    rcases List.mem_cons.mp hm with rfl | hm
    · exact h.1
    · exact of_mem h.2 m hm

/-- A key has one value. -/
theorem Member.value_unique {l : List Member} (hl : (l.map Member.key).Nodup) {k : Text}
    {v w : Datum} (hv : ⟨k, v⟩ ∈ l) (hw : ⟨k, w⟩ ∈ l) : v = w :=
  congrArg Member.value (List.inj_on_of_nodup_map hl hv hw rfl)

theorem Schema.required_iff {l : List Member} (hl : (l.map Member.key).Nodup) {k : Text}
    {form : Datum → Prop} : Schema.Required l k form ↔
      (∃ v, ⟨k, v⟩ ∈ l) ∧ Schema.Optional l k form := by
  constructor
  · rintro ⟨v, hv, hf⟩
    exact ⟨⟨v, hv⟩, fun w hw => Member.value_unique hl hv hw ▸ hf⟩
  · rintro ⟨⟨v, hv⟩, ho⟩
    exact ⟨v, hv, ho v hv⟩

/-! ## Statements -/

theorem Kind.ofName_eq_ok_iff {t : Text} {k : Kind} : Kind.ofName t = .ok k ↔ t = k.name := by
  constructor
  · intro h
    unfold Kind.ofName at h
    split at h
    · rename_i j hj
      cases h
      have hn := List.find?_some hj
      rw [decide_eq_true_eq] at hn
      exact hn.symm
    · cases h
  · rintro rfl
    exact Kind.ofName_name k

theorem Kind.name_injective : Function.Injective Kind.name := by
  intro j k e
  cases (Kind.ofName_eq_ok_iff.mpr e).symm.trans (Kind.ofName_name j)
  rfl

/-- The kind among members whose kinds are texts. -/
theorem Kind.ofMembers_eq_ok_iff {k : Kind} : ∀ {l : List Member}, (l.map Member.key).Nodup →
    (∀ v, ⟨"kind".toList, v⟩ ∈ l → v.IsText) →
    (Kind.ofMembers none l = .ok k ↔ Schema.OfKind l k)
  | [], _, _ => by simp [Kind.ofMembers, Schema.OfKind]
  | ⟨key, d⟩ :: r, hl, hk => by
    rw [List.map_cons, List.nodup_cons] at hl
    have rest := Kind.ofMembers_eq_ok_iff (k := k) hl.2
      (fun v hv => hk v (List.mem_cons_of_mem _ hv))
    unfold Schema.OfKind at rest ⊢
    rw [Kind.ofMembers, List.mem_cons, Member.mk.injEq, ← rest]
    by_cases hkey : key = "kind".toList
    · subst hkey
      obtain ⟨t, rfl⟩ := hk d (List.mem_cons_self ..)
      have fresh : ∀ m ∈ r, m.key ≠ "kind".toList :=
        fun m hm e => hl.1 (List.mem_map.mpr ⟨m, hm, e⟩)
      have unknown : Kind.ofMembers none r ≠ .ok k :=
        fun e => fresh _ (rest.mp e) rfl
      rw [if_pos rfl, Kind.ofDatum]
      cases hj : Kind.ofName t with
      | error m =>
        have other : t ≠ k.name := by
          intro e
          cases hj.symm.trans (Kind.ofName_eq_ok_iff.mpr e)
        simp [unknown, Ne.symm other]
      | ok j =>
        obtain rfl := Kind.ofName_eq_ok_iff.mp hj
        have same : k.name = j.name ↔ j = k :=
          ⟨fun e => Kind.name_injective e.symm, fun e => congrArg Kind.name e.symm⟩
        simp only [Kind.ofMembers_some j fresh, unknown, Except.ok.injEq, Datum.text.injEq,
          true_and, or_false, same]
    · rw [if_neg hkey]
      simp only [Ne.symm hkey, false_and, false_or]

/-- **When a map is read as a statement**: its kind is known, its fields can be read, those that may
not be left out are there, and an edge has targets. -/
theorem Statement.ofDatum_ok_iff {l : List Member} (hl : (l.map Member.key).Nodup)
    (hk : ∀ v, ⟨"kind".toList, v⟩ ∈ l → v.IsText) :
    (∃ a, Statement.ofDatum (.map l) = .ok a) ↔ ∃ k, Schema.OfKind l k ∧
      (∀ f ∈ k.fields, ∀ v, ⟨f.text, v⟩ ∈ l → Slots.Readable v f) ∧
      (∀ f ∈ k.fields, f.required = true → ∃ v, ⟨f.text, v⟩ ∈ l) ∧
      (k = .edge → ⟨"to".toList, .list []⟩ ∉ l) := by
  rw [Statement.ofDatum]
  constructor
  · rintro ⟨a, h⟩
    split at h
    · cases h
    · rename_i k hkind
      split at h
      · cases h
      · rename_i s hs
        obtain ⟨hreq, hto⟩ := Slots.toStatement_ok_iff.mp ⟨a, h⟩
        refine ⟨k, (Kind.ofMembers_eq_ok_iff hl hk).mp hkind,
          (Slots.ofMembers_ok_iff hl).mp ⟨s, hs⟩,
          fun f hf hr => (Slots.has_ofMembers hf hs).mp (hreq f hf hr), ?_⟩
        rintro rfl hm
        exact hto rfl ((Slots.targets_ofMembers hs).mpr (.inr hm))
  · rintro ⟨k, hkind, hread, hreq, hto⟩
    obtain ⟨s, hs⟩ := (Slots.ofMembers_ok_iff hl).mpr hread
    rw [(Kind.ofMembers_eq_ok_iff hl hk).mpr hkind]
    simp only [hs]
    refine Slots.toStatement_ok_iff.mpr ⟨fun f hf hr => ?_, ?_⟩
    · exact (Slots.has_ofMembers hf hs).mpr (hreq f hf hr)
    · rintro rfl ht
      rcases (Slots.targets_ofMembers hs).mp ht with h | h
      · cases h
      · exact hto rfl h

/-! ## Single values -/

theorem Value.ofMembers?_some {t : Text} : ∀ {l : List Member}, (∀ m ∈ l, m.key ≠ "html".toList) →
    Value.ofMembers? (some t) l = some (.html t)
  | [], _ => rfl
  | ⟨k, d⟩ :: r, h => by
    have rest := Value.ofMembers?_some (t := t) (fun m hm => h m (List.mem_cons_of_mem _ hm))
    simp only [Value.ofMembers?, if_neg (h _ (List.mem_cons_self ..)), rest]

/-- Markup is read if it is a text. -/
theorem Value.ofMembers?_isSome_iff : ∀ {l : List Member}, (l.map Member.key).Nodup →
    ((∃ v, Value.ofMembers? none l = some v) ↔ ∃ t, ⟨"html".toList, .text t⟩ ∈ l)
  | [], _ => by simp [Value.ofMembers?]
  | ⟨key, d⟩ :: r, hl => by
    rw [List.map_cons, List.nodup_cons] at hl
    simp only [Value.ofMembers?, List.mem_cons, Member.mk.injEq]
    by_cases hkey : key = "html".toList
    · subst hkey
      have fresh : ∀ m ∈ r, m.key ≠ "html".toList :=
        fun m hm e => hl.1 (List.mem_map.mpr ⟨m, hm, e⟩)
      have unknown : ∀ t, ⟨"html".toList, .text t⟩ ∉ r := fun t ht => fresh _ ht rfl
      rw [if_pos rfl]
      cases d with
      | text t =>
        simp only [Value.ofMembers?_some fresh, unknown, Datum.text.injEq, true_and, or_false,
          Option.some.injEq, exists_eq, exists_eq']
      | null | bool | unsigned | signed | float | list | map =>
        simp only [unknown, reduceCtorEq, and_false, or_false, exists_false]
    · simp only [if_neg hkey, Ne.symm hkey, false_and, false_or]
      exact Value.ofMembers?_isSome_iff hl.2

theorem Value.ofDatum?_isSome_iff {d : Datum} (hd : d.Distinct) :
    (∃ v, Value.ofDatum? d = some v) ↔ d.IsValue := by
  cases d with
  | map l => exact Value.ofMembers?_isSome_iff hd.1
  | unsigned n =>
    rw [Value.ofDatum?]
    split <;> simp [Datum.IsValue]
  | null | bool | signed | float | text | list => simp [Value.ofDatum?, Datum.IsValue]

theorem Attrs.ofMembers_ok_iff : ∀ {l : List Member} (a : Attrs), Member.DistinctAll l →
    ((∃ b, Attrs.ofMembers a l = .ok b) ↔ ∀ m ∈ l, m.value.IsValue)
  | [], a, _ => by simp [Attrs.ofMembers]
  | ⟨k, d⟩ :: r, a, h => by
    rw [Member.DistinctAll] at h
    have value := Value.ofDatum?_isSome_iff h.1
    rw [Attrs.ofMembers, List.forall_mem_cons]
    cases hv : Value.ofDatum? d with
    | none => simp [← value, hv]
    | some v =>
      rw [Attrs.ofMembers_ok_iff (a.set k v) h.2]
      simp [← value, hv]

theorem Attrs.ofDatum_ok_iff {d : Datum} (hd : d.Distinct) :
    (∃ a, Attrs.ofDatum d = .ok a) ↔ d.IsAttrs := by
  cases d with
  | map l => exact Attrs.ofMembers_ok_iff .empty hd.2
  | null | bool | unsigned | signed | float | text | list => simp [Attrs.ofDatum, Datum.IsAttrs]

/-- A list that is read item by item can be read exactly if each item can. -/
theorem mapM_isSome_iff {α β : Type} {g : α → Option β} {l : List α} :
    (∃ b, l.mapM g = some b) ↔ ∀ a ∈ l, ∃ b, g a = some b := by
  induction l with
  | nil => simp
  | cons a l ih =>
    rw [List.forall_mem_cons, ← ih, List.mapM_cons]
    cases g a with
    | none => simp
    | some b => cases l.mapM g <;> simp

theorem Attrs.ofData?_isSome_iff {l : List Datum} (hl : Datum.DistinctAll l) :
    (∃ b, Attrs.ofData? l = some b) ↔ ∀ d ∈ l, d.IsAttrs := by
  rw [Attrs.ofData?_eq_mapM, mapM_isSome_iff]
  refine forall₂_congr (fun d hd => ?_)
  simp only [toOption_eq_some_iff]
  exact Attrs.ofDatum_ok_iff (hl.of_mem d hd)

theorem Attrs.listOfDatum_ok_iff {d : Datum} (hd : d.Distinct) :
    (∃ l, Attrs.listOfDatum d = .ok l) ↔ d.IsAttrsList := by
  have one := Attrs.ofDatum_ok_iff hd
  cases d with
  | list l =>
    rw [Attrs.listOfDatum, Datum.IsAttrsList, ← Attrs.ofData?_isSome_iff hd]
    cases Attrs.ofData? l <;> simp
  | map l =>
    rw [Attrs.listOfDatum, Datum.IsAttrsList, ← one]
    · cases Attrs.ofDatum (.map l) <;> simp
    all_goals simp
  | null | bool | unsigned | signed | float | text =>
    simp [Attrs.listOfDatum, Attrs.ofDatum, Datum.IsAttrsList, Datum.IsAttrs]

theorem NodeId.ofDatum_ok_iff {d : Datum} : (∃ id, NodeId.ofDatum d = .ok id) ↔ d.IsId := by
  unfold NodeId.ofDatum Datum.IsId
  cases d with
  | text t => cases hp : NodeId.parse t <;> simp [Datum.asText, hp]
  | null | bool | unsigned | signed | float | list | map => simp [Datum.asText]

theorem Component.ofDatum_ok_iff {d : Datum} (hd : d.IsText) :
    (∃ c, Component.ofDatum d = .ok c) ↔ d.IsComponent := by
  obtain ⟨t, rfl⟩ := hd
  constructor
  · rintro ⟨c, h⟩
    rw [Component.ofDatum, Component.ofName] at h
    split at h
    · rename_i c' hc
      have hk := List.find?_some hc
      rw [decide_eq_true_eq] at hk
      exact ⟨c', congrArg Datum.text hk.symm⟩
    · cases h
  · rintro ⟨c, h⟩
    rw [h]
    exact ⟨c, Component.ofDatum_keyword c⟩

theorem Datum.asText_ok_iff {d : Datum} : (∃ t, d.asText = .ok t) ↔ d.IsText := by
  cases d <;> simp [Datum.asText, Datum.IsText]

theorem Datum.asName_ok_iff {d : Datum} : (∃ n, d.asName = .ok n) ↔ d.IsName := by
  cases d <;> simp [Datum.asName, Datum.IsName, Datum.IsText]

theorem Datum.asBool_ok_iff {d : Datum} : (∃ b, d.asBool = .ok b) ↔ d.IsBool := by
  cases d <;> simp [Datum.asBool, Datum.IsBool]

/-! ## Endpoints and lists -/

theorem Endpoint.ofMembers?_some {s : Subgraph} : ∀ {l : List Member},
    (∀ m ∈ l, m.key ≠ "subgraph".toList) → Endpoint.ofMembers? (some s) l = some (.subgraph s)
  | [], _ => rfl
  | ⟨k, d⟩ :: r, h => by
    rw [Endpoint.ofMembers?_cons, if_neg (h _ (List.mem_cons_self ..))]
    exact Endpoint.ofMembers?_some (fun m hm => h m (List.mem_cons_of_mem _ hm))

/-- A map is read as an endpoint if it has a subgraph that can be read. -/
theorem Endpoint.ofMembers?_isSome_iff : ∀ {l : List Member}, (l.map Member.key).Nodup →
    ((∃ e, Endpoint.ofMembers? none l = some e) ↔
      Schema.Required l "subgraph".toList (fun v => ∃ s, Slots.ofSubgraph v = .ok s))
  | [], _ => by simp [Endpoint.ofMembers?_nil, Schema.Required]
  | ⟨key, d⟩ :: r, hl => by
    rw [List.map_cons, List.nodup_cons] at hl
    have rest := Endpoint.ofMembers?_isSome_iff hl.2
    unfold Schema.Required at rest ⊢
    simp only [Endpoint.ofMembers?_cons, List.mem_cons, Member.mk.injEq]
    by_cases hkey : key = "subgraph".toList
    · subst hkey
      have fresh : ∀ m ∈ r, m.key ≠ "subgraph".toList :=
        fun m hm e => hl.1 (List.mem_map.mpr ⟨m, hm, e⟩)
      have unknown : ∀ v, ⟨"subgraph".toList, v⟩ ∉ r := fun v hv => fresh _ hv rfl
      simp only [if_true, unknown, true_and, or_false, exists_eq_left]
      cases Slots.ofSubgraph d with
      | error m => simp only [reduceCtorEq, exists_false]
      | ok s => simp only [Endpoint.ofMembers?_some fresh, Option.some.injEq, Except.ok.injEq,
          exists_eq']
    · simp only [if_neg hkey, Ne.symm hkey, false_and, false_or]
      exact rest

theorem Endpoint.ofData?_isSome_iff {l : List Datum} :
    (∃ es, Endpoint.ofData? l = some es) ↔ ∀ d ∈ l, ∃ e, Endpoint.ofDatum? d = some e := by
  rw [Endpoint.ofData?_eq_mapM]
  exact mapM_isSome_iff

theorem Statement.ofData_ok_iff {l : List Datum} :
    (∃ b, Statement.ofData l = .ok b) ↔ ∀ d ∈ l, ∃ a, Statement.ofDatum d = .ok a := by
  simp only [← toOption_eq_some_iff, Statement.toOption_ofData]
  exact mapM_isSome_iff

end DotGraph
