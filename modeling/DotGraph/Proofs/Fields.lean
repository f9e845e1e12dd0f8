import Mathlib.Data.List.Nodup
import DotGraph.Proofs.GraphSources
import DotGraph.Proofs.Soundness

/-!
# Reading the fields of a map

Statements, subgraphs and graphs are read from maps in the same way: each member whose key is that
of a field is read into it, the others are passed over, and a field that has been read already is a
mismatch. If no key is repeated, all fields can be read exactly if each one can be read by itself,
and those that have been read are those whose keys are there.

- `FieldReader.ofMembers_ok_iff`, `FieldReader.has_ofMembers`: these two facts.
- `Slots.reader`, `Head.reader`: the fields of statements and those of graphs.
- `Slots.toStatement_ok_iff`: when the fields make a statement.
-/

set_option autoImplicit false

namespace DotGraph

/-- How the fields of a record are read. Whether one can be read depends on its datum alone, and
reading it adds this field. -/
structure FieldReader (σ φ : Type) [DecidableEq φ] where
  fields : List φ
  text : φ → Text
  field? : Text → Option φ
  has : σ → φ → Bool
  read : σ → Datum → φ → Except Mismatch σ
  readable : Datum → φ → Prop
  field?_iff : ∀ key f, field? key = some f ↔ f ∈ fields ∧ text f = key
  read_ok_iff : ∀ s d f, (∃ t, read s d f = .ok t) ↔ readable d f
  has_read : ∀ s d f t g, read s d f = .ok t → has t g = (has s g || g = f)

namespace FieldReader

variable {σ φ : Type} [DecidableEq φ] (R : FieldReader σ φ)

/-- Reads the members of a map into a record. -/
def ofMembers (s : σ) : List Member → Except Mismatch σ
  | [] => .ok s
  | ⟨key, d⟩ :: r => match R.field? key with
    | none => ofMembers s r
    | some f =>
      if R.has s f then .error (.duplicateField key)
      else match R.read s d f with
        | .ok t => ofMembers t r
        | .error m => .error m

theorem ofMembers_unknown {key : Text} (hk : R.field? key = none) (s : σ) (d : Datum)
    (r : List Member) : R.ofMembers s (⟨key, d⟩ :: r) = R.ofMembers s r := by
  rw [ofMembers, hk]

theorem ofMembers_field_eq_ok_iff {key : Text} {f : φ} (hk : R.field? key = some f) {s t : σ}
    {d : Datum} {r : List Member} : R.ofMembers s (⟨key, d⟩ :: r) = .ok t ↔
      R.has s f = false ∧ ∃ s', R.read s d f = .ok s' ∧ R.ofMembers s' r = .ok t := by
  rw [ofMembers, hk]
  cases hh : R.has s f with
  | true => simp [hh]
  | false => cases hr : R.read s d f <;> simp [hh, hr]

/-- A key without a field is that of no field. -/
theorem text_ne_of_field? {key : Text} (h : R.field? key = none) :
    ∀ f ∈ R.fields, R.text f ≠ key := by
  intro f hf e
  cases h.symm.trans ((R.field?_iff key f).mpr ⟨hf, e⟩)

/-- Two fields with one key are the same. -/
theorem eq_of_text_eq {f g : φ} (hf : f ∈ R.fields) (hg : g ∈ R.fields)
    (h : R.text f = R.text g) : f = g := by
  cases ((R.field?_iff _ f).mpr ⟨hf, h⟩).symm.trans ((R.field?_iff _ g).mpr ⟨hg, rfl⟩)
  rfl

/-- The fields of a map can be read exactly if each of them can, as long as none of them has been
read before. -/
theorem ofMembers_ok_iff_of_free : ∀ {l : List Member} {s : σ}, (l.map Member.key).Nodup →
    (∀ f ∈ R.fields, R.has s f = true → ∀ v, ⟨R.text f, v⟩ ∉ l) →
    ((∃ t, R.ofMembers s l = .ok t) ↔
      ∀ f ∈ R.fields, ∀ v, ⟨R.text f, v⟩ ∈ l → R.readable v f)
  | [], s, _, _ => by simp [ofMembers]
  | ⟨key, d⟩ :: r, s, hl, hs => by
    rw [List.map_cons, List.nodup_cons] at hl
    rw [ofMembers]
    cases hk : R.field? key with
    | none =>
      have other := R.text_ne_of_field? hk
      have rest := ofMembers_ok_iff_of_free hl.2
        (fun f hf hh v hv => hs f hf hh v (List.mem_cons_of_mem _ hv))
      simp only [rest, List.mem_cons, Member.mk.injEq]
      constructor
      · rintro h f hf v (⟨e, -⟩ | hv)
        · exact absurd e (other f hf)
        · exact h f hf v hv
      · exact fun h f hf v hv => h f hf v (.inr hv)
    | some f =>
      obtain ⟨hf, rfl⟩ := (R.field?_iff key f).mp hk
      have free : R.has s f = false := by
        rw [Bool.eq_false_iff]
        exact fun hh => hs f hf hh d (List.mem_cons_self ..)
      simp only [free, Bool.false_eq_true, if_false]
      cases hr : R.read s d f with
      | error m =>
        constructor
        · rintro ⟨t, e⟩
          cases e
        · intro h
          obtain ⟨t, ht⟩ := (R.read_ok_iff s d f).mpr (h f hf d (List.mem_cons_self ..))
          cases hr.symm.trans ht
      | ok t =>
        -- what has been read now includes `f`, whose key does not come again
        have rest : ∀ g ∈ R.fields, R.has t g = true → ∀ v, ⟨R.text g, v⟩ ∉ r := by
          intro g hg hh v hv
          rw [R.has_read s d f t g hr, Bool.or_eq_true, decide_eq_true_eq] at hh
          rcases hh with hh | rfl
          · exact hs g hg hh v (List.mem_cons_of_mem _ hv)
          · exact hl.1 (List.mem_map.mpr ⟨_, hv, rfl⟩)
        simp only [ofMembers_ok_iff_of_free hl.2 rest, List.mem_cons, Member.mk.injEq]
        constructor
        · rintro h g hg v (⟨e, rfl⟩ | hv)
          · obtain rfl := R.eq_of_text_eq hg hf e
            exact (R.read_ok_iff s v g).mp ⟨t, hr⟩
          · exact h g hg v hv
        · exact fun h g hg v hv => h g hg v (.inr hv)

/-- **The fields of a map can be read exactly if each of them can.** -/
theorem ofMembers_ok_iff {l : List Member} {s : σ} (hl : (l.map Member.key).Nodup)
    (hs : ∀ f, R.has s f = false) : (∃ t, R.ofMembers s l = .ok t) ↔
      ∀ f ∈ R.fields, ∀ v, ⟨R.text f, v⟩ ∈ l → R.readable v f := by
  refine R.ofMembers_ok_iff_of_free hl (fun f _ hh => ?_)
  cases (hs f).symm.trans hh

/-- **What has been read of a map**: the fields that were read before or are among its members. -/
theorem has_ofMembers {f : φ} (hf : f ∈ R.fields) : ∀ {l : List Member} {s t : σ},
    R.ofMembers s l = .ok t →
    (R.has t f = true ↔ R.has s f = true ∨ ∃ v, ⟨R.text f, v⟩ ∈ l)
  | [], s, t, h => by
    cases h
    simp
  | ⟨key, d⟩ :: r, s, t, h => by
    cases hk : R.field? key with
    | none =>
      rw [R.ofMembers_unknown hk] at h
      rw [has_ofMembers hf h]
      simp [R.text_ne_of_field? hk f hf]
    | some g =>
      obtain ⟨hg, rfl⟩ := (R.field?_iff key g).mp hk
      obtain ⟨-, s', hr, h⟩ := (R.ofMembers_field_eq_ok_iff hk).mp h
      have same : f = g ↔ R.text f = R.text g := ⟨congrArg _, R.eq_of_text_eq hf hg⟩
      rw [has_ofMembers hf h, R.has_read s d g s' f hr, Bool.or_eq_true, decide_eq_true_eq]
      simp only [List.mem_cons, Member.mk.injEq, same, exists_or, exists_and_left, exists_eq,
        and_true, or_assoc]

end FieldReader

/-! ## Statements -/

theorem map_isOk {ε α β : Type} {x : Except ε α} {f : α → β} :
    (∃ b, x.map f = .ok b) ↔ ∃ a, x = .ok a := by
  cases x <;> simp [Except.map]

/-- The field of a kind with a key is the one with this key among its fields. -/
theorem Kind.field?_eq_some_iff {k : Kind} {key : Text} {f : StatementField} :
    k.field? key = some f ↔ f ∈ k.fields ∧ f.text = key := by
  constructor
  · intro h
    exact ⟨List.mem_of_find?_eq_some h, by simpa using List.find?_some h⟩
  · rintro ⟨hf, rfl⟩
    revert hf
    cases k <;> cases f <;> decide

/-- Only the attribute lists are a field of several kinds. -/
theorem Kind.eq_of_mem_fields {j k : Kind} {f : StatementField} (hj : f ∈ j.fields)
    (hk : f ∈ k.fields) (hf : f ≠ .lists) : j = k := by
  revert hj hk hf
  cases j <;> cases k <;> cases f <;> decide

/-- What holds of all fields of a kind. -/
theorem Kind.forall_fields_iff {k : Kind} {p : StatementField → Prop} : (∀ f ∈ k.fields, p f) ↔
    match k with
    | .node => p .id ∧ p .lists
    | .edge => p .source ∧ p .targets ∧ p .lists
    | .attr => p .component ∧ p .lists
    | .subgraph => p .name ∧ p .attributes ∧ p .body
    | .assign => p .key ∧ p .value := by
  cases k <;> simp [Kind.fields]

/-- The targets that a datum gives: one endpoint or a list of them. -/
def Endpoint.targetsOf? : Datum → Option (List Endpoint)
  | .list items => Endpoint.ofData? items
  | d => (Endpoint.ofDatum? d).map (fun e => [e])

theorem Endpoint.targetsOf?_eq_nil_iff {d : Datum} :
    Endpoint.targetsOf? d = some [] ↔ d = .list [] := by
  cases d with
  | list l =>
    cases l with
    | nil => simp [targetsOf?, ofData?]
    | cons x r =>
      simp only [targetsOf?, ofData?]
      cases ofDatum? x with
      | none => simp
      | some e => cases ofData? r <;> simp
  | null | bool | unsigned | signed | float | text | map => simp [targetsOf?]

namespace Slots

theorem read_targets_eq (s : Slots) (d : Datum) :
    s.read d .targets = s.withTargets (Endpoint.targetsOf? d) := by
  cases d <;> rfl

theorem read_body_eq (s : Slots) (d : Datum) : s.read d .body = s.withBody d.asBody := by
  cases d <;> rfl

/-- A field of a statement can be read from a datum. -/
def Readable (d : Datum) : StatementField → Prop
  | .id => ∃ id, NodeId.ofDatum d = .ok id
  | .source => ∃ e, Endpoint.ofDatum? d = some e
  | .targets => ∃ l, Endpoint.targetsOf? d = some l
  | .component => ∃ c, Component.ofDatum d = .ok c
  | .key => ∃ t, d.asText = .ok t
  | .value => ∃ v, Value.ofDatum? d = some v
  | .lists => ∃ l, Attrs.listOfDatum d = .ok l
  | .name => ∃ n, d.asName = .ok n
  | .attributes => ∃ a, Attrs.ofDatum d = .ok a
  | .body => ∃ b, d.asBody = .ok b

/-- Whether a field can be read does not depend on what has been read before. -/
theorem read_ok_iff (s : Slots) (d : Datum) (f : StatementField) :
    (∃ t, s.read d f = .ok t) ↔ Readable d f := by
  cases f with
  | id | component | key | lists | name | attributes => exact map_isOk
  | value =>
    simp only [read, readPlain, Readable]
    cases Value.ofDatum? d <;> simp
  | source =>
    simp only [read, Readable]
    cases Endpoint.ofDatum? d <;> simp [withSource]
  | targets =>
    rw [read_targets_eq, Readable]
    cases Endpoint.targetsOf? d <;> simp [withTargets]
  | body =>
    rw [read_body_eq, Readable]
    cases d.asBody <;> simp [withBody]

/-- Reading a field adds just this field, and its targets if it is the one for targets. -/
theorem read_adds {s t : Slots} {d : Datum} {f : StatementField} (h : s.read d f = .ok t) :
    (∀ g, t.has g = (s.has g || g = f)) ∧
      t.targets = if f = .targets then Endpoint.targetsOf? d else s.targets := by
  cases f with
  | id | component | key | lists | name | attributes =>
    obtain ⟨x, -, rfl⟩ := except_map_eq_ok_iff.mp h
    exact ⟨fun g => by cases g <;> simp [has], rfl⟩
  | value =>
    simp only [read, readPlain] at h
    split at h
    · cases h
      exact ⟨fun g => by cases g <;> simp [has], rfl⟩
    · cases h
  | source =>
    simp only [read, withSource] at h
    split at h
    · cases h
      exact ⟨fun g => by cases g <;> simp [has], rfl⟩
    · cases h
  | targets =>
    rw [read_targets_eq] at h
    simp only [withTargets] at h
    split at h
    · rename_i ht
      cases h
      exact ⟨fun g => by cases g <;> simp [has], ht.symm⟩
    · cases h
  | body =>
    rw [read_body_eq] at h
    simp only [withBody] at h
    split at h
    · cases h
      exact ⟨fun g => by cases g <;> simp [has], rfl⟩
    · cases h

/-- The fields of statements of a kind. -/
def reader (k : Kind) : FieldReader Slots StatementField where
  fields := k.fields
  text := StatementField.text
  field? := k.field?
  has := has
  read := read
  readable := Readable
  field?_iff _ _ := Kind.field?_eq_some_iff
  read_ok_iff := read_ok_iff
  has_read _ _ _ _ g h := (read_adds h).1 g

theorem ofMembers_eq (k : Kind) : ∀ (l : List Member) (s : Slots),
    ofMembers k s l = (reader k).ofMembers s l
  | [], _ => rfl
  | ⟨key, d⟩ :: r, s => by
    have field : (reader k).field? key = k.field? key := rfl
    have read : ∀ f, (reader k).read s d f = s.read d f := fun _ => rfl
    rw [ofMembers_cons, FieldReader.ofMembers, field]
    simp only [ofMembers_eq k r, read]
    cases k.field? key with
    | none => rfl
    | some f =>
      dsimp only
      cases s.read d f <;> rfl

theorem has_empty (f : StatementField) : has {} f = false := by
  cases f <;> rfl

theorem ofMembers_ok_iff {k : Kind} {l : List Member} (hl : (l.map Member.key).Nodup) :
    (∃ t, ofMembers k {} l = .ok t) ↔
      ∀ f ∈ k.fields, ∀ v, ⟨f.text, v⟩ ∈ l → Readable v f := by
  simp only [ofMembers_eq]
  exact (reader k).ofMembers_ok_iff hl has_empty

theorem has_ofMembers {k : Kind} {l : List Member} {t : Slots} {f : StatementField}
    (hf : f ∈ k.fields) (h : ofMembers k {} l = .ok t) :
    t.has f = true ↔ ∃ v, ⟨f.text, v⟩ ∈ l := by
  rw [ofMembers_eq] at h
  have hh := (reader k).has_ofMembers hf h
  simpa [reader, has_empty] using hh

/-- There are no targets after all members if there were none before or a list without any is among
them. -/
theorem targets_ofMembers : ∀ {l : List Member} {s t : Slots}, ofMembers .edge s l = .ok t →
    (t.targets = some [] ↔ s.targets = some [] ∨ ⟨"to".toList, .list []⟩ ∈ l)
  | [], s, t, h => by
    cases h
    simp
  | ⟨key, d⟩ :: r, s, t, h => by
    have field : Kind.edge.field? "to".toList = some .targets := by decide
    rw [ofMembers_cons] at h
    split at h
    · rename_i hk
      have other : "to".toList ≠ key := by
        rintro rfl
        cases hk.symm.trans field
      rw [targets_ofMembers h, List.mem_cons, Member.mk.injEq]
      simp only [other, false_and, false_or]
    · rename_i g hk
      split at h
      · cases h
      · rename_i hfree
        split at h
        · rename_i s' hr
          rw [targets_ofMembers h, (read_adds hr).2, List.mem_cons, Member.mk.injEq]
          by_cases hg : g = .targets
          · rw [if_pos hg]
            subst hg
            obtain ⟨-, rfl⟩ := Kind.field?_eq_some_iff.mp hk
            have unread : s.targets = none := by simpa [has] using hfree
            have text : "to".toList = StatementField.targets.text := rfl
            rw [Endpoint.targetsOf?_eq_nil_iff, unread, text, eq_comm (a := d)]
            simp only [reduceCtorEq, false_or, true_and]
          · rw [if_neg hg]
            have other : "to".toList ≠ key := by
              rintro rfl
              cases hk.symm.trans field
              exact hg rfl
            simp only [other, false_and, false_or]
        · cases h

end Slots

/-- Slots make a statement if nothing is missing and an edge has targets. -/
theorem Slots.toStatement_ok_iff {k : Kind} {s : Slots} : (∃ a, s.toStatement k = .ok a) ↔
    (∀ f ∈ k.fields, f.required = true → s.has f = true) ∧ (k = .edge → s.targets ≠ some []) := by
  unfold toStatement
  cases hfind : k.fields.find? (fun f => f.required && !s.has f) with
  | some f =>
    have hf := List.mem_of_find?_eq_some hfind
    have hp := List.find?_some hfind
    simp only [Bool.and_eq_true, Bool.not_eq_true'] at hp
    constructor
    · rintro ⟨a, e⟩
      cases e
    · rintro ⟨h, -⟩
      cases hp.2.symm.trans (h f hf hp.1)
  | none =>
    have present := fun f hf hr => StatementField.has_of_find? (f := f) hfind hf hr
    refine ⟨fun h => ⟨present, ?_⟩, ?_⟩
    · rintro rfl ht
      simp only [ht] at h
      obtain ⟨a, e⟩ := h
      cases e
    · rintro ⟨-, hto⟩
      cases k with
      | node | attr | subgraph | assign => exact ⟨_, rfl⟩
      | edge =>
        obtain ⟨l, hl⟩ := Option.isSome_iff_exists.mp
          (present .targets (by simp [Kind.fields]) rfl)
        simp only [hl, Option.getD_some]
        cases l with
        | nil => exact absurd hl (hto rfl)
        | cons e r => exact ⟨_, rfl⟩

/-! ## Graphs -/

namespace Head

/-- A field of a graph can be read from a datum. -/
def Readable (d : Datum) : HeadField → Prop
  | .strict | .directed => ∃ b, d.asBool = .ok b
  | .name => ∃ n, d.asName = .ok n
  | .attributes => ∃ a, Attrs.ofDatum d = .ok a
  | .body => ∃ b, d.asBody = .ok b

theorem field?_eq_some_iff {key : Text} {f : HeadField} :
    HeadField.ofGraph.find? (fun f => f.text = key) = some f ↔
      f ∈ HeadField.ofGraph ∧ f.text = key := by
  constructor
  · intro h
    exact ⟨List.mem_of_find?_eq_some h, by simpa using List.find?_some h⟩
  · rintro ⟨-, rfl⟩
    cases f <;> decide

/-- The fields of graphs. -/
def reader : FieldReader Head HeadField where
  fields := HeadField.ofGraph
  text := HeadField.text
  field? key := HeadField.ofGraph.find? (fun f => f.text = key)
  has := has
  read := readDatum
  readable := Readable
  field?_iff _ _ := field?_eq_some_iff
  read_ok_iff h d f := by
    cases f <;> exact map_isOk
  has_read h d f j g e := by
    cases f <;> obtain ⟨x, -, rfl⟩ := except_map_eq_ok_iff.mp e <;> cases g <;> simp [has]

theorem ofMembers_eq : ∀ (l : List Member) (h : Head),
    ofMembers HeadField.ofGraph h l = reader.ofMembers h l
  | [], _ => rfl
  | ⟨key, d⟩ :: r, h => by
    have field : reader.field? key = HeadField.ofGraph.find? (fun f => f.text = key) := rfl
    have read : ∀ f, reader.read h d f = h.readDatum d f := fun _ => rfl
    rw [Head.ofMembers, FieldReader.ofMembers, field]
    simp only [ofMembers_eq r, read]
    cases HeadField.ofGraph.find? (fun f => f.text = key) with
    | none => rfl
    | some f =>
      dsimp only
      cases h.readDatum d f <;> rfl

theorem ofMembers_ok_iff {l : List Member} (hl : (l.map Member.key).Nodup) :
    (∃ h, ofMembers HeadField.ofGraph {} l = .ok h) ↔
      ∀ f ∈ HeadField.ofGraph, ∀ v, ⟨f.text, v⟩ ∈ l → Readable v f := by
  simp only [ofMembers_eq]
  exact reader.ofMembers_ok_iff hl (fun f => by cases f <;> rfl)

end Head

end DotGraph
