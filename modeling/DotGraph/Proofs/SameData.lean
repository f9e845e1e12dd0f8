import Mathlib.Data.List.Forall2
import DotGraph.Description.Same
import DotGraph.Proofs.Exchange

/-!
# Equal values are read alike

In every place of a description two data that are one value are read as the same thing, or neither
is read, as long as no kind in them is a number. For lists of attributes the keys have to be
distinct, as a repeated one counts in the order of the map.

- `FieldReader.ofMembers_same`: maps are read alike if their fields are.
- `Schema.read?_same`: equal values are read alike.
-/

set_option autoImplicit false

namespace DotGraph

theorem forall₂_mem {α β : Type} {R : α → β → Prop} {l : List α} {m : List β}
    (h : List.Forall₂ R l m) : List.Forall₂ (fun a b => a ∈ l ∧ R a b) l m :=
  (List.forall₂_and_left _ _).mpr ⟨fun _ ha => ha, h⟩

/-- Lists that are read item by item are read alike if their items are. -/
theorem mapM_congr_forall₂ {α β : Type} {g : α → Option β} {l m : List α}
    (h : List.Forall₂ (fun a b => g a = g b) l m) : l.mapM g = m.mapM g := by
  induction h with
  | nil => rfl
  | cons hab _ ih => rw [List.mapM_cons, List.mapM_cons, hab, ih]

/-! ## Maps -/

namespace FieldReader

variable {σ φ : Type} [DecidableEq φ] (R : FieldReader σ φ)

/-- **Maps are read alike if their fields are**, whatever their order. -/
theorem ofMembers_same (hR : R.Uniform) {l l' m : List Member} (hp : l.Perm l')
    (h : List.Forall₂ (fun a b => a.key = b.key ∧ ∀ f, R.field? a.key = some f → ∀ s,
      (R.read s a.value f).toOption = (R.read s b.value f).toOption) l' m) (s : σ) :
    (R.ofMembers s l).toOption = (R.ofMembers s m).toOption := by
  rw [R.ofMembers_perm hR hp]
  clear hp
  induction h generalizing s with
  | nil => rfl
  | @cons a b l m hab _ ih =>
    obtain ⟨j, d⟩ := a
    obtain ⟨k, e⟩ := b
    obtain ⟨rfl, hread⟩ := hab
    cases hf : R.field? j with
    | none =>
      rw [R.ofMembers_unknown hf, R.ofMembers_unknown hf]
      exact ih s
    | some f =>
      refine toOption_eq_iff.mpr (fun t => ?_)
      rw [R.ofMembers_field_eq_ok_iff hf, R.ofMembers_field_eq_ok_iff hf]
      refine and_congr_right (fun _ => exists_congr (fun s' => ?_))
      exact and_congr (toOption_eq_iff.mp (hread f hf s) s') (toOption_eq_iff.mp (ih s') t)

end FieldReader

variable {mixed : Prop}

/-! ## Fields without statements -/

/-- A kind that is no number is given by its name. -/
theorem Kind.eq_text_of_ofDatum {d : Datum} {k : Kind} (hd : ¬ d.IsWhole)
    (h : Kind.ofDatum d = .ok k) : d = .text k.name := by
  cases d with
  | text t => rw [Kind.ofName_eq_ok_iff.mp h]
  | unsigned n => exact absurd (.inl ⟨n, rfl⟩) hd
  | null | bool | signed | float | list | map => cases h

/-- If no kind of a map is a number, the one that is read is given by its name. -/
theorem Kind.ofKind_of_ofMembers {k : Kind} : ∀ {l : List Member},
    (∀ d, ⟨"kind".toList, d⟩ ∈ l → ¬ d.IsWhole) → Kind.ofMembers none l = .ok k → Schema.OfKind l k
  | [], _, h => by cases h
  | ⟨key, d⟩ :: r, hl, h => by
    by_cases hkey : key = "kind".toList
    · subst hkey
      obtain ⟨-, j, hj, h⟩ := Kind.ofMembers_kind_eq_ok_iff.mp h
      obtain rfl := (Kind.ofDatum_of_ofMembers h).1 j rfl
      rw [Kind.eq_text_of_ofDatum (hl d (List.mem_cons_self ..)) hj]
      exact List.mem_cons_self ..
    · rw [Kind.ofMembers_field hkey] at h
      exact List.mem_cons_of_mem _
        (Kind.ofKind_of_ofMembers (fun e he => hl e (List.mem_cons_of_mem _ he)) h)

/-- Related lists are related member by member. -/
theorem Member.SameAll.forall₂ : ∀ {l m : List Member}, Member.SameAll mixed l m →
    List.Forall₂ (fun a b => a.key = b.key ∧ Datum.Same mixed a.value b.value) l m
  | _, _, .nil => .nil
  | _, _, .cons h r => .cons ⟨rfl, h⟩ r.forall₂

theorem Member.SameAll.length_eq {l m : List Member} (h : Member.SameAll mixed l m) :
    l.length = m.length := h.forall₂.length_eq

/-- Only a map with one key is read as a component. -/
theorem Component.toOption_ofDatum_map : ∀ {l : List Member}, l.length ≠ 1 →
    (Component.ofDatum (.map l)).toOption = none
  | [], _ => rfl
  | [_], h => absurd rfl h
  | ⟨_, _⟩ :: _ :: _, _ => rfl

namespace Datum.Same

variable {d e : Datum} (h : Datum.Same mixed d e)

include h

theorem asBool : d.asBool.toOption = e.asBool.toOption := by
  cases h <;> rfl

theorem asText : d.asText.toOption = e.asText.toOption := by
  cases h <;> rfl

theorem asName : d.asName.toOption = e.asName.toOption := by
  cases h <;> rfl

theorem kind (hd : mixed → ¬ d.IsWhole) :
    (Kind.ofDatum d).toOption = (Kind.ofDatum e).toOption := by
  cases h with
  | withSign hm => exact absurd (.inl ⟨_, rfl⟩) (hd hm)
  | withoutSign hm => exact absurd (.inr ⟨_, rfl⟩) (hd hm)
  | null | bool | unsigned | signed | float | text | list | map => rfl

theorem value : Value.ofDatum? d = Value.ofDatum? e := by
  cases h with
  | withSign _ hn => simp only [Value.ofDatum?, if_pos hn]
  | withoutSign _ hn => simp only [Value.ofDatum?, if_pos hn]
  | map hp hm =>
    rw [Value.ofDatum?, Value.ofDatum?, Value.ofMembers?_eq, Value.ofMembers?_eq,
      FieldReader.ofMembers_same _ (FieldReader.single_uniform _ _) hp (hm.forall₂.imp ?_)]
    rintro a b ⟨hkey, hab⟩
    refine ⟨hkey, fun _ _ _ => ?_⟩
    simp only [FieldReader.single, toOption_map, hab.asText]
  | null | bool | unsigned | signed | float | text | list => rfl

theorem id : (NodeId.ofDatum d).toOption = (NodeId.ofDatum e).toOption := by
  cases h <;> rfl

theorem component : (Component.ofDatum d).toOption = (Component.ofDatum e).toOption := by
  cases h with
  | @map l l' m hp hm =>
    by_cases hl : l.length = 1
    · obtain ⟨⟨k, d⟩, rfl⟩ := List.length_eq_one_iff.mp hl
      obtain rfl := List.singleton_perm.mp hp
      cases hm with
      | @cons k d e l m hde hm =>
        cases hm with
        | nil =>
          simp only [Component.ofDatum]
          cases Component.ofName k with
          | error m => rfl
          | ok c =>
            cases hde with
            | @map l l' m inner values =>
              have length := inner.length_eq.trans values.length_eq
              cases l <;> cases m <;> first | rfl | cases length
            | null | bool | unsigned | signed | withSign | withoutSign | float | text | list => rfl
    · have hm : m.length ≠ 1 := fun e => hl ((hp.length_eq.trans hm.length_eq).trans e)
      rw [Component.toOption_ofDatum_map hl, Component.toOption_ofDatum_map hm]
  | null | bool | unsigned | signed | withSign | withoutSign | float | text | list => rfl

end Datum.Same

/-! ### Attributes -/

theorem Member.DistinctAll.perm {l m : List Member} (hp : l.Perm m) (h : Member.DistinctAll l) :
    Member.DistinctAll m := by
  induction hp with
  | nil => exact h
  | @cons x l m _ ih =>
    obtain ⟨k, d⟩ := x
    exact ⟨h.1, ih h.2⟩
  | swap x y l =>
    obtain ⟨j, d⟩ := x
    obtain ⟨k, e⟩ := y
    exact ⟨h.2.1, h.1, h.2.2⟩
  | trans _ _ ih ih' => exact ih' (ih h)

/-- The order of attributes with distinct keys does not matter. -/
theorem Attrs.ofMembers_perm {l m : List Member} (hp : l.Perm m) (hl : (l.map Member.key).Nodup)
    (a : Attrs) : (Attrs.ofMembers a l).toOption = (Attrs.ofMembers a m).toOption := by
  induction hp generalizing a with
  | nil => rfl
  | @cons e l m _ ih =>
    obtain ⟨k, d⟩ := e
    rw [Attrs.ofMembers, Attrs.ofMembers]
    cases Value.ofDatum? d with
    | none => rfl
    | some v => exact ih (List.nodup_cons.mp hl).2 (a.set k v)
  | swap x y l =>
    obtain ⟨j, d⟩ := x
    obtain ⟨k, e⟩ := y
    have other : k ≠ j := by
      rintro rfl
      simp at hl
    simp only [Attrs.ofMembers]
    cases Value.ofDatum? d with
    | none => cases Value.ofDatum? e <;> rfl
    | some v =>
      cases Value.ofDatum? e with
      | none => rfl
      | some w => simp only [a.set_comm other]
  | @trans l l' m hp _ ih ih' =>
    exact (ih hl a).trans (ih' ((hp.map Member.key).nodup_iff.mp hl) a)

theorem Attrs.ofMembers_same {l m : List Member} (a : Attrs) (h : Member.SameAll mixed l m) :
    (Attrs.ofMembers a l).toOption = (Attrs.ofMembers a m).toOption := by
  replace h := h.forall₂
  induction h generalizing a with
  | nil => rfl
  | @cons x y l m hxy _ ih =>
    obtain ⟨k, d⟩ := x
    obtain ⟨k', e⟩ := y
    obtain ⟨rfl, hde⟩ := hxy
    rw [Attrs.ofMembers, Attrs.ofMembers, ← hde.value]
    cases Value.ofDatum? d with
    | none => rfl
    | some v => exact ih (a.set k v)

namespace Datum.Same

theorem attrs {d e : Datum} (h : Datum.Same mixed d e) (hd : d.Distinct) :
    (Attrs.ofDatum d).toOption = (Attrs.ofDatum e).toOption := by
  cases h with
  | map hp hm =>
    exact (Attrs.ofMembers_perm hp hd.1 .empty).trans (Attrs.ofMembers_same .empty hm)
  | null | bool | unsigned | signed | withSign | withoutSign | float | text | list => rfl

theorem attrsAll : ∀ {l m : List Datum}, Datum.SameAll mixed l m → Datum.DistinctAll l →
    Attrs.ofData? l = Attrs.ofData? m
  | _, _, .nil, _ => rfl
  | _, _, .cons (d := d) (e := e) h r, hd => by
    rw [Attrs.ofData?_eq_mapM, Attrs.ofData?_eq_mapM, List.mapM_cons, List.mapM_cons,
      ← Attrs.ofData?_eq_mapM, ← Attrs.ofData?_eq_mapM, h.attrs hd.1, attrsAll r hd.2]

theorem attrsList {d e : Datum} (h : Datum.Same mixed d e) (hd : d.Distinct) :
    (Attrs.listOfDatum d).toOption = (Attrs.listOfDatum e).toOption := by
  have one := h.attrs hd
  cases h with
  | list hl => rw [Attrs.listOfDatum, Attrs.listOfDatum, attrsAll hl hd]
  | @map l l' m hp hm =>
    have list : ∀ l : List Member, (Attrs.listOfDatum (.map l)).toOption =
        (Attrs.ofDatum (.map l)).toOption.map (fun a => [a]) := by
      intro l
      simp only [Attrs.listOfDatum]
      cases Attrs.ofDatum (.map l) <;> rfl
    rw [list, list, one]
  | null | bool | unsigned | signed | withSign | withoutSign | float | text => rfl

end Datum.Same

/-! ## Parts of a graph -/

namespace Schema

/-- What a part of a graph is read as. -/
def Role.Part : Role → Type
  | .graph => Graph
  | .subgraph => Slots
  | .body => List Statement
  | .statement => Statement
  | .endpoint => Endpoint
  | .targets => List Endpoint

/-- Reads a part of a graph. -/
def Role.read? : (r : Role) → Datum → Option r.Part
  | .graph, d => Graph.ofDatum? d
  | .subgraph, d => (Slots.ofSubgraph d).toOption
  | .body, d => d.asBody.toOption
  | .statement, d => (Statement.ofDatum d).toOption
  | .endpoint, d => Endpoint.ofDatum? d
  | .targets, d => Endpoint.targetsOf? d

/-- Equal values that are read alike as any part of a graph. -/
structure Alike (mixed : Prop) (d e : Datum) : Prop where
  same : Datum.Same mixed d e
  distinct : d.Distinct
  read : ∀ r, (mixed → AllUnnumbered r d) → r.read? d = r.read? e

/-- Members with one key whose values are read alike. -/
def MembersAlike (mixed : Prop) (a b : Member) : Prop :=
  a.key = b.key ∧ Alike mixed a.value b.value

/-! ### Kinds inside a part -/

namespace AllUnnumbered

variable {q r : Role}

theorem inside {layer : Layer} {v : Datum} (h : AllUnnumbered r (layer.around v))
    (lead : ∀ {p}, Leads q p → Leads r (layer :: p)) : AllUnnumbered q v :=
  fun p s hp e => h (layer :: p) s (lead hp) (congrArg layer.around e)

theorem member {l : List Member} {key : Text} {v : Datum} (h : AllUnnumbered r (.map l))
    (hv : ⟨key, v⟩ ∈ l) (lead : ∀ {front back p}, l = front ++ ⟨key, v⟩ :: back → Leads q p →
      Leads r (.member front key back :: p)) : AllUnnumbered q v := by
  obtain ⟨front, back, rfl⟩ := List.append_of_mem hv
  exact h.inside (lead rfl)

theorem item {l : List Datum} {i : Nat} {v : Datum} (h : AllUnnumbered r (.list l))
    (hv : l[i]? = some v) (lead : ∀ {front back p}, l = front ++ v :: back → front.length = i →
      Leads q p → Leads r (.item front back :: p)) : AllUnnumbered q v := by
  obtain ⟨hi, rfl⟩ := List.getElem?_eq_some_iff.mp hv
  have split : l = l.take i ++ l[i] :: l.drop (i + 1) := by
    rw [← List.drop_eq_getElem_cons hi, List.take_append_drop]
  rw [split] at h
  exact h.inside (lead split (List.length_take_of_le (Nat.le_of_lt hi)))

end AllUnnumbered

end Schema

/-- The part of a graph that a field of a statement holds. -/
def StatementField.role? : StatementField → Option Schema.Role
  | source => some .endpoint
  | targets => some .targets
  | body => some .body
  | id | component | key | value | lists | name | attributes => none

theorem index_unique {α : Type} {l : List α} (hl : l.Nodup) {i j : Nat} {a : α}
    (hi : l[i]? = some a) (hj : l[j]? = some a) : i = j :=
  (List.getElem?_inj (List.getElem?_eq_some_iff.mp hi).1 hl).mp (hi.trans hj.symm)

/-- Only one field of a subgraph holds parts of it. -/
theorem StatementField.eq_body {f : StatementField} {r : Schema.Role}
    (hf : f ∈ Kind.subgraph.fields) (hr : f.role? = some r) : f = .body ∧ r = .body := by
  cases f with
  | body => exact ⟨rfl, (Option.some.inj hr).symm⟩
  | source | targets => exact absurd hf (by decide)
  | id | component | key | value | lists | name | attributes => cases hr

namespace Schema

theorem AllUnnumbered.field {l : List Member} {k : Kind} {f : StatementField} {r : Role} {v : Datum}
    (h : AllUnnumbered .statement (.map l)) (hk : OfKind l k) (hf : f ∈ k.fields)
    (hr : f.role? = some r) (hv : ⟨f.text, v⟩ ∈ l) : AllUnnumbered r v := by
  refine h.member hv (fun {front back p} e hp => ?_)
  have kind : OfKind (front ++ back) k := by
    rw [OfKind, e, List.mem_append, List.mem_cons, Member.mk.injEq] at hk
    rw [OfKind, List.mem_append]
    exact hk.imp_right (Or.resolve_left · (fun x => f.text_ne_kind x.1.symm))
  cases f with
  | source =>
    cases hr
    cases Kind.eq_of_mem_fields hf (k := .edge) (by decide) (by decide)
    exact .source kind hp
  | targets =>
    cases hr
    cases Kind.eq_of_mem_fields hf (k := .edge) (by decide) (by decide)
    exact .goal kind hp
  | body =>
    cases hr
    cases Kind.eq_of_mem_fields hf (k := .subgraph) (by decide) (by decide)
    exact .nested kind hp
  | id | component | key | value | lists | name | attributes => cases hr

theorem AllUnnumbered.fieldItem {k : Kind} {d : Datum} {items : List Datum} {i : Nat}
    {f : StatementField} {r : Role} {v : Datum} (h : AllUnnumbered .statement (.list (d :: items)))
    (hd : d = .text k.name) (hf : k.fields[i]? = some f) (hr : f.role? = some r)
    (hv : items[i]? = some v) : AllUnnumbered r v := by
  subst hd
  refine h.item (i := i + 1) hv (fun {front back p} e hl hp => ?_)
  cases front with
  | nil => cases hl
  | cons x front =>
    obtain ⟨rfl, -⟩ := List.cons.inj e
    replace hl := Nat.succ.inj hl
    cases f with
    | source =>
      cases hr
      cases Kind.eq_of_mem_fields (List.mem_of_getElem? hf) (k := .edge) (by decide) (by decide)
      obtain rfl : 0 = i := index_unique (Kind.fields_nodup _) rfl hf
      cases List.length_eq_zero_iff.mp hl
      exact .sourceItem hp
    | targets =>
      cases hr
      cases Kind.eq_of_mem_fields (List.mem_of_getElem? hf) (k := .edge) (by decide) (by decide)
      obtain rfl : 1 = i := index_unique (Kind.fields_nodup _) rfl hf
      obtain ⟨origin, rfl⟩ := List.length_eq_one_iff.mp hl
      exact .goalItem hp
    | body =>
      cases hr
      cases Kind.eq_of_mem_fields (List.mem_of_getElem? hf) (k := .subgraph) (by decide) (by decide)
      obtain rfl : 2 = i := index_unique (Kind.fields_nodup _) rfl hf
      exact .nestedItem hl hp
    | id | component | key | value | lists | name | attributes => cases hr

end Schema

/-! ### Fields of statements -/

namespace Slots

open Schema

theorem fillingOf_alike {d e : Datum} (h : Alike mixed d e) {f : StatementField}
    (hf : ∀ r, f.role? = some r → mixed → AllUnnumbered r d) :
    (fillingOf d f).toOption = (fillingOf e f).toOption := by
  cases f with
  | id => simp only [fillingOf, toOption_map, h.same.id]
  | component => simp only [fillingOf, toOption_map, h.same.component]
  | key => simp only [fillingOf, toOption_map, h.same.asText]
  | value => simp only [fillingOf, h.same.value]
  | lists => simp only [fillingOf, toOption_map, h.same.attrsList h.distinct]
  | name => simp only [fillingOf, toOption_map, h.same.asName]
  | attributes => simp only [fillingOf, toOption_map, h.same.attrs h.distinct]
  | source =>
    have read : Endpoint.ofDatum? d = Endpoint.ofDatum? e := h.read .endpoint (hf _ rfl)
    simp only [fillingOf, read]
  | targets =>
    have read : Endpoint.targetsOf? d = Endpoint.targetsOf? e := h.read .targets (hf _ rfl)
    simp only [fillingOf, read]
  | body =>
    have read : d.asBody.toOption = e.asBody.toOption := h.read .body (hf _ rfl)
    simp only [fillingOf, toOption_map, read]

theorem read_alike {d e : Datum} (h : Alike mixed d e) {f : StatementField}
    (hf : ∀ r, f.role? = some r → mixed → AllUnnumbered r d) (s : Slots) :
    (s.read d f).toOption = (s.read e f).toOption := by
  rw [read_eq_fill, read_eq_fill, toOption_map, toOption_map, fillingOf_alike h hf]

theorem ofMembers_alike {k : Kind} {l l' m : List Member} (hp : l.Perm l')
    (hm : List.Forall₂ (MembersAlike mixed) l' m)
    (hc : ∀ f ∈ k.fields, ∀ r, f.role? = some r → ∀ v, ⟨f.text, v⟩ ∈ l → mixed →
      AllUnnumbered r v) :
    (ofMembers k {} l).toOption = (ofMembers k {} m).toOption := by
  rw [ofMembers_eq, ofMembers_eq]
  refine (reader k).ofMembers_same (uniform k) hp
    ((forall₂_mem hm).imp ?_) {}
  rintro ⟨key, d⟩ ⟨key', e⟩ ⟨ha, rfl, hde⟩
  refine ⟨rfl, fun f hfield s => read_alike hde (fun r hr => ?_) s⟩
  obtain ⟨hf, rfl⟩ := Kind.field?_eq_some_iff.mp hfield
  exact hc f hf r hr d (hp.mem_iff.mpr ha)

theorem ofItems_alike {k : Kind} : ∀ (fs : List StatementField) {l m : List Datum} (n : Nat)
    (s : Slots), List.Forall₂ (Alike mixed) l m →
    (∀ (i : Nat) f, fs[i]? = some f → ∀ r, f.role? = some r → ∀ v, l[i]? = some v →
      mixed → AllUnnumbered r v) →
    (ofItems k s fs n l).toOption = (ofItems k s fs n m).toOption
  | fs, _, _, n, s, .nil, _ => rfl
  | [], _, _, n, s, .cons _ _, _ => rfl
  | f :: fs, _, _, n, s, .cons h t, hc => by
    refine toOption_eq_iff.mpr (fun t' => ?_)
    rw [ofItems_cons_eq_ok_iff, ofItems_cons_eq_ok_iff]
    have read := read_alike h (fun r hr => hc 0 f rfl r hr _ rfl) s
    refine exists_congr (fun s' => and_congr (toOption_eq_iff.mp read s') ?_)
    have rest := ofItems_alike (k := k) fs (n + 1) s' t
      (fun i g hg r hr v hv => hc (i + 1) g hg r hr v hv)
    exact toOption_eq_iff.mp rest t'

end Slots

/-! ### Fields of graphs -/

namespace Head

open Schema

theorem read_alike {d e : Datum} (h : Alike mixed d e) {f : HeadField}
    (hf : f = .body → mixed → AllUnnumbered .body d) (s : Head) :
    (s.readDatum d f).toOption = (s.readDatum e f).toOption := by
  cases f with
  | strict | directed => simp only [readDatum, toOption_map, h.same.asBool]
  | name => simp only [readDatum, toOption_map, h.same.asName]
  | attributes => simp only [readDatum, toOption_map, h.same.attrs h.distinct]
  | body =>
    have read : d.asBody.toOption = e.asBody.toOption := h.read .body (hf rfl)
    simp only [readDatum, toOption_map, read]

theorem ofData?_alike : ∀ (fs : List HeadField) {l m : List Datum} (s : Head),
    List.Forall₂ (Alike mixed) l m →
    (∀ i : Nat, fs[i]? = some .body → ∀ v, l[i]? = some v → mixed →
      AllUnnumbered .body v) →
    ofData? s fs l = ofData? s fs m
  | [], _, _, s, .nil, _ | _ :: _, _, _, s, .nil, _ => rfl
  | [], _, _, s, .cons _ _, _ => rfl
  | f :: fs, _, _, s, .cons h t, hc => by
    refine Option.ext (fun t' => ?_)
    rw [ofData?_cons_eq_some_iff, ofData?_cons_eq_some_iff]
    have read := read_alike h (fun hf => hc 0 (hf ▸ rfl) _ rfl) s
    refine exists_congr (fun s' => and_congr (toOption_eq_iff.mp read s') ?_)
    rw [ofData?_alike fs s' t (fun i hi v hv => hc (i + 1) hi v hv)]

end Head

/-! ### Lists and maps -/

namespace Schema

section Lists

variable {l m : List Datum} (h : List.Forall₂ (Alike mixed) l m)

include h

theorem ofData_alike (hc : mixed → ∀ d ∈ l, AllUnnumbered .statement d) :
    (Statement.ofData l).toOption = (Statement.ofData m).toOption := by
  rw [Statement.toOption_ofData, Statement.toOption_ofData]
  refine mapM_congr_forall₂ ((forall₂_mem h).imp ?_)
  rintro d e ⟨hd, hde⟩
  exact hde.read .statement (fun hm => hc hm d hd)

theorem ofData?_alike (hc : mixed → ∀ d ∈ l, AllUnnumbered .endpoint d) :
    Endpoint.ofData? l = Endpoint.ofData? m := by
  rw [Endpoint.ofData?_eq_mapM, Endpoint.ofData?_eq_mapM]
  refine mapM_congr_forall₂ ((forall₂_mem h).imp ?_)
  rintro d e ⟨hd, hde⟩
  exact hde.read .endpoint (fun hm => hc hm d hd)

theorem statement_list_alike (hc : mixed → AllUnnumbered .statement (.list l)) :
    (Statement.ofDatum (.list l)).toOption = (Statement.ofDatum (.list m)).toOption := by
  cases h with
  | nil => rfl
  | @cons d e l m hde t =>
    have named := fun hm => (hc hm [] _ .here rfl).list d l rfl
    refine toOption_eq_iff.mpr (fun a => ?_)
    rw [Statement.ofDatum_list_eq_ok_iff, Statement.ofDatum_list_eq_ok_iff]
    simp only [← toOption_eq_iff.mp (hde.same.kind named)]
    refine exists_congr (fun k => exists_congr (fun s => and_congr_right (fun hk => ?_)))
    have kind := fun hm => Kind.eq_text_of_ofDatum (named hm) hk
    have fields := Slots.ofItems_alike (k := k) k.fields 0 {} t
      (fun i f hf r hr v hv hm => (hc hm).fieldItem (kind hm) hf hr hv)
    exact and_congr_left (fun _ => toOption_eq_iff.mp fields s)

theorem list_alike (r : Role) (hc : mixed → AllUnnumbered r (.list l)) :
    r.read? (.list l) = r.read? (.list m) := by
  cases r with
  | graph =>
    show (Head.ofData? {} HeadField.ofGraph l).map Head.toGraph =
      (Head.ofData? {} HeadField.ofGraph m).map Head.toGraph
    rw [Head.ofData?_alike HeadField.ofGraph {} h]
    intro i hi v hv hm
    obtain rfl : 4 = i := index_unique (by decide : HeadField.ofGraph.Nodup) rfl hi
    exact (hc hm).item hv (fun _ hl hp => .graphItem hl hp)
  | subgraph =>
    refine Slots.ofItems_alike Kind.subgraph.fields 0 {} h (fun i f hf r hr v hv hm => ?_)
    obtain ⟨rfl, rfl⟩ := StatementField.eq_body (List.mem_of_getElem? hf) hr
    obtain rfl : 2 = i := index_unique (Kind.fields_nodup _) rfl hf
    exact (hc hm).item hv (fun _ hl hp => .subgraphItem hl hp)
  | body =>
    refine ofData_alike h (fun hm d hd => ?_)
    obtain ⟨i, hi⟩ := List.mem_iff_getElem?.mp hd
    exact (hc hm).item hi (fun _ _ hp => .body hp)
  | statement => exact statement_list_alike h hc
  | endpoint => rfl
  | targets =>
    refine ofData?_alike h (fun hm d hd => ?_)
    obtain ⟨i, hi⟩ := List.mem_iff_getElem?.mp hd
    exact (hc hm).item hi (fun _ _ hp => .targets hp)

end Lists

section Maps

variable {l l' m : List Member} (hp : l.Perm l') (h : List.Forall₂ (MembersAlike mixed) l' m)

include hp h

theorem kind_map_alike (hc : mixed → Unnumbered (.map l)) :
    (Kind.ofMembers none l).toOption = (Kind.ofMembers none m).toOption := by
  rw [Kind.toOption_ofMembers, Kind.toOption_ofMembers,
    FieldReader.ofMembers_same _ (FieldReader.single_uniform _ _) hp
      ((forall₂_mem h).imp ?_)]
  rintro ⟨key, d⟩ ⟨key', e⟩ ⟨ha, rfl, hde⟩
  refine ⟨rfl, fun f hf _ => ?_⟩
  obtain ⟨-, rfl⟩ := ((FieldReader.single "kind".toList Kind.ofDatum).field?_iff key f).mp hf
  have named := fun hm => (hc hm).map l rfl d (hp.mem_iff.mpr ha)
  simp only [FieldReader.single, toOption_map, hde.same.kind named]

theorem subgraph_map_alike (hc : mixed → AllUnnumbered .subgraph (.map l)) :
    (Slots.ofSubgraph (.map l)).toOption = (Slots.ofSubgraph (.map m)).toOption := by
  refine Slots.ofMembers_alike hp h (fun f hf r hr v hv hm => ?_)
  obtain ⟨rfl, rfl⟩ := StatementField.eq_body hf hr
  exact (hc hm).member hv (fun _ hp => .subgraph hp)

theorem statement_map_alike (hc : mixed → AllUnnumbered .statement (.map l)) :
    (Statement.ofDatum (.map l)).toOption = (Statement.ofDatum (.map m)).toOption := by
  have named := fun hm => hc hm [] _ .here rfl
  refine toOption_eq_iff.mpr (fun a => ?_)
  rw [Statement.ofDatum_map_eq_ok_iff, Statement.ofDatum_map_eq_ok_iff]
  simp only [← toOption_eq_iff.mp (kind_map_alike hp h named)]
  refine exists_congr (fun k => exists_congr (fun s => and_congr_right (fun hk => ?_)))
  have kind := fun hm => Kind.ofKind_of_ofMembers ((named hm).map l rfl) hk
  have fields := Slots.ofMembers_alike hp h
    (fun f hf r hr v hv hm => (hc hm).field (kind hm) hf hr hv)
  exact and_congr_left (fun _ => toOption_eq_iff.mp fields s)

theorem endpoint_map_alike (hc : mixed → AllUnnumbered .endpoint (.map l)) :
    Endpoint.ofDatum? (.map l) = Endpoint.ofDatum? (.map m) := by
  show Endpoint.ofMembers? ((none : Option Slots).map Slots.toSubgraph) l =
    Endpoint.ofMembers? ((none : Option Slots).map Slots.toSubgraph) m
  rw [Endpoint.ofMembers?_eq, Endpoint.ofMembers?_eq,
    FieldReader.ofMembers_same _ (FieldReader.single_uniform _ _) hp
      ((forall₂_mem h).imp ?_)]
  rintro ⟨key, d⟩ ⟨key', e⟩ ⟨ha, rfl, hde⟩
  refine ⟨rfl, fun f hf _ => ?_⟩
  let reader := FieldReader.single "subgraph".toList Slots.ofSubgraph
  obtain ⟨-, rfl⟩ := (reader.field?_iff key f).mp hf
  have read : (Slots.ofSubgraph d).toOption = (Slots.ofSubgraph e).toOption :=
    hde.read .subgraph (fun hm => (hc hm).member (hp.mem_iff.mpr ha) (fun _ hp => .inline hp))
  simp only [FieldReader.single, toOption_map, read]

theorem map_alike (r : Role) (hc : mixed → AllUnnumbered r (.map l)) :
    r.read? (.map l) = r.read? (.map m) := by
  cases r with
  | graph =>
    show (Head.ofMembers HeadField.ofGraph {} l).toOption.map Head.toGraph =
      (Head.ofMembers HeadField.ofGraph {} m).toOption.map Head.toGraph
    rw [Head.ofMembers_eq, Head.ofMembers_eq, Head.reader.ofMembers_same Head.uniform hp
      ((forall₂_mem h).imp ?_)]
    rintro ⟨key, d⟩ ⟨key', e⟩ ⟨ha, rfl, hde⟩
    refine ⟨rfl, fun f hf s => Head.read_alike hde ?_ s⟩
    rintro rfl hm
    obtain ⟨-, rfl⟩ := Head.field?_eq_some_iff.mp hf
    exact (hc hm).member (hp.mem_iff.mpr ha) (fun _ hp => .graph hp)
  | subgraph => exact subgraph_map_alike hp h hc
  | body => rfl
  | statement => exact statement_map_alike hp h hc
  | endpoint => exact endpoint_map_alike hp h hc
  | targets =>
    have endpoint : mixed → AllUnnumbered .endpoint (.map l) :=
      fun hm p s hp => hc hm p s (.target hp)
    exact congrArg (Option.map _) (endpoint_map_alike hp h endpoint)

end Maps

/-! ### All values -/

mutual

theorem alike : ∀ {d e : Datum}, Datum.Same mixed d e → d.Distinct → Alike mixed d e
  | _, _, .null, hd => ⟨.null, hd, fun r _ => by cases r <;> rfl⟩
  | _, _, .bool, hd => ⟨.bool, hd, fun r _ => by cases r <;> rfl⟩
  | _, _, .unsigned, hd => ⟨.unsigned, hd, fun r _ => by cases r <;> rfl⟩
  | _, _, .signed, hd => ⟨.signed, hd, fun r _ => by cases r <;> rfl⟩
  | _, _, .withSign hm hn, hd => ⟨.withSign hm hn, hd, fun r _ => by cases r <;> rfl⟩
  | _, _, .withoutSign hm hn, hd => ⟨.withoutSign hm hn, hd, fun r _ => by cases r <;> rfl⟩
  | _, _, .float, hd => ⟨.float, hd, fun r _ => by cases r <;> rfl⟩
  | _, _, .text, hd => ⟨.text, hd, fun r _ => by cases r <;> rfl⟩
  | _, _, .list h, hd => ⟨.list h, hd, list_alike (alikeAll h hd)⟩
  | _, _, .map hp h, hd =>
    ⟨.map hp h, hd, map_alike hp (membersAlike h (Member.DistinctAll.perm hp hd.2))⟩

theorem alikeAll : ∀ {l m : List Datum}, Datum.SameAll mixed l m → Datum.DistinctAll l →
    List.Forall₂ (Alike mixed) l m
  | _, _, .nil, _ => .nil
  | _, _, .cons h r, hd => .cons (alike h hd.1) (alikeAll r hd.2)

theorem membersAlike : ∀ {l m : List Member}, Member.SameAll mixed l m → Member.DistinctAll l →
    List.Forall₂ (MembersAlike mixed) l m
  | _, _, .nil, _ => .nil
  | _, _, .cons h r, hd => .cons ⟨rfl, alike h hd.1⟩ (membersAlike r hd.2)

end

/-- **Equal values are read alike** as any part of a graph, if no kind in it is a number. -/
theorem read?_same {r : Role} {d e : Datum} (h : Datum.Same mixed d e) (hd : d.Distinct)
    (hc : mixed → AllUnnumbered r d) : r.read? d = r.read? e :=
  (alike h hd).read r hc

end Schema

end DotGraph
