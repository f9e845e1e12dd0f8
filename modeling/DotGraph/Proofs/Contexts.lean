import DotGraph.Proofs.Exchange

/-!
# What depends on a part of a description

Of what a part of a description is read as, the rest depends on nothing else: two data that are read
alike as this part can replace each other in the description.

- `Through`: a reading that needs another one and depends on it alone.
- `Schema.Within.through`: a description is read through each of its parts.
-/

set_option autoImplicit false

namespace DotGraph

/-! ## Readings through others -/

/-- One reading needs another one and depends on what that gives alone. -/
def Through {δ α β : Type} (f : δ → Option α) (g : δ → Option β) : Prop :=
  ∃ c : β → Option α, ∀ d, f d = (g d).bind c

namespace Through

variable {δ α β γ : Type} {f : δ → Option α} {g : δ → Option β}

theorem refl (f : δ → Option α) : Through f f :=
  ⟨some, fun d => (Option.bind_fun_some (f d)).symm⟩

theorem trans {h : δ → Option γ} (hf : Through f g) (hg : Through g h) : Through f h := by
  obtain ⟨c, hc⟩ := hf
  obtain ⟨b, hb⟩ := hg
  refine ⟨fun x => (b x).bind c, fun d => ?_⟩
  rw [hc, hb, Option.bind_assoc]

/-- What is made of a reading needs it. -/
theorem bind (hf : Through f g) (k : α → Option γ) : Through (fun d => (f d).bind k) g :=
  trans ⟨k, fun _ => rfl⟩ hf

theorem map (hf : Through f g) (k : α → γ) : Through (fun d => (f d).map k) g :=
  trans ⟨fun a => some (k a), fun _ => Option.map_eq_bind⟩ hf

/-- What cannot be read at all needs everything. -/
theorem none (g : δ → Option β) : Through (fun _ => (Option.none : Option α)) g :=
  ⟨fun _ => Option.none, fun d => (Option.bind_fun_none (g d)).symm⟩

theorem comp {ε : Type} (hf : Through f g) (h : ε → δ) :
    Through (fun x => f (h x)) (fun x => g (h x)) := by
  obtain ⟨c, hc⟩ := hf
  exact ⟨c, fun x => hc (h x)⟩

/-- What can be read has an inner part that can be read. -/
theorem exists_of_eq_some (hf : Through f g) {d : δ} {a : α} (h : f d = some a) :
    ∃ b, g d = some b := by
  obtain ⟨c, hc⟩ := hf
  rw [hc, Option.bind_eq_some_iff] at h
  obtain ⟨b, hb, -⟩ := h
  exact ⟨b, hb⟩

/-- Data on which the inner readings agree can replace each other. -/
theorem congr (hf : Through f g) {d e : δ} (h : g d = g e) : f d = f e := by
  obtain ⟨c, hc⟩ := hf
  rw [hc, hc, h]

/-- A list that is read item by item is read through each item. -/
theorem mapM (g : δ → Option α) (front back : List δ) :
    Through (fun v => (front ++ v :: back).mapM g) g := by
  simp only [List.mapM_append, List.mapM_cons]
  cases front.mapM g with
  | none => exact none g
  | some before =>
    refine ⟨fun a => (back.mapM g).map (fun after => before ++ a :: after), fun v => ?_⟩
    dsimp only
    cases g v with
    | none => rfl
    | some a => cases back.mapM g <;> rfl

end Through

/-! ## Fields -/

namespace FieldReader

variable {σ φ : Type} [DecidableEq φ] (R : FieldReader σ φ) {f : φ}

/-- A field in front that has not been read yet is read, and then the others. -/
theorem toOption_ofMembers_field {key : Text} (hk : R.field? key = some f) {s : σ}
    (hs : R.has s f = false) (d : Datum) (l : List Member) :
    (R.ofMembers s (⟨key, d⟩ :: l)).toOption =
      (R.read s d f).toOption.bind (fun t => (R.ofMembers t l).toOption) := by
  rw [ofMembers, hk]
  simp only [hs, Bool.false_eq_true, if_false]
  cases R.read s d f <;> rfl

/-- A map is read through each of its fields. -/
theorem ofMembers_through {β : Type} (hf : f ∈ R.fields) {g : Datum → Option β}
    (hg : ∀ s, Through (fun v => (R.read s v f).toOption) g) (s : σ) (front back : List Member) :
    Through (fun v => (R.ofMembers s (front ++ ⟨R.text f, v⟩ :: back)).toOption) g := by
  have field := (R.field?_iff _ f).mpr ⟨hf, rfl⟩
  simp only [R.ofMembers_append, toOption_bind]
  cases R.ofMembers s front with
  | error m => exact .none g
  | ok t =>
    show Through (fun v => (R.ofMembers t (⟨R.text f, v⟩ :: back)).toOption) g
    cases free : R.has t f with
    | true =>
      have refused : ∀ v, R.ofMembers t (⟨R.text f, v⟩ :: back) =
          .error (.duplicateField (R.text f)) := fun v => by simp [ofMembers, field, free]
      simp only [refused]
      exact .none g
    | false =>
      simp only [R.toOption_ofMembers_field field free]
      exact (hg t).bind _

end FieldReader

namespace Schema

/-- What a part of a description is read as. -/
def Site.Part : Site → Type
  | .graph => Graph
  | .subgraph => Subgraph
  | .body => List Statement
  | .statement => Statement
  | .endpoint => Endpoint
  | .targets => List Endpoint
  | .lists => List Attrs
  | .attributes => Attrs
  | .value => Value

/-- Reads a part of a description. -/
def Site.read? : (s : Site) → Datum → Option s.Part
  | .graph, d => Graph.ofDatum? d
  | .subgraph, d => (Slots.ofSubgraph d).toOption.map Slots.toSubgraph
  | .body, d => d.asBody.toOption
  | .statement, d => (Statement.ofDatum d).toOption
  | .endpoint, d => Endpoint.ofDatum? d
  | .targets, d => Endpoint.targetsOf? d
  | .lists, d => (Attrs.listOfDatum d).toOption
  | .attributes, d => (Attrs.ofDatum d).toOption
  | .value, d => Value.ofDatum? d

end Schema

open Schema

namespace Slots

theorem fillingOf_through {f : StatementField} {s : Site} (hs : f.site? = some s) :
    Through (fun v => (fillingOf v f).toOption) s.read? := by
  cases f with
  | id | component | key | name => cases hs
  | value =>
    cases hs
    refine ⟨fun x => some (.value x), fun v => ?_⟩
    simp only [fillingOf, Site.read?]
    cases Value.ofDatum? v <;> rfl
  | source =>
    cases hs
    refine ⟨fun x => some (.source x), fun v => ?_⟩
    simp only [fillingOf, Site.read?]
    cases Endpoint.ofDatum? v <;> rfl
  | targets =>
    cases hs
    refine ⟨fun x => some (.targets x), fun v => ?_⟩
    simp only [fillingOf, Site.read?]
    cases Endpoint.targetsOf? v <;> rfl
  | lists | attributes | body =>
    cases hs
    simp only [fillingOf, toOption_map]
    exact (Through.refl _).map _

/-- Fields are read through what they hold. -/
theorem read_through {f : StatementField} {s : Site} (hs : f.site? = some s) (r : Slots) :
    Through (fun v => (r.read v f).toOption) s.read? := by
  simp only [read_eq_fill, toOption_map]
  exact (fillingOf_through hs).map _

theorem ofMembers_through {k : Kind} {f : StatementField} (hf : f ∈ k.fields) {s : Site}
    (hs : f.site? = some s) (r : Slots) (front back : List Member) :
    Through (fun v => (ofMembers k r (front ++ ⟨f.text, v⟩ :: back)).toOption) s.read? := by
  simp only [ofMembers_eq]
  exact (reader k).ofMembers_through hf (read_through hs) r front back

theorem ofItems_through {k : Kind} {f : StatementField} {s : Site} (hs : f.site? = some s)
    (back : List Datum) : ∀ (front : List Datum) {fs : List StatementField},
      fs[front.length]? = some f → ∀ (r : Slots) (n : Nat),
      Through (fun v => (ofItems k r fs n (front ++ v :: back)).toOption) s.read?
  | [], [], hf, _, _ => by cases hf
  | _ :: _, [], hf, _, _ => by cases hf
  | [], g :: fs, hf, r, n => by
    obtain rfl : g = f := Option.some.inj hf
    have rest := (read_through hs r).bind (fun t => (ofItems k t fs (n + 1) back).toOption)
    have read : ∀ v, (ofItems k r (g :: fs) n (v :: back)).toOption =
        (r.read v g).toOption.bind (fun t => (ofItems k t fs (n + 1) back).toOption) := by
      intro v
      rw [ofItems_cons]
      cases r.read v g <;> rfl
    simpa only [List.nil_append, read] using rest
  | d :: front, g :: fs, hf, r, n => by
    simp only [List.cons_append, ofItems_cons]
    cases r.read d g with
    | error m => exact .none _
    | ok t => exact ofItems_through hs back front hf t (n + 1)

end Slots

namespace Head

theorem fillingOf_through {f : HeadField} {s : Site} (hs : f.site? = some s) :
    Through (fun v => (fillingOf v f).toOption) s.read? := by
  cases f with
  | strict | directed | name => cases hs
  | attributes | body =>
    cases hs
    simp only [fillingOf, toOption_map]
    exact (Through.refl _).map _

theorem read_through {f : HeadField} {s : Site} (hs : f.site? = some s) (r : Head) :
    Through (fun v => (r.readDatum v f).toOption) s.read? := by
  simp only [read_eq_fill, toOption_map]
  exact (fillingOf_through hs).map _

theorem ofMembers_through {f : HeadField} {s : Site} (hs : f.site? = some s) (r : Head)
    (front back : List Member) :
    Through (fun v => (ofMembers HeadField.ofGraph r (front ++ ⟨f.text, v⟩ :: back)).toOption)
      s.read? := by
  have hf : f ∈ reader.fields := by cases f <;> decide
  simp only [ofMembers_eq]
  exact reader.ofMembers_through hf (read_through hs) r front back

theorem ofData?_through {f : HeadField} {s : Site} (hs : f.site? = some s) (back : List Datum) :
    ∀ (front : List Datum) {fs : List HeadField}, fs[front.length]? = some f → ∀ r : Head,
      Through (fun v => ofData? r fs (front ++ v :: back)) s.read?
  | [], [], hf, _ => by cases hf
  | _ :: _, [], hf, _ => by cases hf
  | [], g :: fs, hf, r => by
    obtain rfl : g = f := Option.some.inj hf
    have rest := (read_through hs r).bind (fun t => ofData? t fs back)
    have read : ∀ v, ofData? r (g :: fs) (v :: back) =
        (r.readDatum v g).toOption.bind (fun t => ofData? t fs back) := by
      intro v
      rw [ofData?]
      cases r.readDatum v g <;> rfl
    simpa only [List.nil_append, read] using rest
  | d :: front, g :: fs, hf, r => by
    simp only [List.cons_append, ofData?]
    cases r.readDatum d g with
    | error m => exact .none _
    | ok t => exact ofData?_through hs back front hf t

end Head

/-! ## Parts -/

theorem Attrs.ofMembers_through (key : Text) (back : List Member) :
    ∀ (front : List Member) (a : Attrs),
      Through (fun v => (ofMembers a (front ++ ⟨key, v⟩ :: back)).toOption) Value.ofDatum?
  | [], a => by
    refine ⟨fun x => (ofMembers (a.set key x) back).toOption, fun v => ?_⟩
    simp only [List.nil_append, ofMembers]
    cases Value.ofDatum? v <;> rfl
  | ⟨k, d⟩ :: front, a => by
    simp only [List.cons_append, ofMembers]
    cases Value.ofDatum? d with
    | none => exact .none _
    | some x => exact ofMembers_through key back front (a.set k x)

theorem Endpoint.ofMembers?_through (back : List Member) :
    ∀ (front : List Member) (found : Option Subgraph),
      Through (fun v => ofMembers? found (front ++ ⟨"subgraph".toList, v⟩ :: back))
        Site.subgraph.read?
  | [], found => by
    simp only [List.nil_append, ofMembers?_cons, if_true]
    cases found with
    | some s => exact .none _
    | none =>
      refine ⟨fun s => ofMembers? (some s) back, fun v => ?_⟩
      simp only [Site.read?]
      cases Slots.ofSubgraph v <;> rfl
  | ⟨key, d⟩ :: front, found => by
    simp only [List.cons_append, ofMembers?_cons]
    split
    · cases found with
      | some s => exact .none _
      | none =>
        cases Slots.ofSubgraph d with
        | error m => exact .none _
        | ok s => exact ofMembers?_through back front (some s.toSubgraph)
    · exact ofMembers?_through back front found

/-- A map is read as a statement by its kind and the fields of this kind. -/
theorem Statement.toOption_ofDatum_map (l : List Member) : (ofDatum (.map l)).toOption =
    (Kind.ofMembers none l).toOption.bind (fun k =>
      (Slots.ofMembers k {} l).toOption.bind (fun t => (t.toStatement k).toOption)) := by
  refine Option.ext (fun a => ?_)
  rw [toOption_eq_some_iff, ofDatum_map_eq_ok_iff]
  simp only [Option.bind_eq_some_iff, toOption_eq_some_iff, exists_and_left]

/-- A map is read as a statement of each kind that one of its members gives. -/
theorem Statement.toOption_ofDatum_map_of_kind {k : Kind} {l : List Member} (hk : HasKind l k) :
    (ofDatum (.map l)).toOption = (Kind.ofMembers none l).toOption.bind (fun _ =>
      (Slots.ofMembers k {} l).toOption.bind (fun t => (t.toStatement k).toOption)) := by
  rw [toOption_ofDatum_map]
  cases hj : Kind.ofMembers none l with
  | error m => rfl
  | ok j =>
    obtain ⟨d, hd, hk⟩ := hk
    have same := (Kind.ofDatum_of_ofMembers hj).2 d hd
    obtain rfl : k = j := Except.ok.inj (hk.symm.trans same)
    rfl

theorem Statement.ofDatum_map_through {k : Kind} {f : StatementField} (hf : f ∈ k.fields) {s : Site}
    (hs : f.site? = some s) {front back : List Member} (hk : HasKind (front ++ back) k) :
    Through (fun v => (ofDatum (.map (front ++ ⟨f.text, v⟩ :: back))).toOption) s.read? := by
  have kind : ∀ v, Kind.ofMembers none (front ++ ⟨f.text, v⟩ :: back) =
      Kind.ofMembers none (front ++ ⟨f.text, .null⟩ :: back) :=
    fun v => Kind.ofMembers_exchange f.text_ne_kind v .null front none
  have fields := (Slots.ofMembers_through hf hs {} front back).bind
    (fun t => (t.toStatement k).toOption)
  simp only [toOption_ofDatum_map_of_kind (hk.insert _), kind]
  cases Kind.ofMembers none (front ++ ⟨f.text, .null⟩ :: back) with
  | error m => exact .none _
  | ok j => exact fields

theorem Statement.ofDatum_list_through {k : Kind} {kind : Datum} (hk : Kind.ofDatum kind = .ok k)
    {f : StatementField} {s : Site} {front : List Datum} (back : List Datum)
    (hf : k.fields[front.length]? = some f) (hs : f.site? = some s) :
    Through (fun v => (ofDatum (.list (kind :: front ++ v :: back))).toOption) s.read? := by
  have read : ∀ v, (ofDatum (.list (kind :: front ++ v :: back))).toOption =
      (Slots.ofItems k {} k.fields 0 (front ++ v :: back)).toOption.bind (fun t =>
        (t.toStatement k).toOption) := by
    intro v
    rw [List.cons_append, ofDatum, hk]
    cases hx : Slots.ofItems k {} k.fields 0 (front ++ v :: back) <;> simp only [hx] <;> rfl
  simp only [read]
  exact (Slots.ofItems_through hs back front hf {} 0).bind _

namespace Schema

/-! ## All parts -/

/-- A single target is read as a list of one. -/
theorem targetsOf?_of_not_list {d : Datum} (hd : ∀ l, d ≠ .list l) :
    Endpoint.targetsOf? d = (Endpoint.ofDatum? d).map (fun e => [e]) := by
  cases d with
  | list l => exact absurd rfl (hd l)
  | null | bool | unsigned | signed | float | text | map => rfl

/-- A single attribute list is read as a list of one. -/
theorem toOption_listOfDatum_map (l : List Member) :
    (Attrs.listOfDatum (.map l)).toOption =
      (Attrs.ofDatum (.map l)).toOption.map (fun a => [a]) := by
  simp only [Attrs.listOfDatum]
  cases Attrs.ofDatum (.map l) <;> rfl

theorem toOption_listOfDatum_list (l : List Datum) :
    (Attrs.listOfDatum (.list l)).toOption = l.mapM Site.attributes.read? := by
  refine Eq.trans ?_ (Attrs.ofData?_eq_mapM l)
  simp only [Attrs.listOfDatum]
  cases Attrs.ofData? l <;> rfl

/-- **A description is read through each of its parts.** -/
theorem Within.through {s t : Site} {p : List Layer} (h : Within s p t) :
    Through (fun d => s.read? (surround p d)) t.read? := by
  induction h with
  | here => exact .refl _
  | @graph f s t front back p hs _ ih =>
    have field := (Head.ofMembers_through hs {} front back).map Head.toGraph
    exact (field.comp (surround p)).trans ih
  | @graphItem f s t front back p hf hs _ ih =>
    have field := (Head.ofData?_through hs back front hf {}).map Head.toGraph
    exact (field.comp (surround p)).trans ih
  | @subgraph f s t front back p hf hs _ ih =>
    have field := (Slots.ofMembers_through hf hs {} front back).map Slots.toSubgraph
    exact (field.comp (surround p)).trans ih
  | @subgraphItem f s t front back p hf hs _ ih =>
    have items := Slots.ofItems_through (k := .subgraph) hs back front hf {} 0
    have field := items.map Slots.toSubgraph
    exact (field.comp (surround p)).trans ih
  | @body t front back p _ ih =>
    have item := Through.mapM Site.statement.read? front back
    have read : ∀ v, Site.body.read? (.list (front ++ v :: back)) =
        (front ++ v :: back).mapM Site.statement.read? := fun v => Statement.toOption_ofData _
    simp only [← read] at item
    exact (item.comp (surround p)).trans ih
  | @statement k f s t front back p hk hf hs _ ih =>
    have field := Statement.ofDatum_map_through hf hs hk
    exact (field.comp (surround p)).trans ih
  | @statementItem k f s t kind front back p hk hf hs _ ih =>
    have field := Statement.ofDatum_list_through hk back hf hs
    exact (field.comp (surround p)).trans ih
  | @endpoint t front back p _ ih =>
    have inner := Endpoint.ofMembers?_through back front none
    exact (inner.comp (surround p)).trans ih
  | @target t layer p hp ih =>
    -- layers around a part of an endpoint begin with a map, so it is no list of targets
    have single : ∀ d, Site.targets.read? (surround (layer :: p) d) =
        (Site.endpoint.read? (surround (layer :: p) d)).map (fun e => [e]) := by
      cases hp with
      | endpoint => exact fun _ => rfl
    simp only [single]
    exact ih.map _
  | @targets t front back p _ ih =>
    have item := Through.mapM Site.endpoint.read? front back
    have read : ∀ v, Site.targets.read? (.list (front ++ v :: back)) =
        (front ++ v :: back).mapM Site.endpoint.read? := fun v => Endpoint.ofData?_eq_mapM _
    simp only [← read] at item
    exact (item.comp (surround p)).trans ih
  | @single t layer p hp ih =>
    have single : ∀ d, Site.lists.read? (surround (layer :: p) d) =
        (Site.attributes.read? (surround (layer :: p) d)).map (fun a => [a]) := by
      cases hp with
      | attributes => exact fun _ => toOption_listOfDatum_map _
    simp only [single]
    exact ih.map _
  | @lists t front back p _ ih =>
    have item := Through.mapM Site.attributes.read? front back
    have read : ∀ v, Site.lists.read? (.list (front ++ v :: back)) =
        (front ++ v :: back).mapM Site.attributes.read? := fun v => toOption_listOfDatum_list _
    simp only [← read] at item
    exact (item.comp (surround p)).trans ih
  | @attributes t front back key p _ ih =>
    have entry := Attrs.ofMembers_through key back front .empty
    exact (entry.comp (surround p)).trans ih

end Schema

end DotGraph
