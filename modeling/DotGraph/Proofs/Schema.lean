import DotGraph.Proofs.Acceptance

/-!
# Reading decides the schema

Where no rule of its own applies and no map repeats a key, a datum is read exactly if it conforms to
the schema, whatever part of a graph it stands for. So it is with whole JSON texts.

- `Schema.decides`: reading decides whether a datum conforms.
- `Schema.Conforms.not_irregular`: what conforms is not irregular.
- `parseJson_iff_conforms`: which JSON texts are read.
-/

set_option autoImplicit false

namespace DotGraph

/-! ## Deciding the schema -/

namespace Schema

/-- Reading a datum decides whether it conforms, whatever part of a graph it stands for. -/
structure Decides (d : Datum) : Prop where
  endpoint : ¬ Irregular .endpoint d →
    ((∃ e, Endpoint.ofDatum? d = some e) ↔ Conforms .endpoint d)
  targets : ¬ Irregular .targets d →
    ((∃ l, Endpoint.targetsOf? d = some l ∧ l ≠ []) ↔ Conforms .targets d)
  statement : ¬ Irregular .statement d →
    ((∃ a, Statement.ofDatum d = .ok a) ↔ Conforms .statement d)
  body : ¬ Irregular .body d → ((∃ b, d.asBody = .ok b) ↔ Conforms .body d)
  subgraph : ¬ Irregular .subgraph d → ((∃ s, Slots.ofSubgraph d = .ok s) ↔ Conforms .subgraph d)

/-- A single endpoint is also a list of targets. -/
theorem decides_targets {d : Datum} (hl : ∀ l, d ≠ .list l)
    (h : ¬ Irregular .endpoint d → ((∃ e, Endpoint.ofDatum? d = some e) ↔ Conforms .endpoint d))
    (hr : ¬ Irregular .targets d) :
    (∃ l, Endpoint.targetsOf? d = some l ∧ l ≠ []) ↔ Conforms .targets d := by
  have single : Endpoint.targetsOf? d = (Endpoint.ofDatum? d).map (fun e => [e]) := by
    cases d with
    | list l => exact absurd rfl (hl l)
    | null | bool | unsigned | signed | float | text | map => rfl
  have endpoint := h (fun hi => hr (.target hi))
  constructor
  · rintro ⟨l, hd, -⟩
    rw [single, Option.map_eq_some_iff] at hd
    obtain ⟨e, he, -⟩ := hd
    exact .target (endpoint.mp ⟨e, he⟩)
  · intro hc
    cases hc with
    | target hc =>
      obtain ⟨e, he⟩ := endpoint.mpr hc
      exact ⟨[e], by rw [single, he]; rfl, List.cons_ne_nil _ _⟩
    | targets => exact absurd rfl (hl _)

/-- What is no map is at most the id of a node. -/
theorem endpoint_iff {d : Datum} (hm : ∀ l, d ≠ .map l) :
    (∃ e, Endpoint.ofDatum? d = some e) ↔ Conforms .endpoint d := by
  constructor
  · rintro ⟨e, he⟩
    refine .named ?_
    cases d with
    | text t =>
      rw [Endpoint.ofDatum?, Endpoint.ofText?] at he
      split at he
      · rename_i id hid
        exact ⟨t, id, rfl, hid⟩
      · cases he
    | map l => exact absurd rfl (hm l)
    | null | bool | unsigned | signed | float | list => cases he
  · intro hc
    cases hc with
    | named h =>
      obtain ⟨t, id, rfl, hid⟩ := h
      exact ⟨.node id, by simp only [Endpoint.ofDatum?, Endpoint.ofText?, hid]⟩
    | inline => exact absurd rfl (hm _)

theorem not_conforms_endpoint_list {l : List Datum} : ¬ Conforms .endpoint (.list l) := by
  intro hc
  obtain ⟨e, he⟩ := (endpoint_iff (by simp)).mpr hc
  cases he

/-- A value that is neither a list nor a map is at most an endpoint. -/
theorem decides_scalar {d : Datum} (hl : ∀ l, d ≠ .list l) (hm : ∀ l, d ≠ .map l) :
    Decides d where
  endpoint _ := endpoint_iff hm
  targets := decides_targets hl (fun _ => endpoint_iff hm)
  statement _ := by
    refine iff_of_false ?_ ?_
    · rintro ⟨a, ha⟩
      cases d with
      | list l => exact hl l rfl
      | map l => exact hm l rfl
      | null | bool | unsigned | signed | float | text => simp [Statement.ofDatum] at ha
    · intro hc
      cases hc <;> exact hm _ rfl
  body _ := by
    refine iff_of_false ?_ ?_
    · rintro ⟨b, hb⟩
      cases d with
      | list l => exact hl l rfl
      | null | bool | unsigned | signed | float | text | map => cases hb
    · intro hc
      cases hc
      exact hl _ rfl
  subgraph _ := by
    refine iff_of_false ?_ ?_
    · rintro ⟨s, hs⟩
      cases d with
      | list l => exact hl l rfl
      | map l => exact hm l rfl
      | null | bool | unsigned | signed | float | text => cases hs
    · intro hc
      cases hc
      exact hm _ rfl

/-- A list is read item by item. -/
theorem decides_list {l : List Datum} (h : ∀ d ∈ l, Decides d) : Decides (.list l) where
  endpoint _ := endpoint_iff (by simp)
  targets hr := by
    have items : (∀ d ∈ l, ∃ e, Endpoint.ofDatum? d = some e) ↔
        ∀ d ∈ l, Conforms .endpoint d :=
      forall₂_congr (fun d hd => (h d hd).endpoint (fun hi => hr (.targets hd hi)))
    rw [← Endpoint.ofData?_isSome_iff] at items
    constructor
    · rintro ⟨es, hes, hne⟩
      refine .targets ?_ (items.mp ⟨es, hes⟩)
      rintro rfl
      cases hes
      exact hne rfl
    · intro hc
      cases hc with
      | target hc => exact absurd hc not_conforms_endpoint_list
      | targets hne hc =>
        obtain ⟨es, hes⟩ := items.mpr hc
        refine ⟨es, hes, ?_⟩
        rintro rfl
        have empty : Datum.list l = .list [] := Endpoint.targetsOf?_eq_nil_iff.mp hes
        exact hne (Datum.list.inj empty)
  statement hr := absurd .statementList hr
  body hr := by
    have items : (∀ d ∈ l, ∃ a, Statement.ofDatum d = .ok a) ↔
        ∀ d ∈ l, Conforms .statement d :=
      forall₂_congr (fun d hd => (h d hd).statement (fun hi => hr (.body hd hi)))
    rw [Datum.asBody, Statement.ofData_ok_iff, items]
    constructor
    · exact .body
    · intro hc
      cases hc with
      | body hc => exact hc
  subgraph hr := absurd .subgraphList hr

/-! ### Fields -/

/-- The form of the datum of a field. -/
def Form : StatementField → Datum → Prop
  | .id => Datum.IsId
  | .source => Conforms .endpoint
  | .targets => Conforms .targets
  | .component => Datum.IsComponent
  | .key => Datum.IsText
  | .value => Datum.IsValue
  | .lists => Datum.IsAttrsList
  | .name => Datum.IsName
  | .attributes => Datum.IsAttrs
  | .body => Conforms .body

/-- The datum of a field is not irregular. -/
def Regular : StatementField → Datum → Prop
  | .source, d => ¬ Irregular .endpoint d
  | .targets, d => ¬ Irregular .targets d
  | .component, d => d.IsText
  | .body, d => ¬ Irregular .body d
  | .id, _ | .key, _ | .value, _ | .lists, _ | .name, _ | .attributes, _ => True

/-- A field other than the targets can be read from a datum that has its form. -/
theorem readable_iff_form {d : Datum} (hd : d.Distinct) (h : Decides d) {f : StatementField}
    (hf : f ≠ .targets) (hr : Regular f d) : Slots.Readable d f ↔ Form f d := by
  cases f with
  | id => exact NodeId.ofDatum_ok_iff
  | component => exact Component.ofDatum_ok_iff hr
  | key => exact Datum.asText_ok_iff
  | value => exact Value.ofDatum?_isSome_iff hd
  | lists => exact Attrs.listOfDatum_ok_iff hd
  | name => exact Datum.asName_ok_iff
  | attributes => exact Attrs.ofDatum_ok_iff hd
  | source => exact h.endpoint hr
  | body => exact h.body hr
  | targets => exact absurd rfl hf

/-- A datum has the form for a field if the field can be read from it; but there have to be
targets. -/
theorem form_iff {d : Datum} (hd : d.Distinct) (h : Decides d) {f : StatementField}
    (hr : Regular f d) :
    Form f d ↔ Slots.Readable d f ∧ (f = .targets → d ≠ .list []) := by
  by_cases hf : f = .targets
  · subst hf
    rw [Form, ← h.targets hr, Slots.Readable]
    simp only [forall_const, ne_eq, ← Endpoint.targetsOf?_eq_nil_iff]
    cases Endpoint.targetsOf? d <;> simp
  · rw [readable_iff_form hd h hf hr]
    simp only [hf, false_imp_iff, and_true]

/-- The fields of a statement are regular if the statement is. -/
theorem regular_of_mem {l : List Member} (hr : ¬ Irregular .statement (.map l)) {k : Kind}
    (hk : OfKind l k) {f : StatementField} (hf : f ∈ k.fields) {v : Datum}
    (hv : ⟨f.text, v⟩ ∈ l) : Regular f v := by
  cases f with
  | id | key | value | lists | name | attributes => trivial
  | source =>
    obtain rfl : k = .edge := Kind.eq_of_mem_fields hf (by decide) nofun
    exact fun hi => hr (.source hk hv hi)
  | targets =>
    obtain rfl : k = .edge := Kind.eq_of_mem_fields hf (by decide) nofun
    exact fun hi => hr (.goal hk hv hi)
  | component =>
    obtain rfl : k = .attr := Kind.eq_of_mem_fields hf (by decide) nofun
    exact Classical.byContradiction (fun hi => hr (.component hk hv hi))
  | body =>
    obtain rfl : k = .subgraph := Kind.eq_of_mem_fields hf (by decide) nofun
    exact fun hi => hr (.nested hk (.subgraph hv hi))

/-- A statement has one kind. -/
theorem OfKind.unique {l : List Member} (hl : (l.map Member.key).Nodup) {j k : Kind}
    (hj : OfKind l j) (hk : OfKind l k) : j = k :=
  Kind.name_injective (Datum.text.inj (Member.value_unique hl hj hk))

/-- With one kind a statement is irregular only through the fields of that kind. -/
theorem not_irregular_of_fields {l : List Member} (hl : (l.map Member.key).Nodup) {k : Kind}
    (hk : OfKind l k) (hf : ∀ f ∈ k.fields, ∀ v, ⟨f.text, v⟩ ∈ l → Regular f v) :
    ¬ Irregular .statement (.map l) := by
  have same : ∀ {j : Kind}, OfKind l j → j = k := fun hj => hj.unique hl hk
  intro hi
  cases hi with
  | kind hv hn => exact hn ⟨_, Member.value_unique hl hv hk⟩
  | component hj hv hn =>
    obtain rfl := same hj
    exact hn (hf .component (by decide) _ hv)
  | source hj hv hi =>
    obtain rfl := same hj
    exact hf .source (by decide) _ hv hi
  | goal hj hv hi =>
    obtain rfl := same hj
    exact hf .targets (by decide) _ hv hi
  | nested hj hi =>
    obtain rfl := same hj
    cases hi with
    | subgraph hv hi => exact hf .body (by decide) _ hv hi

/-- A field is there unless it may be left out, and has its form. -/
def Fits (l : List Member) (f : StatementField) : Prop :=
  (f.required = true → ∃ v, ⟨f.text, v⟩ ∈ l) ∧ Optional l f.text (Form f)

theorem fits_iff_required {l : List Member} (hl : (l.map Member.key).Nodup) {f : StatementField}
    (hf : f.required = true) : Fits l f ↔ Required l f.text (Form f) := by
  rw [Fits, required_iff hl]
  simp only [hf, forall_const]

theorem fits_iff_optional {l : List Member} {f : StatementField} (hf : f.required = false) :
    Fits l f ↔ Optional l f.text (Form f) := by
  simp only [Fits, hf, Bool.false_eq_true, false_imp_iff, true_and]

/-- A subgraph conforms if its fields have their forms. -/
theorem conforms_subgraph_iff {l : List Member} : Conforms .subgraph (.map l) ↔
    ∀ f ∈ Kind.subgraph.fields, Optional l f.text (Form f) := by
  rw [Kind.forall_fields_iff]
  constructor
  · intro hc
    cases hc with
    | subgraph hn ha hb => exact ⟨hn, ha, hb⟩
  · rintro ⟨hn, ha, hb⟩
    exact .subgraph hn ha hb

/-- A statement conforms if all fields of its kind fit. -/
theorem conforms_statement_iff {l : List Member} (hl : (l.map Member.key).Nodup) :
    Conforms .statement (.map l) ↔ ∃ k, OfKind l k ∧ ∀ f ∈ k.fields, Fits l f := by
  have required := fun f hf => fits_iff_required hl (f := f) hf
  have optional := fun f hf => fits_iff_optional (l := l) (f := f) hf
  constructor
  · intro hc
    cases hc with
    | node hk hid hlists =>
      exact ⟨.node, hk, Kind.forall_fields_iff.mpr
        ⟨(required .id rfl).mpr hid, (optional .lists rfl).mpr hlists⟩⟩
    | edge hk hs hcs ht hct hlists =>
      exact ⟨.edge, hk, Kind.forall_fields_iff.mpr
        ⟨(required .source rfl).mpr ⟨_, hs, hcs⟩, (required .targets rfl).mpr ⟨_, ht, hct⟩,
          (optional .lists rfl).mpr hlists⟩⟩
    | attr hk hc hlists =>
      exact ⟨.attr, hk, Kind.forall_fields_iff.mpr
        ⟨(required .component rfl).mpr hc, (optional .lists rfl).mpr hlists⟩⟩
    | assign hk hkey hv =>
      exact ⟨.assign, hk, Kind.forall_fields_iff.mpr
        ⟨(required .key rfl).mpr hkey, (required .value rfl).mpr hv⟩⟩
    | nested hk hc =>
      obtain ⟨hn, ha, hb⟩ := Kind.forall_fields_iff.mp (conforms_subgraph_iff.mp hc)
      exact ⟨.subgraph, hk, Kind.forall_fields_iff.mpr
        ⟨(optional .name rfl).mpr hn, (optional .attributes rfl).mpr ha,
          (optional .body rfl).mpr hb⟩⟩
  · rintro ⟨k, hk, hf⟩
    have hf := Kind.forall_fields_iff.mp hf
    cases k with
    | node =>
      obtain ⟨hid, hlists⟩ := hf
      exact .node hk ((required .id rfl).mp hid) ((optional .lists rfl).mp hlists)
    | edge =>
      obtain ⟨hs, ht, hlists⟩ := hf
      obtain ⟨s, hs, hcs⟩ := (required .source rfl).mp hs
      obtain ⟨t, ht, hct⟩ := (required .targets rfl).mp ht
      exact .edge hk hs hcs ht hct ((optional .lists rfl).mp hlists)
    | attr =>
      obtain ⟨hc, hlists⟩ := hf
      exact .attr hk ((required .component rfl).mp hc) ((optional .lists rfl).mp hlists)
    | assign =>
      obtain ⟨hkey, hv⟩ := hf
      exact .assign hk ((required .key rfl).mp hkey) ((required .value rfl).mp hv)
    | subgraph =>
      obtain ⟨hn, ha, hb⟩ := hf
      exact .nested hk (.subgraph ((optional .name rfl).mp hn) ((optional .attributes rfl).mp ha)
        ((optional .body rfl).mp hb))

/-! ### Maps -/

section Maps

variable {l : List Member} (hd : (Datum.map l).Distinct) (h : ∀ m ∈ l, Decides m.value)

include hd h

theorem decides_map_endpoint (hr : ¬ Irregular .endpoint (.map l)) :
    (∃ e, Endpoint.ofDatum? (.map l) = some e) ↔ Conforms .endpoint (.map l) := by
  have subgraph : ∀ {v}, ⟨"subgraph".toList, v⟩ ∈ l →
      ((∃ s, Slots.ofSubgraph v = .ok s) ↔ Conforms .subgraph v) :=
    fun hv => (h _ hv).subgraph (fun hi => hr (.inline hv hi))
  rw [Endpoint.ofDatum?, Endpoint.ofMembers?_isSome_iff hd.1]
  constructor
  · rintro ⟨v, hv, hs⟩
    exact .inline hv ((subgraph hv).mp hs)
  · intro hc
    cases hc with
    | named hid =>
      obtain ⟨t, id, e, -⟩ := hid
      cases e
    | inline hv hc => exact ⟨_, hv, (subgraph hv).mpr hc⟩

theorem decides_map_statement (hr : ¬ Irregular .statement (.map l)) :
    (∃ a, Statement.ofDatum (.map l) = .ok a) ↔ Conforms .statement (.map l) := by
  have kinds : ∀ v, ⟨"kind".toList, v⟩ ∈ l → v.IsText :=
    fun v hv => Classical.byContradiction (fun hi => hr (.kind hv hi))
  rw [Statement.ofDatum_ok_iff hd.1 kinds, conforms_statement_iff hd.1]
  refine exists_congr (fun k => and_congr_right (fun hk => ?_))
  have form : ∀ f ∈ k.fields, ∀ v, ⟨f.text, v⟩ ∈ l →
      (Form f v ↔ Slots.Readable v f ∧ (f = .targets → v ≠ .list [])) :=
    fun f hf v hv => form_iff (Member.DistinctAll.of_mem hd.2 _ hv) (h _ hv)
      (regular_of_mem hr hk hf hv)
  -- that there are targets is seen only once all fields are read, but is part of their form
  constructor
  · rintro ⟨hread, hreq, hto⟩ f hf
    refine ⟨hreq f hf, fun v hv => (form f hf v hv).mpr ⟨hread f hf v hv, ?_⟩⟩
    rintro rfl rfl
    exact hto (Kind.eq_of_mem_fields hf (by decide) nofun) hv
  · intro hfits
    have fits : ∀ f ∈ k.fields, ∀ v, ⟨f.text, v⟩ ∈ l →
        Slots.Readable v f ∧ (f = .targets → v ≠ .list []) :=
      fun f hf v hv => (form f hf v hv).mp ((hfits f hf).2 v hv)
    refine ⟨fun f hf v hv => (fits f hf v hv).1, fun f hf => (hfits f hf).1, ?_⟩
    rintro rfl hv
    exact (fits .targets (by decide) _ hv).2 rfl rfl

theorem decides_map_subgraph (hr : ¬ Irregular .subgraph (.map l)) :
    (∃ s, Slots.ofSubgraph (.map l) = .ok s) ↔ Conforms .subgraph (.map l) := by
  have read := Slots.ofMembers_ok_iff (k := .subgraph) hd.1
  have body : ∀ v, ⟨"statements".toList, v⟩ ∈ l → Regular .body v :=
    fun v hv hi => hr (.subgraph hv hi)
  have form : ∀ {f : StatementField} {v : Datum}, ⟨f.text, v⟩ ∈ l → Regular f v →
      f ≠ .targets → (Slots.Readable v f ↔ Form f v) :=
    fun hv hr hf => readable_iff_form (Member.DistinctAll.of_mem hd.2 _ hv) (h _ hv) hf hr
  rw [Slots.ofSubgraph, read, conforms_subgraph_iff, Kind.forall_fields_iff,
    Kind.forall_fields_iff]
  refine and_congr ?_ (and_congr ?_ ?_)
  · exact forall₂_congr (fun v hv => form hv trivial nofun)
  · exact forall₂_congr (fun v hv => form hv trivial nofun)
  · exact forall₂_congr (fun v hv => form hv (body v hv) nofun)

/-- A map is read field by field. -/
theorem decides_map : Decides (.map l) where
  endpoint := decides_map_endpoint hd h
  targets := decides_targets (by simp) (decides_map_endpoint hd h)
  statement := decides_map_statement hd h
  body _ := iff_of_false nofun nofun
  subgraph := decides_map_subgraph hd h

end Maps

mutual

/-- **Reading decides whether a datum conforms.** -/
theorem decides : ∀ d : Datum, d.Distinct → Decides d
  | .list l, hd => decides_list (decides_items l hd)
  | .map l, hd => decides_map hd (decides_members l hd.2)
  | .null, _ | .bool _, _ | .unsigned _, _ | .signed _, _ | .float _, _ | .text _, _ =>
    decides_scalar (by simp) (by simp)

theorem decides_items : ∀ l : List Datum, Datum.DistinctAll l → ∀ d ∈ l, Decides d
  | e :: r, h, d, hd => by
    rw [Datum.DistinctAll] at h
    rcases List.mem_cons.mp hd with he | hd
    · exact he ▸ decides e h.1
    · exact decides_items r h.2 d hd

theorem decides_members : ∀ l : List Member, Member.DistinctAll l → ∀ m ∈ l, Decides m.value
  | ⟨k, e⟩ :: r, h, m, hm => by
    rw [Member.DistinctAll] at h
    rcases List.mem_cons.mp hm with he | hm
    · exact he ▸ decides e h.1
    · exact decides_members r h.2 m hm

end

/-! ## Graphs -/

/-- The form of the datum of a field of a graph. -/
def HeadForm : HeadField → Datum → Prop
  | .strict | .directed => Datum.IsBool
  | .name => Datum.IsName
  | .attributes => Datum.IsAttrs
  | .body => Conforms .body

/-- A graph conforms if its fields have their forms. -/
theorem conforms_graph_iff {l : List Member} : Conforms .graph (.map l) ↔
    ∀ f ∈ HeadField.ofGraph, Optional l f.text (HeadForm f) := by
  simp only [HeadField.ofGraph, List.forall_mem_cons, List.not_mem_nil, false_imp_iff,
    implies_true, and_true]
  constructor
  · intro hc
    cases hc with
    | graph hs hd hc =>
      cases hc with
      | subgraph hn ha hb => exact ⟨hs, hd, hn, ha, hb⟩
  · rintro ⟨hs, hd, hn, ha, hb⟩
    exact .graph hs hd (.subgraph hn ha hb)

/-- A datum has the form for a field of a graph if the field can be read from it. -/
theorem headForm_iff {d : Datum} (hd : d.Distinct) {f : HeadField}
    (hr : f = .body → ¬ Irregular .body d) : Head.Readable d f ↔ HeadForm f d := by
  cases f with
  | strict | directed => exact Datum.asBool_ok_iff
  | name => exact Datum.asName_ok_iff
  | attributes => exact Attrs.ofDatum_ok_iff hd
  | body => exact (decides d hd).body (hr rfl)

/-- **Members describe a graph exactly if they conform.** -/
theorem ofMembers_ok_iff {l : List Member} (hd : (Datum.map l).Distinct)
    (hr : ¬ Irregular .graph (.map l)) :
    (∃ g, Graph.ofMembers l = .ok g) ↔ Conforms .graph (.map l) := by
  rw [Graph.ofMembers, map_isOk, Head.ofMembers_ok_iff hd.1, conforms_graph_iff]
  refine forall₂_congr (fun f _ => forall₂_congr (fun v hv => ?_))
  refine headForm_iff (Member.DistinctAll.of_mem hd.2 _ hv) ?_
  rintro rfl hi
  exact hr (.graph (.subgraph hv hi))

/-- A graph that is a map is irregular only through its statements. -/
theorem not_irregular_of_statements {l : List Member}
    (h : ∀ b, ⟨"statements".toList, .list b⟩ ∈ l → ∀ d ∈ b, ¬ Irregular .statement d) :
    ¬ Irregular .graph (.map l) := by
  intro hi
  cases hi with
  | graph hi =>
    cases hi with
    | subgraph hv hi =>
      cases hi with
      | body hd hi => exact h _ hv _ hd hi

/-- Statements that are no lists and have texts as their kinds do not give them by number. -/
theorem kindNamed {d : Datum} (hr : ¬ Irregular .statement d) : Source.KindNamed d where
  map := by
    rintro l rfl e he
    have text : e.IsText := Classical.byContradiction (fun hi => hr (.kind he hi))
    obtain ⟨t, rfl⟩ := text
    trivial
  list := by
    rintro e l rfl
    exact absurd .statementList hr

/-- **What conforms is not irregular.** -/
theorem Conforms.not_irregular {r : Role} {d : Datum} (h : Conforms r d) :
    d.Distinct → ¬ Irregular r d := by
  induction h with
  | graph _ _ _ ih =>
    intro hd hi
    cases hi with
    | graph hi => exact ih hd hi
  | subgraph _ _ _ ih =>
    intro hd hi
    cases hi with
    | subgraph hv hi => exact ih _ hv (Member.DistinctAll.of_mem hd.2 _ hv) hi
  | body _ ih =>
    intro hd hi
    cases hi with
    | body hm hi => exact ih _ hm (Datum.DistinctAll.of_mem hd _ hm) hi
  | node hk _ _ =>
    intro hd
    exact not_irregular_of_fields hd.1 hk
      (Kind.forall_fields_iff.mpr ⟨fun _ _ => trivial, fun _ _ => trivial⟩)
  | @edge l s t hk hs _ ht _ _ ihs iht =>
    intro hd
    have source : ∀ v, ⟨"from".toList, v⟩ ∈ l → Regular .source v := by
      intro v hv
      cases Member.value_unique hd.1 hs hv
      exact ihs (Member.DistinctAll.of_mem hd.2 _ hv)
    have goal : ∀ v, ⟨"to".toList, v⟩ ∈ l → Regular .targets v := by
      intro v hv
      cases Member.value_unique hd.1 ht hv
      exact iht (Member.DistinctAll.of_mem hd.2 _ hv)
    exact not_irregular_of_fields hd.1 hk
      (Kind.forall_fields_iff.mpr ⟨source, goal, fun _ _ => trivial⟩)
  | @attr l hk hc _ =>
    intro hd
    have component : ∀ v, ⟨"component".toList, v⟩ ∈ l → Regular .component v := by
      intro v hv
      obtain ⟨c, hc⟩ := ((required_iff hd.1).mp hc).2 v hv
      exact ⟨_, hc⟩
    exact not_irregular_of_fields hd.1 hk
      (Kind.forall_fields_iff.mpr ⟨component, fun _ _ => trivial⟩)
  | assign hk _ _ =>
    intro hd
    exact not_irregular_of_fields hd.1 hk
      (Kind.forall_fields_iff.mpr ⟨fun _ _ => trivial, fun _ _ => trivial⟩)
  | @nested l hk _ ih =>
    intro hd
    have body : ∀ v, ⟨"statements".toList, v⟩ ∈ l → Regular .body v :=
      fun v hv hi => ih hd (.subgraph hv hi)
    exact not_irregular_of_fields hd.1 hk
      (Kind.forall_fields_iff.mpr ⟨fun _ _ => trivial, fun _ _ => trivial, body⟩)
  | named h =>
    obtain ⟨t, id, rfl, -⟩ := h
    intro _ hi
    cases hi
  | inline hv _ ih =>
    intro hd hi
    cases hi with
    | inline hw hi =>
      cases Member.value_unique hd.1 hv hw
      exact ih (Member.DistinctAll.of_mem hd.2 _ hv) hi
  | target h ih =>
    intro hd hi
    cases hi with
    | target hi => exact ih hd hi
    | targets => exact not_conforms_endpoint_list h
  | targets _ h ih =>
    intro hd hi
    cases hi with
    | target hi => cases hi
    | targets hm hi => exact ih _ hm (Datum.DistinctAll.of_mem hd _ hm) hi

end Schema

/-- **The loader accepts exactly the schema.** A JSON text that denotes a datum in which no map
repeats a key, within the limit of nesting, is read as a graph exactly if the datum conforms, unless
a list stands for a graph, subgraph or statement, or a kind or component is no text. -/
theorem parseJson_iff_conforms {s : Text} {d : Datum} (hs : Json.Denotes s d) (hk : d.Distinct)
    (hd : d.depth ≤ 127) (hr : ¬ Schema.Irregular .graph d) :
    (∃ g, parseJson s = .ok g) ↔ Schema.Conforms .graph d := by
  cases d with
  | map l =>
    have named : ∀ v, ⟨"statements".toList, v⟩ ∈ l → Head.BodyNamed v := by
      rintro v hv items rfl e he
      exact Schema.kindNamed (fun hi => hr (.graph (.subgraph hv (.body he hi))))
    rw [← Schema.ofMembers_ok_iff hk hr]
    exact exists_congr (fun g => parseJson_of_denotes hs hd named)
  | list l => exact absurd .graphList hr
  | null | bool | unsigned | signed | float | text =>
    constructor
    · rintro ⟨g, hg⟩
      exact absurd hg (parseJson_ne_ok hs (by simp) (by simp))
    · intro hc
      cases hc

/-- An edge from an empty subgraph is read if it leads to a node, but not if it leads nowhere. -/
theorem parseJson_iff_conforms_targets :
    let edge : Datum → List Member := fun t => [⟨"kind".toList, .text "edge".toList⟩,
      ⟨"from".toList, .map [⟨"subgraph".toList, .map []⟩]⟩, ⟨"to".toList, t⟩]
    let document : Datum → Datum := fun t => .map [⟨"statements".toList, .list [.map (edge t)]⟩]
    (∃ g, parseJson (Json.print (document (.text "a:n".toList))) = .ok g) ∧
      ¬ ∃ g, parseJson (Json.print (document (.list []))) = .ok g := by
  intro edge document
  have denotes : ∀ t, t.Plain → Json.Denotes (Json.print (document t)) (document t) :=
    fun _ ht => Json.denotes_print
      ⟨⟨⟨trivial, ⟨trivial, trivial⟩, ht, trivial⟩, trivial⟩, trivial⟩
  have distinct : ∀ t, t.Distinct → (document t).Distinct := by
    intro t ht
    simp [document, edge, Datum.Distinct, Datum.DistinctAll, Member.DistinctAll, ht]
  have keys : ∀ t, ((edge t).map Member.key).Nodup := fun t => by simp [edge]
  have kind : ∀ t, Schema.OfKind (edge t) .edge := fun t => List.mem_cons_self ..
  have source : ∀ t, ⟨"from".toList, .map [⟨"subgraph".toList, .map []⟩]⟩ ∈ edge t :=
    fun t => List.mem_cons_of_mem _ (List.mem_cons_self ..)
  have goal : ∀ t, ⟨"to".toList, t⟩ ∈ edge t :=
    fun t => List.mem_cons_of_mem _ (List.mem_cons_of_mem _ (List.mem_cons_self ..))
  have empty : Schema.Conforms .endpoint (.map [⟨"subgraph".toList, .map []⟩]) :=
    .inline (List.mem_singleton_self _) (.subgraph nofun nofun nofun)
  have conforms : ∀ t, Schema.Conforms .graph (document t) ↔ Schema.Conforms .targets t := by
    intro t
    constructor
    · intro hc
      have body := Schema.conforms_graph_iff.mp hc .body (by simp [HeadField.ofGraph]) _
        (List.mem_singleton_self _)
      cases body with
      | body hs =>
        obtain ⟨k, hk, hf⟩ := (Schema.conforms_statement_iff (keys t)).mp
          (hs _ (List.mem_singleton_self _))
        cases hk.unique (keys t) (kind t)
        exact (hf .targets (by decide)).2 _ (goal t)
    · intro ht
      have statement : Schema.Conforms .statement (.map (edge t)) :=
        .edge (kind t) (source t) empty (goal t) ht (by simp [edge, Schema.Optional])
      have body : Schema.Conforms .body (.list [.map (edge t)]) :=
        .body (List.forall_mem_singleton.mpr statement)
      refine Schema.conforms_graph_iff.mpr (fun f _ v hv => ?_)
      obtain ⟨hf, rfl⟩ := Member.mk.inj (List.mem_singleton.mp hv)
      cases f <;> first | exact body | exact absurd hf (by decide)
  have regular : ∀ t, ¬ Schema.Irregular .targets t → ¬ Schema.Irregular .graph (document t) := by
    intro t ht
    refine Schema.not_irregular_of_statements (fun b hb d hd => ?_)
    obtain ⟨-, hb⟩ := Member.mk.inj (List.mem_singleton.mp hb)
    cases Datum.list.inj hb
    rw [List.mem_singleton.mp hd]
    refine Schema.not_irregular_of_fields (keys t) (kind t) (Kind.forall_fields_iff.mpr
      ⟨fun v hv => ?_, fun v hv => ?_, fun _ _ => trivial⟩)
    · cases Member.value_unique (keys t) hv (source t)
      exact empty.not_irregular (by simp [Datum.Distinct, Member.DistinctAll])
    · cases Member.value_unique (keys t) hv (goal t)
      exact ht
  constructor
  · have target : Schema.Conforms .targets (.text "a:n".toList) :=
      .target (.named ⟨_, ⟨"a".toList, some ":n".toList⟩, rfl, by decide⟩)
    have read := parseJson_iff_conforms (denotes (.text "a:n".toList) trivial)
      (distinct _ trivial) (by decide) (regular _ (target.not_irregular trivial))
    exact read.mpr ((conforms _).mpr target)
  · have regular := regular (.list []) (fun hi => by cases hi <;> contradiction)
    have read := parseJson_iff_conforms (denotes (.list []) trivial) (distinct _ trivial)
      (by decide) regular
    intro h
    cases (conforms _).mp (read.mp h) with
    | target hc => exact Schema.not_conforms_endpoint_list hc
    | targets hne => exact hne rfl

end DotGraph
