import DotGraph.Proofs.Fields

/-!
# Fields in any order

What is read from one field does not depend on the others, so the members of a map can be read in
any order, and of a map that can be read each field can be exchanged by itself.

- `FieldReader.ofMembers_perm`: the order of the members does not matter.
- `FieldReader.ofMembers_exchange`: a map of which one field varies is read as this field is.
- `Slots.uniform`, `Head.uniform`: the fields of statements and those of graphs are independent.
-/

set_option autoImplicit false

namespace DotGraph

namespace FieldReader

variable {σ φ : Type} [DecidableEq φ] (R : FieldReader σ φ)

/-- A change of a record that enters a field and leaves the others alone. -/
structure Enters (f : φ) (u : σ → σ) : Prop where
  has : ∀ s g, R.has (u s) g = (R.has s g || g = f)
  read : ∀ s d g, g ≠ f → R.read (u s) d g = (R.read s d g).map u

/-- What reading a field enters depends on its datum alone. -/
def Uniform : Prop := ∀ d f, (∃ m, ∀ s, R.read s d f = .error m) ∨
  ∃ u, R.Enters f u ∧ ∀ s, R.read s d f = .ok (u s)

theorem ofMembers_append (s : σ) (l m : List Member) :
    R.ofMembers s (l ++ m) = (R.ofMembers s l).bind (fun t => R.ofMembers t m) := by
  induction l generalizing s with
  | nil => rfl
  | cons e r ih =>
    obtain ⟨key, d⟩ := e
    rw [List.cons_append, ofMembers, ofMembers]
    cases R.field? key with
    | none => exact ih s
    | some f =>
      simp only
      split
      · rfl
      · cases R.read s d f with
        | error m => rfl
        | ok t => exact ih t

/-- What comes after a field has been entered is read as if another value had been entered. -/
theorem ofMembers_enters {f : φ} {u : σ → σ} (hu : R.Enters f u) : ∀ {l : List Member} {s t : σ},
    R.ofMembers (u s) l = .ok t →
    ∃ r, t = u r ∧ ∀ w, R.Enters f w → R.ofMembers (w s) l = .ok (w r)
  | [], s, t, h => by
    cases h
    exact ⟨s, rfl, fun w _ => rfl⟩
  | ⟨key, d⟩ :: l, s, t, h => by
    cases hk : R.field? key with
    | none =>
      rw [R.ofMembers_unknown hk] at h
      obtain ⟨r, rfl, hr⟩ := ofMembers_enters hu h
      exact ⟨r, rfl, fun w hw => (R.ofMembers_unknown hk (w s) d l).trans (hr w hw)⟩
    | some g =>
      obtain ⟨free, t', hread, h⟩ := (R.ofMembers_field_eq_ok_iff hk).mp h
      rw [hu.has, Bool.or_eq_false_iff, decide_eq_false_iff_not] at free
      obtain ⟨free, hg⟩ := free
      rw [hu.read s d g hg] at hread
      obtain ⟨s', hs, rfl⟩ := except_map_eq_ok_iff.mp hread
      obtain ⟨r, rfl, hr⟩ := ofMembers_enters hu h
      refine ⟨r, rfl, fun w hw => (R.ofMembers_field_eq_ok_iff hk).mpr ⟨?_, w s', ?_, hr w hw⟩⟩
      · simp [hw.has, free, hg]
      · rw [hw.read s d g hg, hs]
        rfl

/-- What a datum can be read into one record as enters a field of every record. -/
theorem Uniform.enters_of_read {R : FieldReader σ φ} (hR : R.Uniform) {s t : σ} {d : Datum} {f : φ}
    (h : R.read s d f = .ok t) : ∃ u, R.Enters f u ∧ t = u s ∧ ∀ s, R.read s d f = .ok (u s) := by
  rcases hR d f with ⟨m, hm⟩ | ⟨u, hu, hread⟩
  · cases (hm s).symm.trans h
  · exact ⟨u, hu, Except.ok.inj (h.symm.trans (hread s)), hread⟩

/-- **A map of which one field varies is read as this field is**, once the rest can be read. -/
theorem ofMembers_exchange (hR : R.Uniform) {f : φ} (hf : f ∈ R.fields) {front back : List Member}
    {v₀ : Datum} {s t : σ} (h : R.ofMembers s (front ++ ⟨R.text f, v₀⟩ :: back) = .ok t) :
    ∃ r, ∀ v, R.ofMembers s (front ++ ⟨R.text f, v⟩ :: back) = R.read r v f := by
  have field := (R.field?_iff _ f).mpr ⟨hf, rfl⟩
  simp only [ofMembers_append] at h ⊢
  cases hs : R.ofMembers s front with
  | error m =>
    rw [hs] at h
    cases h
  | ok s' =>
    rw [hs] at h
    obtain ⟨free, t', hread, h⟩ := (R.ofMembers_field_eq_ok_iff field).mp h
    obtain ⟨u, hu, rfl, -⟩ := hR.enters_of_read hread
    obtain ⟨r, -, hr⟩ := R.ofMembers_enters hu h
    refine ⟨r, fun v => ?_⟩
    show R.ofMembers s' (⟨R.text f, v⟩ :: back) = R.read r v f
    rcases hR v f with ⟨m, hm⟩ | ⟨w, hw, hread⟩
    · rw [ofMembers, field]
      simp only [free, Bool.false_eq_true, if_false, hm]
    · rw [hread]
      exact (R.ofMembers_field_eq_ok_iff field).mpr ⟨free, w s', hread s', hr w hw⟩

/-- Two members can be read in either order. -/
theorem ofMembers_swap (hR : R.Uniform) (s : σ) (a b : Member) (l : List Member) :
    (R.ofMembers s (a :: b :: l)).toOption = (R.ofMembers s (b :: a :: l)).toOption := by
  obtain ⟨j, d⟩ := a
  obtain ⟨k, e⟩ := b
  cases hj : R.field? j with
  | none => simp only [ofMembers, hj]
  | some f =>
    cases hk : R.field? k with
    | none => simp only [ofMembers, hj, hk]
    | some g =>
      rcases hR d f with ⟨m, hm⟩ | ⟨u, hu, hf⟩
      · -- the first cannot be read, whatever has been read
        rcases hR e g with ⟨m', hm'⟩ | ⟨w, hw, hg⟩
        · simp only [ofMembers, hj, hk, hm, hm']
          cases R.has s f <;> cases R.has s g <;> rfl
        · simp only [ofMembers, hj, hk, hm, hg, hw.has]
          cases R.has s f <;> cases R.has s g <;> by_cases hfg : f = g <;>
            simp [Except.toOption, hfg]
      · rcases hR e g with ⟨m', hm'⟩ | ⟨w, hw, hg⟩
        · simp only [ofMembers, hj, hk, hm', hf, hu.has]
          cases R.has s f <;> cases R.has s g <;> by_cases hgf : g = f <;>
            simp [Except.toOption, hgf]
        · simp only [ofMembers, hj, hk, hf, hg, hu.has, hw.has]
          by_cases hfg : f = g
          · subst hfg
            cases hh : R.has s f <;> simp [Except.toOption]
          · have comm : u (w s) = w (u s) := by
              have := hu.read s e g (Ne.symm hfg)
              rw [hg, hg] at this
              exact (Except.ok.inj this).symm
            simp only [comm, hfg, Ne.symm hfg, decide_false, Bool.or_false]
            cases R.has s f <;> cases R.has s g <;> rfl

/-- **The order of the members does not matter.** -/
theorem ofMembers_perm (hR : R.Uniform) {l m : List Member} (h : l.Perm m) (s : σ) :
    (R.ofMembers s l).toOption = (R.ofMembers s m).toOption := by
  induction h generalizing s with
  | nil => rfl
  | @cons e l m _ ih =>
    obtain ⟨key, d⟩ := e
    rw [ofMembers, ofMembers]
    cases R.field? key with
    | none => exact ih s
    | some f =>
      simp only
      split
      · rfl
      · cases R.read s d f with
        | error m => rfl
        | ok t => exact ih t
  | swap a b l => exact R.ofMembers_swap hR s b a l
  | trans _ _ ih ih' => exact (ih s).trans (ih' s)

/-- Fields are independent if reading one fills it with what its datum says. -/
theorem uniform_of_fill {ξ : Type} (fill : σ → ξ → σ) (field : ξ → φ)
    (fillingOf : Datum → φ → Except Mismatch ξ)
    (read_eq : ∀ s d f, R.read s d f = (fillingOf d f).map (fill s))
    (field_of : ∀ d f x, fillingOf d f = .ok x → field x = f)
    (has : ∀ s x g, R.has (fill s x) g = (R.has s g || g = field x))
    (comm : ∀ s x y, field x ≠ field y → fill (fill s x) y = fill (fill s y) x) : R.Uniform := by
  intro d f
  cases hf : fillingOf d f with
  | error m => exact .inl ⟨m, fun s => by rw [read_eq, hf]; rfl⟩
  | ok x =>
    have hfield := field_of d f x hf
    refine .inr ⟨fun s => fill s x, ⟨fun s g => hfield ▸ has s x g, fun s e g hg => ?_⟩,
      fun s => by rw [read_eq, hf]; rfl⟩
    rw [read_eq, read_eq]
    cases hy : fillingOf e g with
    | error m => rfl
    | ok y =>
      have other : field x ≠ field y := by
        rw [hfield, field_of e g y hy]
        exact Ne.symm hg
      exact congrArg Except.ok (comm s x y other)

end FieldReader

/-! ## Statements -/

namespace Slots

/-- What a field of a statement is filled with. -/
inductive Filling where
  | id (id : NodeId)
  | source (endpoint : Endpoint)
  | targets (endpoints : List Endpoint)
  | component (component : Component)
  | key (key : Text)
  | value (value : Value)
  | lists (lists : List Attrs)
  | name (name : Option Text)
  | attributes (attributes : Attrs)
  | body (statements : List Statement)

/-- The field that is filled. -/
def Filling.field : Filling → StatementField
  | id _ => .id
  | source _ => .source
  | targets _ => .targets
  | component _ => .component
  | key _ => .key
  | value _ => .value
  | lists _ => .lists
  | name _ => .name
  | attributes _ => .attributes
  | body _ => .body

/-- Fills a field. -/
def fill (s : Slots) : Filling → Slots
  | .id x => { s with id := some x }
  | .source x => { s with source := some x }
  | .targets x => { s with targets := some x }
  | .component x => { s with component := some x }
  | .key x => { s with key := some x }
  | .value x => { s with value := some x }
  | .lists x => { s with lists := some x }
  | .name x => { s with name := some x }
  | .attributes x => { s with attributes := some x }
  | .body x => { s with body := some x }

theorem has_fill (s : Slots) (x : Filling) (g : StatementField) :
    (s.fill x).has g = (s.has g || g = x.field) := by
  cases x <;> cases g <;> simp [fill, has, Filling.field]

theorem fill_comm (s : Slots) {x y : Filling} (h : x.field ≠ y.field) :
    (s.fill x).fill y = (s.fill y).fill x := by
  cases x <;> cases y <;> first | rfl | exact absurd rfl h

/-- What a datum fills a field with. -/
def fillingOf (d : Datum) : StatementField → Except Mismatch Filling
  | .id => (NodeId.ofDatum d).map .id
  | .component => (Component.ofDatum d).map .component
  | .key => d.asText.map .key
  | .value => match Value.ofDatum? d with
    | some v => .ok (.value v)
    | none => .error (.noForm .value)
  | .lists => (Attrs.listOfDatum d).map .lists
  | .name => d.asName.map .name
  | .attributes => (Attrs.ofDatum d).map .attributes
  | .source => match Endpoint.ofDatum? d with
    | some e => .ok (.source e)
    | none => .error (.noForm .endpoint)
  | .targets => match Endpoint.targetsOf? d with
    | some l => .ok (.targets l)
    | none => .error (.noForm .oneOrMany)
  | .body => d.asBody.map .body

theorem read_eq_fill (s : Slots) (d : Datum) (f : StatementField) :
    s.read d f = (fillingOf d f).map s.fill := by
  cases f with
  | id => simp only [read, readPlain, fillingOf]; cases NodeId.ofDatum d <;> rfl
  | component => simp only [read, readPlain, fillingOf]; cases Component.ofDatum d <;> rfl
  | key => simp only [read, readPlain, fillingOf]; cases d.asText <;> rfl
  | value => simp only [read, readPlain, fillingOf]; cases Value.ofDatum? d <;> rfl
  | lists => simp only [read, readPlain, fillingOf]; cases Attrs.listOfDatum d <;> rfl
  | name => simp only [read, readPlain, fillingOf]; cases d.asName <;> rfl
  | attributes => simp only [read, readPlain, fillingOf]; cases Attrs.ofDatum d <;> rfl
  | source => simp only [read, fillingOf]; cases Endpoint.ofDatum? d <;> rfl
  | targets => rw [read_targets_eq, fillingOf]; cases Endpoint.targetsOf? d <;> rfl
  | body => rw [read_body_eq, fillingOf]; cases d.asBody <;> rfl

theorem field_of_fillingOf {d : Datum} {f : StatementField} {x : Filling}
    (h : fillingOf d f = .ok x) : x.field = f := by
  cases f with
  | id | component | key | lists | name | attributes | body =>
    obtain ⟨y, -, rfl⟩ := except_map_eq_ok_iff.mp h
    rfl
  | value | source | targets =>
    rw [fillingOf] at h
    split at h
    · cases h
      rfl
    · cases h

/-- The fields of statements are independent of each other. -/
theorem uniform (k : Kind) : (reader k).Uniform :=
  (reader k).uniform_of_fill fill Filling.field fillingOf read_eq_fill
    (fun _ _ _ => field_of_fillingOf) has_fill (fun s _ _ => fill_comm s)

/-- What comes after a field has been entered is read as if another value had been entered. -/
theorem ofItems_enters {k : Kind} {f : StatementField} {u : Slots → Slots}
    (hu : (reader k).Enters f u) : ∀ {fs : List StatementField} {l : List Datum} {n : Nat}
    {s t : Slots}, f ∉ fs → ofItems k (u s) fs n l = .ok t →
    ∃ r, t = u r ∧ ∀ w, (reader k).Enters f w → ofItems k (w s) fs n l = .ok (w r)
  | [], [], n, s, t, _, h => by
    cases h
    exact ⟨s, rfl, fun w _ => rfl⟩
  | [], _ :: _, n, s, t, _, h => by cases h
  | g :: fs, [], n, s, t, _, h => by
    rw [ofItems_nil] at h
    simp only at h
    split at h
    · cases h
    · rename_i hreq
      cases h
      exact ⟨s, rfl, fun w _ => by rw [ofItems_nil]; simp only [hreq, Bool.false_eq_true, if_false]⟩
  | g :: fs, d :: l, n, s, t, hf, h => by
    obtain ⟨hg, hf⟩ := not_or.mp (mt List.mem_cons.mpr hf)
    have step : ∀ {w}, (reader k).Enters f w → (w s).read d g = (s.read d g).map w :=
      fun hw => hw.read s d g (Ne.symm hg)
    obtain ⟨t', hread, h⟩ := ofItems_cons_eq_ok_iff.mp h
    rw [step hu] at hread
    obtain ⟨s', hs, rfl⟩ := except_map_eq_ok_iff.mp hread
    obtain ⟨r, rfl, hr⟩ := ofItems_enters hu hf h
    refine ⟨r, rfl, fun w hw => ofItems_cons_eq_ok_iff.mpr ⟨w s', ?_, hr w hw⟩⟩
    rw [step hw, hs]
    rfl

/-- **A list of which one field varies is read as this field is**, once the rest can be read. -/
theorem ofItems_exchange {k : Kind} {f : StatementField} {back : List Datum} {v₀ : Datum} :
    ∀ {fs : List StatementField} {front : List Datum} {n : Nat} {s t : Slots}, fs.Nodup →
    fs[front.length]? = some f → ofItems k s fs n (front ++ v₀ :: back) = .ok t →
    ∃ r : Slots, ∀ v, ofItems k s fs n (front ++ v :: back) = r.read v f
  | [], [], _, _, _, _, hf, _ => by cases hf
  | [], _ :: _, _, _, _, _, hf, _ => by cases hf
  | g :: fs, [], n, s, t, nodup, hf, h => by
    obtain rfl : g = f := Option.some.inj hf
    obtain ⟨t', hread, h⟩ := ofItems_cons_eq_ok_iff.mp h
    obtain ⟨u, hu, rfl, -⟩ := (uniform k).enters_of_read hread
    obtain ⟨r, -, hr⟩ := ofItems_enters hu (List.nodup_cons.mp nodup).1 h
    refine ⟨r, fun v => ?_⟩
    rw [List.nil_append]
    rcases uniform k v g with ⟨m, hm⟩ | ⟨w, hw, hread⟩
    · rw [ofItems_cons, show s.read v g = .error m from hm s, show r.read v g = .error m from hm r]
    · rw [show r.read v g = .ok (w r) from hread r]
      exact ofItems_cons_eq_ok_iff.mpr ⟨w s, hread s, hr w hw⟩
  | g :: fs, d :: front, n, s, t, nodup, hf, h => by
    obtain ⟨s', hs, h⟩ := ofItems_cons_eq_ok_iff.mp h
    obtain ⟨r, hr⟩ := ofItems_exchange (List.nodup_cons.mp nodup).2 hf h
    refine ⟨r, fun v => ?_⟩
    rw [← hr, List.cons_append, ofItems_cons, hs]

end Slots

/-! ## Graphs -/

namespace Head

/-- What a field of a graph is filled with. -/
inductive Filling where
  | strict (b : Bool)
  | directed (b : Bool)
  | name (name : Option Text)
  | attributes (attributes : Attrs)
  | body (statements : List Statement)

/-- The field that is filled. -/
def Filling.field : Filling → HeadField
  | strict _ => .strict
  | directed _ => .directed
  | name _ => .name
  | attributes _ => .attributes
  | body _ => .body

/-- Fills a field. -/
def fill (h : Head) : Filling → Head
  | .strict x => { h with strict := some x }
  | .directed x => { h with directed := some x }
  | .name x => { h with name := some x }
  | .attributes x => { h with attributes := some x }
  | .body x => { h with body := some x }

/-- What a datum fills a field with. -/
def fillingOf (d : Datum) : HeadField → Except Mismatch Filling
  | .strict => d.asBool.map .strict
  | .directed => d.asBool.map .directed
  | .name => d.asName.map .name
  | .attributes => (Attrs.ofDatum d).map .attributes
  | .body => d.asBody.map .body

theorem read_eq_fill (h : Head) (d : Datum) (f : HeadField) :
    h.readDatum d f = (fillingOf d f).map h.fill := by
  cases f with
  | strict | directed => simp only [readDatum, fillingOf]; cases d.asBool <;> rfl
  | name => simp only [readDatum, fillingOf]; cases d.asName <;> rfl
  | attributes => simp only [readDatum, fillingOf]; cases Attrs.ofDatum d <;> rfl
  | body => simp only [readDatum, fillingOf]; cases d.asBody <;> rfl

theorem field_of_fillingOf {d : Datum} {f : HeadField} {x : Filling}
    (h : fillingOf d f = .ok x) : x.field = f := by
  cases f <;> obtain ⟨y, -, rfl⟩ := except_map_eq_ok_iff.mp h <;> rfl

theorem has_fill (h : Head) (x : Filling) (g : HeadField) :
    (h.fill x).has g = (h.has g || g = x.field) := by
  cases x <;> cases g <;> simp [fill, has, Filling.field]

theorem fill_comm (h : Head) {x y : Filling} (hxy : x.field ≠ y.field) :
    (h.fill x).fill y = (h.fill y).fill x := by
  cases x <;> cases y <;> first | rfl | exact absurd rfl hxy

/-- The fields of graphs are independent of each other. -/
theorem uniform : reader.Uniform :=
  reader.uniform_of_fill fill Filling.field fillingOf read_eq_fill
    (fun _ _ _ => field_of_fillingOf) has_fill (fun h _ _ => fill_comm h)

end Head

/-! ## Single fields -/

namespace FieldReader

/-- The reader of a single field. -/
def single {α : Type} (key : Text) (read : Datum → Except Mismatch α) :
    FieldReader (Option α) Unit where
  fields := [()]
  text _ := key
  field? k := if k = key then some () else none
  has s _ := s.isSome
  read _ d _ := (read d).map some
  readable d _ := ∃ a, read d = .ok a
  field?_iff k f := by simp [eq_comm]
  read_ok_iff _ _ _ := map_isOk
  has_read s d f t g h := by
    obtain ⟨a, -, rfl⟩ := except_map_eq_ok_iff.mp h
    simp

theorem single_uniform {α : Type} (key : Text) (read : Datum → Except Mismatch α) :
    (single key read).Uniform :=
  (single key read).uniform_of_fill (fun _ x => some x) (fun _ => ()) (fun d _ => read d)
    (fun _ _ _ => rfl) (fun _ _ _ _ => rfl) (fun s x g => by simp [single])
    (fun _ _ _ h => absurd rfl h)

end FieldReader

/-- The kind of a statement is a single field. -/
theorem Kind.toOption_ofMembers : ∀ (l : List Member) (found : Option Kind),
    (Kind.ofMembers found l).toOption =
      ((FieldReader.single "kind".toList Kind.ofDatum).ofMembers found l).toOption.join
  | [], found => by cases found <;> rfl
  | ⟨key, d⟩ :: r, found => by
    unfold Kind.ofMembers FieldReader.ofMembers
    by_cases hkey : key = "kind".toList
    · simp only [FieldReader.single, if_pos hkey]
      cases found with
      | some k => rfl
      | none =>
        cases hk : Kind.ofDatum d with
        | error m => rfl
        | ok k => exact Kind.toOption_ofMembers r (some k)
    · simp only [FieldReader.single, if_neg hkey]
      exact Kind.toOption_ofMembers r found

/-- The subgraph of an endpoint is a single field. -/
theorem Endpoint.ofMembers?_eq : ∀ (l : List Member) (found : Option Slots),
    Endpoint.ofMembers? (found.map Slots.toSubgraph) l =
      ((FieldReader.single "subgraph".toList Slots.ofSubgraph).ofMembers found l).toOption.join.map
        (fun s => .subgraph s.toSubgraph)
  | [], found => by cases found <;> rfl
  | ⟨key, d⟩ :: r, found => by
    rw [Endpoint.ofMembers?_cons, FieldReader.ofMembers]
    by_cases hkey : key = "subgraph".toList
    · simp only [FieldReader.single, if_pos hkey]
      cases found with
      | some s => rfl
      | none =>
        cases hs : Slots.ofSubgraph d with
        | error m => rfl
        | ok s => exact Endpoint.ofMembers?_eq r (some s)
    · simp only [FieldReader.single, if_neg hkey]
      exact Endpoint.ofMembers?_eq r found

/-- The markup of a value is a single field. -/
theorem Value.ofMembers?_eq : ∀ (l : List Member) (found : Option Text),
    Value.ofMembers? found l =
      ((FieldReader.single "html".toList Datum.asText).ofMembers found l).toOption.join.map .html
  | [], found => by cases found <;> rfl
  | ⟨key, d⟩ :: r, found => by
    unfold Value.ofMembers? FieldReader.ofMembers
    by_cases hkey : key = "html".toList
    · simp only [FieldReader.single, if_pos hkey]
      cases found with
      | some t => cases d <;> rfl
      | none =>
        cases d with
        | text t => exact Value.ofMembers?_eq r (some t)
        | null | bool | unsigned | signed | float | list | map => rfl
    · simp only [FieldReader.single, if_neg hkey]
      exact Value.ofMembers?_eq r found

end DotGraph
