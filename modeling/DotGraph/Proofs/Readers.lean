import DotGraph.Input

/-!
# What readers give

When each reader gives a result, and which results of its parts this one is made of.

- `Statement.ofDatum_map_eq_ok_iff`, `Statement.ofDatum_list_eq_ok_iff`: for statements from data.
- `Source.asStatement_map_eq_ok_iff`, `Source.asStatement_list_eq_ok_iff`: from sources.
- `Head.ofEntries_field_eq_ok_iff`, `Head.ofItems_cons_eq_ok_iff`: for the fields of graphs.
-/

set_option autoImplicit false

namespace DotGraph

/-! ## Results -/

theorem except_map_eq_ok_iff {ε α β : Type} {f : α → β} {x : Except ε α} {b : β} :
    x.map f = .ok b ↔ ∃ a, x = .ok a ∧ f a = b := by
  cases x <;> simp [Except.map]

theorem toOption_eq_some_iff {ε α : Type} {x : Except ε α} {a : α} :
    x.toOption = some a ↔ x = .ok a := by
  cases x <;> simp [Except.toOption]

theorem toOption_isSome_iff {ε α : Type} {x : Except ε α} :
    x.toOption.isSome ↔ ∃ a, x = .ok a := by
  cases x <;> simp [Except.toOption]

theorem toOption_eq_iff {ε α : Type} {x y : Except ε α} :
    x.toOption = y.toOption ↔ ∀ a, x = .ok a ↔ y = .ok a := by
  simp only [← toOption_eq_some_iff]
  exact ⟨fun h a => by rw [h], Option.ext⟩

theorem toOption_map {ε α β : Type} (x : Except ε α) (f : α → β) :
    (x.map f).toOption = x.toOption.map f := by
  cases x <;> rfl

theorem toOption_bind {ε α β : Type} (x : Except ε α) (f : α → Except ε β) :
    (x.bind f).toOption = x.toOption.bind (fun a => (f a).toOption) := by
  cases x <;> rfl

/-! ## Data -/

/-- Lists of attributes are read one by one. -/
theorem Attrs.ofData?_eq_mapM : ∀ l : List Datum,
    Attrs.ofData? l = l.mapM (fun d => (Attrs.ofDatum d).toOption)
  | [] => rfl
  | d :: r => by
    rw [List.mapM_cons, ← Attrs.ofData?_eq_mapM r, Attrs.ofData?]
    cases Attrs.ofDatum d with
    | error m => rfl
    | ok a => cases Attrs.ofData? r <;> rfl

/-- Reads any field, also one that holds endpoints or statements. -/
def Slots.read (s : Slots) (d : Datum) : StatementField → Except Mismatch Slots
  | .source => s.withSource (Endpoint.ofDatum? d)
  | .targets => s.withTargets (match d with
    | .list items => Endpoint.ofData? items
    | d => (Endpoint.ofDatum? d).map (fun e => [e]))
  | .body => s.withBody (match d with
    | .list items => Statement.ofData items
    | d => .error (.wrongType d.found .list))
  | f => s.readPlain d f

theorem Slots.ofMembers_cons (k : Kind) (s : Slots) (key : Text) (d : Datum) (r : List Member) :
    Slots.ofMembers k s (⟨key, d⟩ :: r) = match k.field? key with
      | none => Slots.ofMembers k s r
      | some f => if s.has f then .error (.duplicateField key) else match s.read d f with
        | .ok s' => Slots.ofMembers k s' r
        | .error m => .error m := by
  cases d <;> rfl

theorem Slots.ofItems_nil (k : Kind) (s : Slots) (fields : List StatementField) (count : Nat) :
    Slots.ofItems k s fields count [] = match fields with
      | [] => .ok s
      | f :: _ => if f.required then .error (.wrongLength count (.fields k)) else .ok s := rfl

theorem Slots.ofItems_cons (k : Kind) (s : Slots) (f : StatementField) (fs : List StatementField)
    (count : Nat) (d : Datum) (r : List Datum) :
    Slots.ofItems k s (f :: fs) count (d :: r) = match s.read d f with
      | .ok s' => Slots.ofItems k s' fs (count + 1) r
      | .error m => .error m := by
  cases d <;> rfl

theorem Slots.ofItems_cons_eq_ok_iff {k : Kind} {s t : Slots} {f : StatementField}
    {fs : List StatementField} {count : Nat} {d : Datum} {r : List Datum} :
    Slots.ofItems k s (f :: fs) count (d :: r) = .ok t ↔
      ∃ s', s.read d f = .ok s' ∧ Slots.ofItems k s' fs (count + 1) r = .ok t := by
  rw [Slots.ofItems_cons]
  cases s.read d f <;> simp

/-- Reads the fields of a subgraph that stands as an endpoint. -/
def Slots.ofSubgraph : Datum → Except Mismatch Slots
  | .map members => Slots.ofMembers .subgraph {} members
  | .list items => Slots.ofItems .subgraph {} Kind.subgraph.fields 0 items
  | d => .error (.wrongType d.found .subgraph)

theorem Endpoint.ofMembers?_nil (found : Option Subgraph) :
    Endpoint.ofMembers? found [] = found.map .subgraph := rfl

theorem Endpoint.ofMembers?_cons (found : Option Subgraph) (key : Text) (d : Datum)
    (r : List Member) :
    Endpoint.ofMembers? found (⟨key, d⟩ :: r) =
      if key = "subgraph".toList then match found with
        | some _ => none
        | none => match Slots.ofSubgraph d with
          | .ok s => Endpoint.ofMembers? (some s.toSubgraph) r
          | .error _ => none
      else Endpoint.ofMembers? found r := by
  cases d <;> rfl

theorem Kind.ofMembers_kind_eq_ok_iff {found : Option Kind} {d : Datum} {r : List Member}
    {k : Kind} : Kind.ofMembers found (⟨"kind".toList, d⟩ :: r) = .ok k ↔
      found = none ∧ ∃ j, Kind.ofDatum d = .ok j ∧ Kind.ofMembers (some j) r = .ok k := by
  rw [Kind.ofMembers.eq_def]
  simp only [if_true]
  cases found with
  | some f => simp
  | none => cases Kind.ofDatum d <;> simp

theorem Kind.ofMembers_field {found : Option Kind} {key : Text} {d : Datum} {r : List Member}
    (h : key ≠ "kind".toList) : Kind.ofMembers found (⟨key, d⟩ :: r) = Kind.ofMembers found r := by
  rw [Kind.ofMembers.eq_def]
  simp only [if_neg h]

theorem Statement.ofDatum_map_eq_ok_iff {l : List Member} {a : Statement} :
    Statement.ofDatum (.map l) = .ok a ↔ ∃ k s, Kind.ofMembers none l = .ok k ∧
      Slots.ofMembers k {} l = .ok s ∧ s.toStatement k = .ok a := by
  rw [Statement.ofDatum]
  cases Kind.ofMembers none l with
  | error m => simp
  | ok k => cases hs : Slots.ofMembers k {} l <;> simp [hs]

theorem Statement.ofDatum_list_eq_ok_iff {d : Datum} {r : List Datum} {a : Statement} :
    Statement.ofDatum (.list (d :: r)) = .ok a ↔ ∃ k s, Kind.ofDatum d = .ok k ∧
      Slots.ofItems k {} k.fields 0 r = .ok s ∧ s.toStatement k = .ok a := by
  rw [Statement.ofDatum]
  cases Kind.ofDatum d with
  | error m => simp
  | ok k => cases hs : Slots.ofItems k {} k.fields 0 r <;> simp [hs]

theorem Statement.ofData_cons_eq_ok_iff {d : Datum} {r : List Datum} {b : List Statement} :
    Statement.ofData (d :: r) = .ok b ↔
      ∃ a l, Statement.ofDatum d = .ok a ∧ Statement.ofData r = .ok l ∧ a :: l = b := by
  rw [Statement.ofData]
  cases Statement.ofDatum d with
  | error m => simp
  | ok a => cases Statement.ofData r <;> simp

/-- Statements are read one by one. -/
theorem Statement.toOption_ofData : ∀ l : List Datum,
    (Statement.ofData l).toOption = l.mapM (fun d => (Statement.ofDatum d).toOption)
  | [] => rfl
  | d :: r => by
    rw [List.mapM_cons, ← Statement.toOption_ofData r, Statement.ofData]
    cases Statement.ofDatum d with
    | error m => rfl
    | ok a => cases Statement.ofData r <;> rfl

theorem Endpoint.ofData?_cons_eq_some_iff {d : Datum} {r : List Datum} {b : List Endpoint} :
    Endpoint.ofData? (d :: r) = some b ↔
      ∃ e l, Endpoint.ofDatum? d = some e ∧ Endpoint.ofData? r = some l ∧ e :: l = b := by
  rw [Endpoint.ofData?]
  cases Endpoint.ofDatum? d with
  | none => simp
  | some e => cases Endpoint.ofData? r <;> simp

/-- Endpoints are read one by one. -/
theorem Endpoint.ofData?_eq_mapM : ∀ l : List Datum, Endpoint.ofData? l = l.mapM Endpoint.ofDatum?
  | [] => rfl
  | d :: r => by
    rw [List.mapM_cons, ← Endpoint.ofData?_eq_mapM r, Endpoint.ofData?]
    cases Endpoint.ofDatum? d with
    | none => rfl
    | some e => cases Endpoint.ofData? r <;> rfl

/-! ## Sources -/

namespace Source

theorem lift_eq_ok_iff {α : Type} {x : Except Mismatch α} {a : α} : lift x = .ok a ↔ x = .ok a := by
  cases x <;> simp [lift]

theorem interpret_eq_ok_iff {k : Kind} {x : Except Mismatch Slots} {a : Statement} :
    interpret k x = .ok a ↔ ∃ s, x = .ok s ∧ s.toStatement k = .ok a := by
  cases x <;> simp [interpret, lift_eq_ok_iff]

variable {dialect : Dialect} {room : Room} {p : Option Span} {closed : Bool}

/-! ### Whole values -/

theorem datum_list_eq_ok_iff {items : List Source} {d : Datum} :
    (list p items closed).datum room = .ok d ↔ ∃ inner l, room.enter = .ok inner ∧
      itemData inner items = .ok l ∧ closed = true ∧ .list l = d := by
  rw [datum]
  cases room.enter with
  | error e => simp
  | ok inner => cases hl : itemData inner items <;> cases closed <;> simp [hl]

theorem datum_map_eq_ok_iff {entries : List Entry} {d : Datum} :
    (map p entries closed).datum room = .ok d ↔ ∃ inner l, room.enter = .ok inner ∧
      entryData inner entries = .ok l ∧ closed = true ∧ .map l = d := by
  rw [datum]
  cases room.enter with
  | error e => simp
  | ok inner => cases hl : entryData inner entries <;> cases closed <;> simp [hl]

theorem itemData_cons_eq_ok_iff {s : Source} {r : List Source} {l : List Datum} :
    itemData room (s :: r) = .ok l ↔
      ∃ d m, s.datum room = .ok d ∧ itemData room r = .ok m ∧ d :: m = l := by
  rw [itemData]
  cases s.datum room with
  | error e => simp
  | ok d => cases itemData room r <;> simp

theorem entryData_cons_eq_ok_iff {e : Entry} {r : List Entry} {l : List Member} :
    entryData room (e :: r) = .ok l ↔ ∃ k s d m, e = ⟨some k, s⟩ ∧ s.datum room = .ok d ∧
      entryData room r = .ok m ∧ ⟨k, d⟩ :: m = l := by
  obtain ⟨_ | k, s⟩ := e
  · simp [entryData]
  · simp only [entryData]
    cases hd : s.datum room with
    | error e => simp [hd, and_assoc]
    | ok d => cases entryData room r <;> simp [hd, and_assoc]

/-! ### Statements -/

theorem statementEntries_kind_eq_ok_iff {s : Source} {r : List Entry} {found : Option Kind}
    {x : Option Kind × List Member} :
    statementEntries dialect room found (⟨some "kind".toList, s⟩ :: r) = .ok x ↔ found = none ∧
      ∃ j, s.asKind dialect = .ok j ∧ statementEntries dialect room (some j) r = .ok x := by
  rw [statementEntries.eq_def]
  simp only [if_true]
  cases found with
  | some f => simp
  | none => cases s.asKind dialect <;> simp

theorem statementEntries_field_eq_ok_iff {key : Text} (h : key ≠ "kind".toList) {s : Source}
    {r : List Entry} {found k : Option Kind} {m : List Member} :
    statementEntries dialect room found (⟨some key, s⟩ :: r) = .ok (k, m) ↔
      ∃ d l, s.datum room = .ok d ∧ statementEntries dialect room found r = .ok (k, l) ∧
        ⟨key, d⟩ :: l = m := by
  rw [statementEntries.eq_def]
  simp only [if_neg h]
  cases s.datum room with
  | error e => simp
  | ok d =>
    cases statementEntries dialect room found r with
    | error e => simp
    | ok x => simp [Prod.ext_iff, and_assoc]

theorem asStatement_map_eq_ok_iff {entries : List Entry} {a : Statement} :
    (map p entries closed).asStatement dialect room = .ok a ↔ ∃ inner k m s,
      room.enter = .ok inner ∧ statementEntries dialect inner none entries = .ok (some k, m) ∧
      closed = true ∧ Slots.ofMembers k {} m = .ok s ∧ s.toStatement k = .ok a := by
  rw [asStatement]
  cases room.enter with
  | error e => simp
  | ok inner =>
    cases hx : statementEntries dialect inner none entries with
    | error e => simp [located, hx]
    | ok x =>
      obtain ⟨_ | k, m⟩ := x <;> cases closed <;> simp [located, hx, interpret_eq_ok_iff, and_assoc]

theorem asStatement_list_eq_ok_iff {items : List Source} {a : Statement} :
    (list p items closed).asStatement dialect room = .ok a ↔ ∃ inner first rest k data s,
      room.enter = .ok inner ∧ items = first :: rest ∧ first.asKind dialect = .ok k ∧
      itemData inner rest = .ok data ∧ closed = true ∧
      Slots.ofItems k {} k.fields 0 data = .ok s ∧ s.toStatement k = .ok a := by
  rw [asStatement]
  cases room.enter with
  | error e => simp
  | ok inner =>
    cases items with
    | nil => simp
    | cons first rest =>
      cases hk : first.asKind dialect with
      | error e => simp [located, hk]
      | ok k =>
        cases hd : itemData inner rest <;> cases closed <;>
          simp [located, hk, hd, interpret_eq_ok_iff, and_assoc]

theorem statementItems_cons_eq_ok_iff {s : Source} {r : List Source} {b : List Statement} :
    statementItems dialect room (s :: r) = .ok b ↔ ∃ a l, s.asStatement dialect room = .ok a ∧
      statementItems dialect room r = .ok l ∧ a :: l = b := by
  rw [statementItems]
  cases s.asStatement dialect room with
  | error e => simp
  | ok a => cases statementItems dialect room r <;> simp

theorem asStatements_list_eq_ok_iff {items : List Source} {b : List Statement} :
    (list p items closed).asStatements dialect room = .ok b ↔ ∃ inner, room.enter = .ok inner ∧
      statementItems dialect inner items = .ok b ∧ closed = true := by
  rw [asStatements]
  cases room.enter with
  | error e => simp
  | ok inner =>
    cases hb : statementItems dialect inner items <;> cases closed <;> simp [located, hb]

end Source

/-! ## Graphs -/

namespace Head

variable {dialect : Dialect} {room : Room} {fields : List HeadField}

theorem ofEntries_unknown_eq_ok_iff {key : Text}
    (hf : fields.find? (fun f => f.text = key) = none) {s : Source} {r : List Entry} {h j : Head} :
    ofEntries dialect room fields h (⟨some key, s⟩ :: r) = .ok j ↔
      s.skip dialect = .ok () ∧ ofEntries dialect room fields h r = .ok j := by
  rw [ofEntries.eq_def]
  simp only [hf]
  cases s.skip dialect <;> simp

theorem ofEntries_field_eq_ok_iff {key : Text} {f : HeadField}
    (hf : fields.find? (fun f => f.text = key) = some f) {s : Source} {r : List Entry}
    {h j : Head} : ofEntries dialect room fields h (⟨some key, s⟩ :: r) = .ok j ↔
      h.has f = false ∧ ∃ i, h.read dialect room s f = .ok i ∧
        ofEntries dialect room fields i r = .ok j := by
  rw [ofEntries.eq_def]
  simp only [hf]
  cases h.has f with
  | true => simp
  | false => cases h.read dialect room s f <;> simp

theorem ofItems_cons_eq_ok_iff {f : HeadField} {fs : List HeadField} {s : Source}
    {r : List Source} {h j : Head} : ofItems dialect room h (f :: fs) (s :: r) = .ok j ↔
      ∃ i, h.read dialect room s f = .ok i ∧ ofItems dialect room i fs r = .ok j := by
  rw [ofItems]
  cases h.read dialect room s f <;> simp

variable {expected : Expected} {p : Option Span} {closed : Bool}

theorem ofSource_map_eq_ok_iff {entries : List Entry} {h : Head} :
    ofSource dialect room fields expected (.map p entries closed) = .ok h ↔
      ∃ inner, room.enter = .ok inner ∧ ofEntries dialect inner fields {} entries = .ok h ∧
        closed = true := by
  rw [ofSource]
  cases room.enter with
  | error e => simp
  | ok inner => cases hx : ofEntries dialect inner fields {} entries <;> cases closed <;> simp [hx]

theorem ofSource_list_eq_ok_iff {items : List Source} {h : Head} :
    ofSource dialect room fields expected (.list p items closed) = .ok h ↔
      ∃ inner, room.enter = .ok inner ∧ ofItems dialect inner {} fields items = .ok h ∧
        closed = true := by
  rw [ofSource]
  cases room.enter with
  | error e => simp
  | ok inner => cases hx : ofItems dialect inner {} fields items <;> cases closed <;> simp [hx]

end Head

theorem Graph.ofSource_eq_ok_iff {dialect : Dialect} {room : Room} {s : Source} {g : Graph} :
    Graph.ofSource dialect room s = .ok g ↔
      ∃ h, Head.ofSource dialect room HeadField.ofGraph .graph s = .ok h ∧ h.toGraph = g := by
  rw [Graph.ofSource]
  cases Head.ofSource dialect room HeadField.ofGraph .graph s <;> simp

/-! ## Texts -/

theorem parseJson_eq_ok_iff_ofSource {t : Text} {g : Graph} : parseJson t = .ok g ↔
    Graph.ofSource .json (some 127) (Json.source t).1 = .ok g ∧
      Json.skipBlanks (Json.source t).2 = [] := by
  rw [parseJson, Json.parse, Json.parseWith, Json.room]
  cases hx : Graph.ofSource .json (some 127) (Json.source t).1 with
  | error e => simp [hx]
  | ok j => cases hr : Json.skipBlanks (Json.source t).2 <;> simp [hx, hr]

theorem parseToml_eq_ok_iff_ofSource {name t : Text} {g : Graph} : parseToml name t = .ok g ↔
    ∃ s, Toml.source? t = some s ∧ Graph.ofSource .toml none s = .ok g := by
  rw [parseToml, Toml.parse]
  cases Toml.source? t with
  | none => simp
  | some s => cases hx : Graph.ofSource .toml none s <;> simp [hx]

end DotGraph
