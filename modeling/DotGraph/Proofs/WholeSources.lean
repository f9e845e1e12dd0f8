import DotGraph.Proofs.Readers

/-!
# Sources that can be read as a whole

If the whole of a source can be read, as some datum, then each of its parts is read as its datum
describes, whatever the notation and wherever the values stand. Only in JSON a kind that is given by
its number is read in one place and not in another.

- `Source.asStatement_iff`: a statement is read as its datum describes.
- `Source.asStatements_iff`: so is a list of statements.
- `Source.datum_of_asStatements`: of what is read as statements the whole can be read.
-/

set_option autoImplicit false

namespace DotGraph

/-- The truth value that a datum is. -/
def Datum.asBool : Datum → Except Mismatch Bool
  | .bool b => .ok b
  | d => .error (.wrongType d.found .boolean)

/-- The statements that a datum lists. -/
def Datum.asBody : Datum → Except Mismatch (List Statement)
  | .list items => Statement.ofData items
  | d => .error (.wrongType d.found .list)

theorem Member.forall_mem_cons {p : Datum → Prop} {key k : Text} {d : Datum} {l : List Member} :
    (∀ e, ⟨k, e⟩ ∈ (⟨key, d⟩ :: l : List Member) → p e) ↔
      (key = k → p d) ∧ ∀ e, ⟨k, e⟩ ∈ l → p e := by
  simp only [List.mem_cons, Member.mk.injEq]
  constructor
  · exact fun h => ⟨fun hk => h d (.inl ⟨hk.symm, rfl⟩), fun e he => h e (.inr he)⟩
  · rintro ⟨hd, hl⟩ e (⟨hk, rfl⟩ | he)
    · exact hd hk.symm
    · exact hl e he

namespace Source

variable (dialect : Dialect) {room : Room}

/-! ## Shapes -/

theorem datum_scalar {p : Option Span} {v : Scalar} {d : Datum}
    (h : (scalar p v).datum room = .ok d) : v.datum = .ok d := by
  rw [datum] at h
  split at h
  · rename_i e he
    cases h
    exact he
  · cases h

/-- A source that can be read as a whole, with its datum. -/
inductive Shows (room : Room) : Source → Datum → Prop where
  | null {p : Option Span} : Shows room (scalar p .null) .null
  | bool {p : Option Span} {b : Bool} : Shows room (scalar p (.bool b)) (.bool b)
  | unsigned {p : Option Span} {n : Nat} : Shows room (scalar p (.unsigned n)) (.unsigned n)
  | signed {p : Option Span} {n : Int} : Shows room (scalar p (.signed n)) (.signed n)
  | float {p : Option Span} {x : Binary} : Shows room (scalar p (.float x)) (.float x)
  | text {p : Option Span} {t : Text} : Shows room (scalar p (.text t)) (.text t)
  | list {p : Option Span} {items : List Source} {inner : Room} {l : List Datum} :
      room.enter = .ok inner → itemData inner items = .ok l →
      Shows room (list p items true) (.list l)
  | map {p : Option Span} {entries : List Entry} {inner : Room} {l : List Member} :
      room.enter = .ok inner → entryData inner entries = .ok l →
      Shows room (map p entries true) (.map l)

theorem shows_of_datum {s : Source} {d : Datum} (h : s.datum room = .ok d) : Shows room s d := by
  cases s with
  | broken => cases h
  | scalar p v =>
    have hv := datum_scalar h
    cases v with
    | wide n => cases hv
    | unreadable e => cases hv
    | text t => cases hv; exact .text
    | bool b => cases hv; exact .bool
    | null => cases hv; exact .null
    | unsigned n => cases hv; exact .unsigned
    | signed n => cases hv; exact .signed
    | float x => cases hv; exact .float
  | list p items closed =>
    obtain ⟨inner, l, hr, hl, rfl, rfl⟩ := datum_list_eq_ok_iff.mp h
    exact .list hr hl
  | map p entries closed =>
    obtain ⟨inner, l, hr, hl, rfl, rfl⟩ := datum_map_eq_ok_iff.mp h
    exact .map hr hl

/-! ## Kinds -/

/-- A datum that is no kind by its number. Only data inside a statement may give kinds this way. -/
def NotNumbered : Datum → Prop
  | .unsigned _ => False
  | _ => True

/-- The kind of a statement is not given by its number. -/
structure KindNamed (d : Datum) : Prop where
  map : ∀ l, d = .map l → ∀ e, ⟨"kind".toList, e⟩ ∈ l → NotNumbered e
  list : ∀ e l, d = .list (e :: l) → NotNumbered e

@[simp] theorem kindNamed_map {l : List Member} :
    KindNamed (.map l) ↔ ∀ e, ⟨"kind".toList, e⟩ ∈ l → NotNumbered e :=
  ⟨fun h => h.map l rfl, fun h => ⟨fun _ hl => Datum.map.inj hl ▸ h, nofun⟩⟩

@[simp] theorem kindNamed_list {d : Datum} {l : List Datum} :
    KindNamed (.list (d :: l)) ↔ NotNumbered d := by
  refine ⟨fun h => h.list d l rfl, fun h => ⟨nofun, ?_⟩⟩
  rintro e m ⟨⟩
  exact h

/-! ## Single values -/

section Values

variable {s : Source} {d : Datum} (h : s.datum room = .ok d)

include h

theorem asBool_iff {b : Bool} : s.asBool = .ok b ↔ d.asBool = .ok b := by
  cases shows_of_datum h <;> simp [asBool, Datum.asBool]

theorem asName_iff {n : Option Text} : s.asName = .ok n ↔ d.asName = .ok n := by
  cases shows_of_datum h <;> simp [asName, Datum.asName]

theorem asKind_iff {k : Kind} : s.asKind dialect = .ok k ↔
    (dialect = .json → NotNumbered d) ∧ Kind.ofDatum d = .ok k := by
  cases shows_of_datum h with
  | @text p t =>
    have read : (scalar p (.text t)).asKind dialect = located p (lift (Kind.ofName t)) := by
      cases dialect <;> rfl
    rw [read, Kind.ofDatum]
    cases Kind.ofName t <;> simp [lift, located, NotNumbered]
  | @unsigned p n =>
    cases dialect with
    | json => simp [asKind, NotNumbered]
    | toml =>
      rw [asKind, Kind.ofDatum]
      cases Kind.ofIndex n <;> simp [lift, located]
  | null | bool | signed | float | list | map => cases dialect <;> simp [asKind, Kind.ofDatum]

end Values

theorem attrEntries_iff {b : Attrs} : ∀ {entries : List Entry} {l : List Member} (a : Attrs),
    entryData room entries = .ok l →
    (attrEntries room a entries = .ok b ↔ Attrs.ofMembers a l = .ok b)
  | [], l, a, h => by
    cases h
    simp [attrEntries, Attrs.ofMembers]
  | e :: r, l, a, h => by
    obtain ⟨k, s, d, m, rfl, hd, hm, rfl⟩ := entryData_cons_eq_ok_iff.mp h
    have rest := fun v => attrEntries_iff (b := b) (a.set k v) hm
    simp only [attrEntries, Attrs.ofMembers, asValue, hd]
    cases Value.ofDatum? d with
    | none => simp
    | some v => exact rest v

theorem asAttrs_iff {s : Source} {d : Datum} (h : s.datum room = .ok d) {a : Attrs} :
    s.asAttrs room = .ok a ↔ Attrs.ofDatum d = .ok a := by
  cases shows_of_datum h with
  | map hr hl =>
    rw [asAttrs, Attrs.ofDatum, hr, ← attrEntries_iff .empty hl]
    cases hx : attrEntries _ .empty _ <;> simp [hx]
  | null | bool | unsigned | signed | float | text | list => simp [asAttrs, Attrs.ofDatum]

mutual

/-- What can be read can be passed over. -/
theorem skip_of_datum : ∀ {s : Source} {room : Room} {d : Datum}, s.datum room = .ok d →
    s.skip dialect = .ok ()
  | .broken, _, _, h => by cases h
  | .scalar p v, _, _, h => by
    have hv := datum_scalar h
    cases v with
    | unreadable e => cases hv
    | null | bool | unsigned | signed | wide | float | text => cases dialect <;> rfl
  | .list p items closed, _, _, h => by
    obtain ⟨inner, l, -, hl, rfl, -⟩ := datum_list_eq_ok_iff.mp h
    rw [skip, skipItems_of_data hl]
    rfl
  | .map p entries closed, _, _, h => by
    obtain ⟨inner, l, -, hl, rfl, -⟩ := datum_map_eq_ok_iff.mp h
    rw [skip, skipEntries_of_data hl]
    rfl

theorem skipItems_of_data : ∀ {items : List Source} {room : Room} {l : List Datum},
    itemData room items = .ok l → skipItems dialect items = .ok ()
  | [], _, _, _ => rfl
  | s :: r, _, _, h => by
    obtain ⟨d, m, hd, hm, -⟩ := itemData_cons_eq_ok_iff.mp h
    rw [skipItems, skip_of_datum hd]
    exact skipItems_of_data hm

theorem skipEntries_of_data : ∀ {entries : List Entry} {room : Room} {l : List Member},
    entryData room entries = .ok l → skipEntries dialect entries = .ok ()
  | [], _, _, _ => rfl
  | ⟨key, s⟩ :: r, _, _, h => by
    obtain ⟨_, _, d, m, he, hd, hm, -⟩ := entryData_cons_eq_ok_iff.mp h
    cases he
    rw [skipEntries, skip_of_datum hd]
    exact skipEntries_of_data hm

end

/-! ## Statements -/

/-- The members of a statement other than its kind. -/
def withoutKind : List Member → List Member
  | [] => []
  | ⟨k, d⟩ :: r => if k = "kind".toList then withoutKind r else ⟨k, d⟩ :: withoutKind r

/-- A member with the kind is no field. -/
theorem ofMembers_withoutKind (k : Kind) : ∀ (l : List Member) (s : Slots),
    Slots.ofMembers k s (withoutKind l) = Slots.ofMembers k s l
  | [], s => rfl
  | ⟨key, d⟩ :: r, s => by
    rw [withoutKind]
    split
    · rename_i hk
      have hf : k.field? key = none := by
        rw [hk]
        cases k <;> decide
      rw [ofMembers_withoutKind k r s, Slots.ofMembers_cons, hf]
    · simp only [Slots.ofMembers_cons, ofMembers_withoutKind k r]

/-- The entries of a statement give its kind and the other members. -/
theorem statementEntries_iff {k : Kind} : ∀ {entries : List Entry} {l : List Member}
    (m : List Member) (found : Option Kind), entryData room entries = .ok l →
    (statementEntries dialect room found entries = .ok (some k, m) ↔
      (dialect = .json → ∀ d, ⟨"kind".toList, d⟩ ∈ l → NotNumbered d) ∧
        Kind.ofMembers found l = .ok k ∧ withoutKind l = m)
  | [], l, m, found, h => by
    cases h
    cases found <;> simp [statementEntries, Kind.ofMembers, withoutKind]
  | e :: r, l, m, found, h => by
    obtain ⟨key, s, d, l, rfl, hd, hl, rfl⟩ := entryData_cons_eq_ok_iff.mp h
    have rest := fun m f => statementEntries_iff (k := k) m f hl
    rw [Member.forall_mem_cons, imp_and, withoutKind]
    by_cases hkey : key = "kind".toList
    · subst hkey
      rw [statementEntries_kind_eq_ok_iff, Kind.ofMembers_kind_eq_ok_iff, if_pos rfl]
      simp only [asKind_iff dialect hd, rest]
      constructor
      · rintro ⟨rfl, j, ⟨named, hj⟩, others, hk, rfl⟩
        exact ⟨⟨fun hjson _ => named hjson, others⟩, ⟨rfl, j, hj, hk⟩, rfl⟩
      · rintro ⟨⟨named, others⟩, ⟨rfl, j, hj, hk⟩, rfl⟩
        exact ⟨rfl, j, ⟨fun hjson => named hjson trivial, hj⟩, others, hk, rfl⟩
    · rw [statementEntries_field_eq_ok_iff hkey, Kind.ofMembers_field hkey, if_neg hkey]
      simp only [hd, rest]
      constructor
      · rintro ⟨_, _, ⟨⟩, ⟨others, hk, rfl⟩, rfl⟩
        exact ⟨⟨fun _ e => absurd e hkey, others⟩, hk, rfl⟩
      · rintro ⟨⟨-, others⟩, hk, rfl⟩
        exact ⟨d, _, rfl, ⟨others, hk, rfl⟩, rfl⟩

/-- **A statement is read as its datum describes.** -/
theorem asStatement_iff {s : Source} {d : Datum} (h : s.datum room = .ok d) {a : Statement} :
    s.asStatement dialect room = .ok a ↔
      (dialect = .json → KindNamed d) ∧ Statement.ofDatum d = .ok a := by
  cases shows_of_datum h with
  | null | bool | unsigned | signed | float | text => simp [asStatement, Statement.ofDatum]
  | @map p entries inner l hr hl =>
    rw [asStatement_map_eq_ok_iff, Statement.ofDatum_map_eq_ok_iff, kindNamed_map]
    constructor
    · rintro ⟨_, k, m, s, hi, hm, -, hs, ha⟩
      obtain rfl := Except.ok.inj (hr.symm.trans hi)
      obtain ⟨named, hk, rfl⟩ := (statementEntries_iff dialect m none hl).mp hm
      rw [ofMembers_withoutKind] at hs
      exact ⟨named, k, s, hk, hs, ha⟩
    · rintro ⟨named, k, s, hk, hs, ha⟩
      rw [← ofMembers_withoutKind] at hs
      exact ⟨inner, k, _, s, hr, (statementEntries_iff dialect _ none hl).mpr ⟨named, hk, rfl⟩, rfl,
        hs, ha⟩
  | @list p items inner l hr hl =>
    rw [asStatement_list_eq_ok_iff]
    cases items with
    | nil =>
      cases hl
      simp [Statement.ofDatum]
    | cons first items =>
      obtain ⟨d, m, hd, hm, rfl⟩ := itemData_cons_eq_ok_iff.mp hl
      rw [Statement.ofDatum_list_eq_ok_iff, kindNamed_list]
      constructor
      · rintro ⟨_, _, _, k, _, s, hi, ⟨⟩, hk, hdata, -, hs, ha⟩
        obtain rfl := Except.ok.inj (hr.symm.trans hi)
        obtain rfl := Except.ok.inj (hm.symm.trans hdata)
        obtain ⟨named, hk⟩ := (asKind_iff dialect hd).mp hk
        exact ⟨named, k, s, hk, hs, ha⟩
      · rintro ⟨named, k, s, hk, hs, ha⟩
        exact ⟨inner, first, items, k, m, s, hr, rfl, (asKind_iff dialect hd).mpr ⟨named, hk⟩, hm,
          rfl, hs, ha⟩

/-! ## Lists of statements -/

theorem statementItems_iff {b : List Statement} : ∀ {items : List Source} {l : List Datum},
    itemData room items = .ok l →
    (statementItems dialect room items = .ok b ↔
      (dialect = .json → ∀ d ∈ l, KindNamed d) ∧ Statement.ofData l = .ok b)
  | [], l, h => by
    cases h
    simp [statementItems, Statement.ofData]
  | s :: r, l, h => by
    obtain ⟨d, m, hd, hm, rfl⟩ := itemData_cons_eq_ok_iff.mp h
    rw [statementItems_cons_eq_ok_iff, Statement.ofData_cons_eq_ok_iff, List.forall_mem_cons,
      imp_and]
    simp only [asStatement_iff dialect hd, statementItems_iff hm]
    constructor
    · rintro ⟨a, c, ⟨named, ha⟩, ⟨others, hc⟩, rfl⟩
      exact ⟨⟨named, others⟩, a, c, ha, hc, rfl⟩
    · rintro ⟨⟨named, others⟩, a, c, ha, hc, rfl⟩
      exact ⟨a, c, ⟨named, ha⟩, ⟨others, hc⟩, rfl⟩

end Source

/-- A datum whose statements do not give their kinds by number. -/
def Head.BodyNamed (d : Datum) : Prop := ∀ items, d = .list items → ∀ e ∈ items, Source.KindNamed e

@[simp] theorem Head.bodyNamed_list {l : List Datum} :
    BodyNamed (.list l) ↔ ∀ d ∈ l, Source.KindNamed d :=
  ⟨fun h => h l rfl, fun h _ hl => Datum.list.inj hl ▸ h⟩

namespace Source

variable (dialect : Dialect) {room : Room}

/-- **Statements are read as their data describe.** -/
theorem asStatements_iff {s : Source} {d : Datum} (h : s.datum room = .ok d)
    {b : List Statement} : s.asStatements dialect room = .ok b ↔
      (dialect = .json → Head.BodyNamed d) ∧ d.asBody = .ok b := by
  cases shows_of_datum h with
  | null | bool | unsigned | signed | float | text | map => simp [asStatements, Datum.asBody]
  | @list p items inner l hr hl =>
    rw [asStatements_list_eq_ok_iff, Datum.asBody, Head.bodyNamed_list,
      ← statementItems_iff dialect hl, hr]
    simp

/-! ## Wholes -/

theorem datum_of_asKind {s : Source} {k : Kind} (h : s.asKind dialect = .ok k) :
    ∃ d, s.datum room = .ok d := by
  unfold asKind at h
  split at h
  · exact ⟨_, rfl⟩
  · exact ⟨_, rfl⟩
  · cases h

theorem entryData_of_statementEntries {k : Option Kind} :
    ∀ {entries : List Entry} {found : Option Kind} {m : List Member},
      statementEntries dialect room found entries = .ok (k, m) →
      ∃ l, entryData room entries = .ok l
  | [], _, _, _ => ⟨[], rfl⟩
  | ⟨none, _⟩ :: _, _, _, h => by cases h
  | ⟨some key, s⟩ :: r, found, m, h => by
    have whole : ∀ {d : Datum} {f : Option Kind} {n : List Member}, s.datum room = .ok d →
        statementEntries dialect room f r = .ok (k, n) →
        ∃ l, entryData room (⟨some key, s⟩ :: r) = .ok l := by
      intro d f n hd hn
      obtain ⟨l, hl⟩ := entryData_of_statementEntries hn
      exact ⟨_, entryData_cons_eq_ok_iff.mpr ⟨key, s, d, l, rfl, hd, hl, rfl⟩⟩
    by_cases hkey : key = "kind".toList
    · subst hkey
      obtain ⟨-, j, hj, hm⟩ := statementEntries_kind_eq_ok_iff.mp h
      obtain ⟨d, hd⟩ := datum_of_asKind dialect hj
      exact whole hd hm
    · obtain ⟨d, n, hd, hn, -⟩ := (statementEntries_field_eq_ok_iff hkey).mp h
      exact whole hd hn

/-- What is read as a statement can be read as a whole. -/
theorem datum_of_asStatement {s : Source} {a : Statement}
    (h : s.asStatement dialect room = .ok a) : ∃ d, s.datum room = .ok d := by
  cases s with
  | broken | scalar => cases h
  | map p entries closed =>
    obtain ⟨inner, k, m, -, hr, hm, rfl, -⟩ := asStatement_map_eq_ok_iff.mp h
    obtain ⟨l, hl⟩ := entryData_of_statementEntries dialect hm
    exact ⟨_, datum_map_eq_ok_iff.mpr ⟨inner, l, hr, hl, rfl, rfl⟩⟩
  | list p items closed =>
    obtain ⟨inner, first, rest, k, data, -, hr, rfl, hk, hdata, rfl, -⟩ :=
      asStatement_list_eq_ok_iff.mp h
    obtain ⟨d, hd⟩ := datum_of_asKind dialect hk
    have items := itemData_cons_eq_ok_iff.mpr ⟨d, data, hd, hdata, rfl⟩
    exact ⟨_, datum_list_eq_ok_iff.mpr ⟨inner, _, hr, items, rfl, rfl⟩⟩

theorem itemData_of_statementItems : ∀ {items : List Source} {b : List Statement},
    statementItems dialect room items = .ok b → ∃ l, itemData room items = .ok l
  | [], _, _ => ⟨[], rfl⟩
  | s :: r, b, h => by
    obtain ⟨a, c, ha, hc, -⟩ := statementItems_cons_eq_ok_iff.mp h
    obtain ⟨d, hd⟩ := datum_of_asStatement dialect ha
    obtain ⟨l, hl⟩ := itemData_of_statementItems hc
    exact ⟨_, itemData_cons_eq_ok_iff.mpr ⟨d, l, hd, hl, rfl⟩⟩

/-- What is read as statements can be read as a whole. -/
theorem datum_of_asStatements {s : Source} {b : List Statement}
    (h : s.asStatements dialect room = .ok b) : ∃ d, s.datum room = .ok d := by
  cases s with
  | broken | scalar | map => cases h
  | list p items closed =>
    obtain ⟨inner, hr, hb, rfl⟩ := asStatements_list_eq_ok_iff.mp h
    obtain ⟨l, hl⟩ := itemData_of_statementItems dialect hb
    exact ⟨_, datum_list_eq_ok_iff.mpr ⟨inner, l, hr, hl, rfl, rfl⟩⟩

end Source

end DotGraph
