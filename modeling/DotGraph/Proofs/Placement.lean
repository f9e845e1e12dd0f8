import DotGraph.Proofs.Carrying

/-!
# Where a statement stands

A statement is read alike wherever it stands. If the layers around it can be read with some
statement in them, then with any other one they can be read exactly if this statement can, and
nothing but the statement differs in the graph.

- `Schema.Leads.carries`: what the layers around a statement are read as.
- `parseJson_surround`: a statement inside other containers means what it means in the graph itself.
-/

set_option autoImplicit false

namespace DotGraph

namespace Schema

/-! ## Layers -/

/-- The site of a part of a graph. -/
def Role.site : Role → Site
  | .graph => .graph
  | .subgraph => .subgraph
  | .body => .body
  | .statement => .statement
  | .endpoint => .endpoint
  | .targets => .targets

theorem OfKind.hasKind {l : List Member} {k : Kind} (h : OfKind l k) : HasKind l k :=
  ⟨_, h, by rw [Kind.ofDatum, Kind.ofName_name]⟩

theorem Leads.within {role : Role} {p : List Layer} (h : Leads role p) :
    Within role.site p .statement := by
  induction h with
  | here => exact .here
  | graph _ ih => exact .graph (f := .body) rfl ih
  | graphItem hl _ ih => exact .graphItem (f := .body) (by rw [hl]; rfl) rfl ih
  | body _ ih => exact .body ih
  | nested hk _ ih => exact .statement (f := .body) hk.hasKind (by decide) rfl ih
  | nestedItem hl _ ih =>
    exact .statementItem (k := .subgraph) (f := .body) rfl (by rw [hl]; rfl) rfl ih
  | source hk _ ih => exact .statement (f := .source) hk.hasKind (by decide) rfl ih
  | sourceItem _ ih => exact .statementItem (k := .edge) (f := .source) rfl rfl rfl ih
  | goal hk _ ih => exact .statement (f := .targets) hk.hasKind (by decide) rfl ih
  | goalItem _ ih => exact .statementItem (k := .edge) (f := .targets) rfl rfl rfl ih
  | inline _ ih => exact .endpoint ih
  | target hp ih =>
    cases hp with
    | inline => exact .target ih
  | targets _ ih => exact .targets ih
  | subgraph _ ih => exact .subgraph (f := .body) (by decide) rfl ih
  | subgraphItem hl _ ih => exact .subgraphItem (f := .body) (by rw [hl]; rfl) rfl ih

/-- **What layers around a statement carry.** If a graph can be read with some statement at the end
of the layers, then with every other one it is read as this one in the same spot. -/
theorem Leads.carries {p : List Layer} (h : Leads .graph p) {v₀ : Datum} {g₀ : Graph}
    (hg : Graph.ofDatum? (surround p v₀) = some g₀) : ∃ s : Surroundings, ∀ d,
      Graph.ofDatum? (surround p d) =
        (Statement.ofDatum d).toOption.map (fun a => s.fill (a.redirect s.directed)) := by
  obtain ⟨_, rfl, read⟩ := h.within.carries (.inl rfl) hg
  exact read

/-! ## Kinds by number -/

/-- Whether the statement at the end of the layers has its kind by number does not matter inside
another statement. -/
theorem Leads.kindNamed {p : List Layer} (h : Leads .statement p) {v w : Datum}
    (hw : p = [] → Source.KindNamed w) (hv : Source.KindNamed (surround p v)) :
    Source.KindNamed (surround p w) := by
  have member : ∀ {front back : List Member} {key : Text} {d e : Datum}, key ≠ "kind".toList →
      Source.KindNamed (.map (front ++ ⟨key, d⟩ :: back)) →
      Source.KindNamed (.map (front ++ ⟨key, e⟩ :: back)) := by
    intro front back key d e hkey hd
    refine ⟨?_, nofun⟩
    rintro _ ⟨⟩ c hc
    refine hd.map _ rfl c ?_
    rw [List.mem_append, List.mem_cons, Member.mk.injEq] at hc ⊢
    exact hc.imp_right (Or.imp_left (fun e => absurd e.1.symm hkey))
  have item : ∀ {t : Text} {l : List Datum}, Source.KindNamed (.list (.text t :: l)) := by
    intro t l
    refine ⟨nofun, ?_⟩
    rintro _ _ ⟨⟩
    trivial
  cases h with
  | here => exact hw rfl
  | nested | source | goal => exact member (by decide) hv
  | nestedItem | sourceItem | goalItem => exact item

theorem Leads.bodyNamed_body_iff {p : List Layer} (h : Leads .body p) {v w : Datum}
    (hv : Head.BodyNamed (surround p v)) :
    Head.BodyNamed (surround p w) ↔ (p.length = 1 → Source.KindNamed w) := by
  cases h with
  | @body front back p hp =>
    have mem : ∀ d, d ∈ front ++ d :: back :=
      fun d => List.mem_append_right _ (List.mem_cons_self ..)
    constructor
    · intro hb hl
      obtain rfl := List.length_eq_zero_iff.mp (Nat.succ.inj hl)
      exact hb _ rfl w (mem w)
    · rintro hw _ ⟨⟩ e he
      rcases List.mem_append.mp he with he | he
      · exact hv _ rfl e (List.mem_append_left _ he)
      · rcases List.mem_cons.mp he with rfl | he
        · exact hp.kindNamed (fun hp => hw (by rw [hp]; rfl)) (hv _ rfl _ (mem _))
        · exact hv _ rfl e (List.mem_append_right _ (List.mem_cons_of_mem _ he))

theorem Leads.bodyNamed_iff {p : List Layer} (h : Leads .graph p) {v w : Datum}
    (hv : Graph.BodyNamed (surround p v)) :
    Graph.BodyNamed (surround p w) ↔ (AtTop p → Source.KindNamed w) := by
  cases h with
  | @graph front back p hp =>
    have mem : ∀ d, ⟨"statements".toList, d⟩ ∈ front ++ ⟨"statements".toList, d⟩ :: back :=
      fun d => List.mem_append_right _ (List.mem_cons_self ..)
    have body := hp.bodyNamed_body_iff (w := w) (hv.map _ rfl _ (mem _))
    constructor
    · intro hb hl
      exact body.mp (hb.map _ rfl _ (mem _)) (Nat.succ.inj hl)
    · intro hw
      refine ⟨?_, nofun⟩
      rintro _ ⟨⟩ e he
      rcases List.mem_append.mp he with he | he
      · exact hv.map _ rfl e (List.mem_append_left _ he)
      · rcases List.mem_cons.mp he with he | he
        · cases he
          exact body.mpr (fun hl => hw (congrArg Nat.succ hl))
        · exact hv.map _ rfl e (List.mem_append_right _ (List.mem_cons_of_mem _ he))
  | @graphItem front back p hl hp =>
    have last : ∀ d : Datum, (front ++ d :: back)[4]? = some d := by
      intro d
      rw [← hl, List.getElem?_append_right (Nat.le_refl _), Nat.sub_self]
      rfl
    have body := hp.bodyNamed_body_iff (w := w) (hv.list _ rfl _ (last _))
    constructor
    · intro hb hl
      exact body.mp (hb.list _ rfl _ (last _)) (Nat.succ.inj hl)
    · intro hw
      refine ⟨nofun, ?_⟩
      rintro _ ⟨⟩ e he
      obtain rfl := Option.some.inj ((last _).symm.trans he)
      exact body.mpr (fun hl => hw (congrArg Nat.succ hl))

/-! ## Texts -/

/-- With some statement in them, layers are read from JSON as a graph. -/
def TakesSome (p : List Layer) : Prop := ∃ s t g, Json.Denotes t (surround p s) ∧
  (surround p s).depth ≤ 127 ∧ parseJson t = .ok g

/-- What is read from JSON with any other statement in the layers. -/
theorem Leads.parseJson_eq_ok_iff {p : List Layer} (h : Leads .graph p) (hf : TakesSome p) :
    ∃ K : Surroundings, ∀ {s : Datum} {t : Text} {g : Graph}, Json.Denotes t (surround p s) →
      (surround p s).depth ≤ 127 →
      (parseJson t = .ok g ↔ (AtTop p → Source.KindNamed s) ∧
        ∃ a, Statement.ofDatum s = .ok a ∧ g = K.fill (a.redirect K.directed)) := by
  obtain ⟨s₀, t₀, g₀, ht₀, hd₀, read⟩ := hf
  obtain ⟨named, graph⟩ := (DotGraph.parseJson_eq_ok_iff ht₀ hd₀).mp read
  obtain ⟨K, hK⟩ := h.carries graph
  refine ⟨K, fun {s t g} ht hd => ?_⟩
  rw [DotGraph.parseJson_eq_ok_iff ht hd, h.bodyNamed_iff named, hK, Option.map_eq_some_iff]
  refine and_congr_right fun _ => exists_congr fun a => ?_
  rw [toOption_eq_some_iff, @eq_comm _ (K.fill _) g]

end Schema

open Schema

/-- **A statement means the same wherever it stands.** Two places for a statement, in the graph or
in containers at any depth, each in surroundings that can be read, take the same statements, and the
graphs have the same statement there, each with all flags set as in its graph. Only if one of the
places is in the graph itself and the other is not, the kind of the statement has to be no
number. -/
theorem parseJson_surround {p q : List Layer} (hp : Leads .graph p) (hq : Leads .graph q)
    (fp : TakesSome p) (fq : TakesSome q) :
    ∃ K L : Surroundings, ∀ {s : Datum} {t u : Text},
      (AtTop p ↔ AtTop q) ∨ Source.KindNamed s →
      Json.Denotes t (surround p s) → (surround p s).depth ≤ 127 →
      Json.Denotes u (surround q s) → (surround q s).depth ≤ 127 →
      ((∃ g, parseJson t = .ok g) ↔ ∃ g, parseJson u = .ok g) ∧
        ∀ g, parseJson t = .ok g → ∃ a : Statement, g = K.fill (a.redirect K.directed) ∧
          parseJson u = .ok (L.fill (a.redirect L.directed)) := by
  obtain ⟨K, hK⟩ := hp.parseJson_eq_ok_iff fp
  obtain ⟨L, hL⟩ := hq.parseJson_eq_ok_iff fq
  refine ⟨K, L, fun {s t u} hs ht hdt hu hdu => ?_⟩
  have named : (AtTop p → Source.KindNamed s) ↔ (AtTop q → Source.KindNamed s) := by
    rcases hs with same | hs
    · rw [same]
    · exact iff_of_true (fun _ => hs) (fun _ => hs)
  have transfer : ∀ g, parseJson t = .ok g → ∃ a : Statement,
      g = K.fill (a.redirect K.directed) ∧ parseJson u = .ok (L.fill (a.redirect L.directed)) := by
    intro g hg
    obtain ⟨hn, a, ha, rfl⟩ := (hK ht hdt).mp hg
    exact ⟨a, rfl, (hL hu hdu).mpr ⟨named.mp hn, a, ha, rfl⟩⟩
  refine ⟨⟨?_, ?_⟩, transfer⟩
  · rintro ⟨g, hg⟩
    obtain ⟨a, -, hu⟩ := transfer g hg
    exact ⟨_, hu⟩
  · rintro ⟨g, hg⟩
    obtain ⟨hn, a, ha, -⟩ := (hL hu hdu).mp hg
    exact ⟨_, (hK ht hdt).mpr ⟨named.mpr hn, a, ha, rfl⟩⟩

/-- A node at the source of an edge, in front of the flag of the graph, and the same node in the
graph itself. -/
theorem parseJson_surround_source :
    let edge : Layer := .member [⟨"kind".toList, .text "edge".toList⟩] "from".toList
      [⟨"to".toList, .text "b".toList⟩]
    let statements : List Member → List Layer := fun back =>
      [.member [] "statements".toList back, .item [] []]
    let flag : List Member := [⟨"directed".toList, .bool true⟩]
    let inner : List Layer :=
      statements flag ++ [edge, .member [] "subgraph".toList []] ++ statements []
    let node : Datum := .map [⟨"kind".toList, .text "node".toList⟩, ⟨"id".toList, .text "a".toList⟩]
    Leads .graph inner ∧ Leads .graph (statements flag) ∧ Source.KindNamed node ∧
      ∃ a : Statement, ∃ K L : Surroundings,
        parseJson (Json.print (surround inner node)) = .ok (K.fill (a.redirect K.directed)) ∧
        parseJson (Json.print (surround (statements flag) node)) =
          .ok (L.fill (a.redirect L.directed)) := by
  intro edge statements flag inner node
  have hq : Leads .graph (statements flag) := .graph (.body .here)
  have hp : Leads .graph inner := .graph (.body (.source (List.mem_cons_self ..)
    (.inline (.subgraph (.body .here)))))
  have named : Source.KindNamed node := by
    refine ⟨fun l hl e he => ?_, nofun⟩
    obtain rfl := Datum.map.inj hl
    rcases List.mem_cons.mp he with he | he
    · cases he
      trivial
    · cases List.mem_singleton.mp he
  have di : Json.Denotes (Json.print (surround inner node)) (surround inner node) :=
    Json.denotes_print (by simp [inner, statements, edge, flag, node, surround, Layer.around,
      Datum.Plain, Datum.PlainAll, Member.PlainAll])
  have dt : Json.Denotes (Json.print (surround (statements flag) node))
      (surround (statements flag) node) :=
    Json.denotes_print (by simp [statements, flag, node, surround, Layer.around, Datum.Plain,
      Datum.PlainAll, Member.PlainAll])
  have ri : (parseJson (Json.print (surround inner node))).toOption.isSome := by decide +kernel
  have rt : (parseJson (Json.print (surround (statements flag) node))).toOption.isSome := by
    decide +kernel
  have depth : (surround inner node).depth ≤ 127 ∧
      (surround (statements flag) node).depth ≤ 127 := by decide +kernel
  obtain ⟨g, hg⟩ := toOption_isSome_iff.mp ri
  obtain ⟨j, hj⟩ := toOption_isSome_iff.mp rt
  obtain ⟨K, L, h⟩ := parseJson_surround hp hq ⟨node, _, g, di, depth.1, hg⟩
    ⟨node, _, j, dt, depth.2, hj⟩
  obtain ⟨a, ha, hb⟩ := (h (.inr named) di depth.1 dt depth.2).2 g hg
  exact ⟨hp, hq, named, a, K, L, ha ▸ hg, hb⟩

/-- A kind given by its number is taken inside a subgraph but not in the graph itself. -/
theorem parseJson_surround_numbered :
    let node : Text := "[\x7b\"kind\":0,\"id\":\"a\"\x7d]\x7d".toList
    let statements : Text := "\"statements\":".toList
    let subgraph : Text := "[\x7b\"kind\":\"subgraph\",".toList
    (∃ g, parseJson ('\x7b' :: statements ++ subgraph ++ statements ++ node ++ "]\x7d".toList)
        = .ok g) ∧
      ¬ ∃ g, parseJson ('\x7b' :: statements ++ node) = .ok g := by
  intro node statements subgraph
  have nested : (parseJson ('\x7b' :: statements ++ subgraph ++ statements ++ node ++
      "]\x7d".toList)).toOption.isSome := by decide +kernel
  have top : ¬ (parseJson ('\x7b' :: statements ++ node)).toOption.isSome := by decide +kernel
  exact ⟨toOption_isSome_iff.mp nested, mt toOption_isSome_iff.mpr top⟩

end DotGraph
