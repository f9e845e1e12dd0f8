import DotGraph.Proofs.JsonGrammar
import DotGraph.Proofs.SameData

/-!
# One value in two formats

What is read from the text of a description depends on the value that it writes alone, not on its
format, on the order of its members or on their notation. The only exception is a kind given by its
number, which JSON and TOML treat differently inside a statement.

- `Dialect.parse_same`: texts that write one value are read as one graph, or both are refused.
-/

set_option autoImplicit false

namespace DotGraph

namespace Dialect

/-- Reads a graph from the text of a description that has a name. -/
def parse : Dialect → Text → Text → Except Error Graph
  | json, _, t => parseJson t
  | toml, name, t => parseToml name t

/-- A text writes a datum, within the limit of nesting of its format. For TOML this is what the
reader of its tables makes of the text. -/
def Denotes : Dialect → Text → Datum → Prop
  | json, t, d => Json.Denotes t d ∧ d.depth ≤ 127
  | toml, t, d => ∃ s, Toml.source? t = some s ∧ s.datum none = .ok d

/-- What is read from a text is described by its datum. In JSON the statements of the graph itself
do not have their kinds by number. -/
theorem parse_eq_ok_iff {D : Dialect} {t : Text} {d : Datum} (h : D.Denotes t d) {name : Text}
    {g : Graph} : D.parse name t = .ok g ↔
      (D = json → Graph.BodyNamed d) ∧ Graph.ofDatum? d = some g := by
  cases D with
  | json => simpa [parse] using parseJson_eq_ok_iff h.1 h.2
  | toml =>
    obtain ⟨s, hs, hd⟩ := h
    rw [← Graph.ofSource_iff .toml hd, parse, parseToml_eq_ok_iff_ofSource, hs]
    simp

end Dialect

/-! ## Values that are the same -/

variable {mixed : Prop}

theorem Datum.SameAll.getElem? : ∀ {l m : List Datum} {i : Nat} {e : Datum},
    Datum.SameAll mixed l m → m[i]? = some e → ∃ d, l[i]? = some d ∧ Datum.Same mixed d e
  | _, _, 0, _, .cons h _, hi => ⟨_, rfl, Option.some.inj hi ▸ h⟩
  | _, _, i + 1, _, .cons _ r, hi => Datum.SameAll.getElem? (i := i) r hi

theorem Member.SameAll.exists_mem {k : Text} {e : Datum} : ∀ {l m : List Member},
    Member.SameAll mixed l m → ⟨k, e⟩ ∈ m → ∃ d, ⟨k, d⟩ ∈ l ∧ Datum.Same mixed d e
  | _, _, .cons h r, he => by
    rcases List.mem_cons.mp he with he | he
    · cases he
      exact ⟨_, List.mem_cons_self .., h⟩
    · obtain ⟨d, hd, hs⟩ := r.exists_mem he
      exact ⟨d, List.mem_cons_of_mem _ hd, hs⟩

/-- If one of two lists of members is reordered, the other can be as well. -/
theorem Member.SameAll.perm {l l' m : List Member} (h : Member.SameAll mixed m l)
    (hp : l.Perm l') : ∃ m', m.Perm m' ∧ Member.SameAll mixed m' l' := by
  induction hp generalizing m with
  | nil => exact ⟨m, .refl m, h⟩
  | cons _ _ ih =>
    cases h with
    | cons hd h =>
      obtain ⟨m', hp, hm⟩ := ih h
      exact ⟨_ :: m', .cons _ hp, .cons hd hm⟩
  | swap =>
    cases h with
    | cons hd h =>
      cases h with
      | cons he h => exact ⟨_, .swap .., .cons he (.cons hd h)⟩
  | trans _ _ ih ih' =>
    obtain ⟨m', hp, hm⟩ := ih h
    obtain ⟨m'', hp', hm'⟩ := ih' hm
    exact ⟨m'', hp.trans hp', hm'⟩

mutual

theorem Datum.Same.symm : ∀ {d e : Datum}, Datum.Same mixed d e → Datum.Same mixed e d
  | _, _, .null => .null
  | _, _, .bool => .bool
  | _, _, .unsigned => .unsigned
  | _, _, .signed => .signed
  | _, _, .withSign hm hn => .withoutSign hm hn
  | _, _, .withoutSign hm hn => .withSign hm hn
  | _, _, .float => .float
  | _, _, .text => .text
  | _, _, .list h => .list h.symm
  | _, _, .map hp h => by
    obtain ⟨m', hm, hl⟩ := h.symm.perm hp.symm
    exact .map hm hl

theorem Datum.SameAll.symm : ∀ {l m : List Datum}, Datum.SameAll mixed l m →
    Datum.SameAll mixed m l
  | _, _, .nil => .nil
  | _, _, .cons h r => .cons h.symm r.symm

theorem Member.SameAll.symm : ∀ {l m : List Member}, Member.SameAll mixed l m →
    Member.SameAll mixed m l
  | _, _, .nil => .nil
  | _, _, .cons h r => .cons h.symm r.symm

end

/-! ## Kinds of statements of the graph itself -/

section Kinds

variable {d e : Datum}

theorem Datum.notNumbered_of_not_isWhole (h : ¬ d.IsWhole) : Source.NotNumbered d := by
  cases d with
  | unsigned n => exact absurd (.inl ⟨n, rfl⟩) h
  | null | bool | signed | float | text | list | map => trivial

theorem Datum.Same.notNumbered (h : Datum.Same mixed d e) (hc : mixed → ¬ d.IsWhole)
    (hd : Source.NotNumbered d) : Source.NotNumbered e := by
  cases h with
  | unsigned => exact hd
  | withoutSign hm => exact absurd (.inr ⟨_, rfl⟩) (hc hm)
  | null | bool | signed | withSign | float | text | list | map => trivial

open Schema

theorem Datum.Same.kindNamed (h : Datum.Same mixed d e) (hc : mixed → Unnumbered d)
    (hd : Source.KindNamed d) : Source.KindNamed e where
  map := by
    rintro m rfl c hm
    cases h with
    | map hp hs =>
      obtain ⟨b, hb, hs⟩ := hs.exists_mem hm
      replace hb := hp.mem_iff.mpr hb
      exact hs.notNumbered (fun hx => (hc hx).map _ rfl b hb) (hd.map _ rfl b hb)
  list := by
    rintro c m rfl
    cases h with
    | list hl =>
      cases hl with
      | cons hs _ => exact hs.notNumbered (fun hx => (hc hx).list _ _ rfl) (hd.list _ _ rfl)

theorem Datum.Same.bodyNamed_body (h : Datum.Same mixed d e) (hc : mixed → AllUnnumbered .body d)
    (hd : Head.BodyNamed d) : Head.BodyNamed e := by
  rintro m rfl c hm
  cases h with
  | list hl =>
    obtain ⟨i, hi⟩ := List.mem_iff_getElem?.mp hm
    obtain ⟨b, hb, hs⟩ := hl.getElem? hi
    have unnumbered : AllUnnumbered .body (.list _) → Unnumbered b := fun hx =>
      hx.item (q := .statement) hb (fun _ _ hp => .body hp) [] b .here rfl
    exact hs.kindNamed (fun hx => unnumbered (hc hx)) (hd _ rfl b (List.mem_of_getElem? hb))

/-- The statements of graphs that are one value have their kinds by number in both or neither. -/
theorem Datum.Same.bodyNamed (h : Datum.Same mixed d e) (hc : mixed → AllUnnumbered .graph d)
    (hd : Graph.BodyNamed d) : Graph.BodyNamed e where
  map := by
    rintro m rfl c hm
    cases h with
    | map hp hs =>
      obtain ⟨b, hb, hs⟩ := hs.exists_mem hm
      replace hb := hp.mem_iff.mpr hb
      exact hs.bodyNamed_body (fun hx => (hc hx).member hb (fun _ hp => .graph hp))
        (hd.map _ rfl b hb)
  list := by
    rintro m rfl c hm
    cases h with
    | list hl =>
      obtain ⟨b, hb, hs⟩ := hl.getElem? hm
      exact hs.bodyNamed_body (fun hx => (hc hx).item hb (fun _ hl hp => .graphItem hl hp))
        (hd.list _ rfl b hb)

end Kinds

namespace Schema

theorem Unnumbered.kindNamed {d : Datum} (h : Unnumbered d) : Source.KindNamed d where
  map l hl e he := Datum.notNumbered_of_not_isWhole (h.map l hl e he)
  list e l hl := Datum.notNumbered_of_not_isWhole (h.list e l hl)

theorem AllUnnumbered.bodyNamed_body {d : Datum} (h : AllUnnumbered .body d) :
    Head.BodyNamed d := by
  rintro l rfl e he
  obtain ⟨i, hi⟩ := List.mem_iff_getElem?.mp he
  have statement : AllUnnumbered .statement e := h.item hi (fun _ _ hp => .body hp)
  exact (statement [] e .here rfl).kindNamed

theorem AllUnnumbered.bodyNamed {d : Datum} (h : AllUnnumbered .graph d) : Graph.BodyNamed d where
  map := by
    rintro l rfl e he
    exact (h.member he (fun _ hp => .graph hp)).bodyNamed_body
  list := by
    rintro l rfl e he
    exact (h.item he (fun _ hl hp => .graphItem hl hp)).bodyNamed_body

theorem AllUnnumbered.of_graph {l : List Member}
    (h : ∀ v, ⟨"statements".toList, v⟩ ∈ l → AllUnnumbered .body v) :
    AllUnnumbered .graph (.map l) := by
  rintro p s hp hs
  cases hp with
  | graph hb =>
    cases hs
    exact h _ (List.mem_append_right _ (List.mem_cons_self ..)) _ s hb rfl
  | graphItem => cases hs

theorem AllUnnumbered.of_body {l : List Datum} (h : ∀ d ∈ l, AllUnnumbered .statement d) :
    AllUnnumbered .body (.list l) := by
  rintro p s hp hs
  cases hp with
  | body hb =>
    cases hs
    exact h _ (List.mem_append_right _ (List.mem_cons_self ..)) _ s hb rfl

/-- A statement whose fields hold no other parts of a graph. -/
theorem AllUnnumbered.of_statement {l : List Member} {k : Kind} (hl : (l.map Member.key).Nodup)
    (hk : OfKind l k) (hf : ∀ f ∈ k.fields, f.role? = none) :
    AllUnnumbered .statement (.map l) := by
  have other : ∀ {front back : List Member} {m : Member} {j : Kind}, l = front ++ m :: back →
      OfKind (front ++ back) j → j = k := by
    rintro front back m j rfl hj
    have whole := List.perm_middle.mem_iff.mpr (List.mem_cons_of_mem m hj)
    exact Kind.name_injective (Datum.text.inj (Member.value_unique hl whole hk))
  rintro p s hp hs
  cases hp with
  | here =>
    subst hs
    refine ⟨?_, nofun⟩
    rintro _ ⟨⟩ e he
    rw [Member.value_unique hl he hk]
    rintro (⟨_, ⟨⟩⟩ | ⟨_, ⟨⟩⟩)
  | nested hj =>
    cases other (Datum.map.inj hs) hj
    cases hf .body (by decide)
  | source hj =>
    cases other (Datum.map.inj hs) hj
    cases hf .source (by decide)
  | goal hj =>
    cases other (Datum.map.inj hs) hj
    cases hf .targets (by decide)
  | nestedItem | sourceItem | goalItem => cases hs

end Schema

/-! ## Formats -/

/-- **A description means the same in every format.** Two texts, each in JSON or TOML, that write
one value in which no map repeats a key are read as the same graph, or both are refused. If one is
in JSON and the other in TOML, the kinds of statements have to be no numbers. -/
theorem Dialect.parse_same {D E : Dialect} {t u : Text} {d e : Datum} (ht : D.Denotes t d)
    (hu : E.Denotes u e) (h : Datum.Same (D ≠ E) d e) (hd : d.Distinct)
    (hc : D ≠ E → Schema.AllUnnumbered .graph d) (m n : Text) (g : Graph) :
    D.parse m t = .ok g ↔ E.parse n u = .ok g := by
  have read : Graph.ofDatum? d = Graph.ofDatum? e := Schema.read?_same h hd hc
  have named : (D = json → Graph.BodyNamed d) ↔ (E = json → Graph.BodyNamed e) := by
    cases D with
    | json =>
      cases E with
      | json =>
        have same : ¬ (json ≠ json) := not_not.mpr rfl
        exact ⟨fun hb _ => h.bodyNamed (absurd · same) (hb rfl),
          fun hb _ => h.symm.bodyNamed (absurd · same) (hb rfl)⟩
      | toml => exact iff_of_true (fun _ => (hc nofun).bodyNamed) nofun
    | toml =>
      cases E with
      | json => exact iff_of_true nofun (fun _ => h.bodyNamed hc (hc nofun).bodyNamed)
      | toml => exact iff_of_true nofun nofun
  rw [parse_eq_ok_iff ht, parse_eq_ok_iff hu, read, named]

/-- A text in JSON denotes the datum that its reader makes of it. -/
theorem Dialect.denotes_json {t : Text} {d : Datum}
    (h : ((Json.source t).1.datum Json.room).toOption = some d ∧
      Json.skipBlanks (Json.source t).2 = []) : Dialect.json.Denotes t d :=
  Json.denotes_iff.mpr ⟨toOption_eq_some_iff.mp h.1, h.2⟩

/-- A text in TOML denotes the datum that its reader makes of it. -/
theorem Dialect.denotes_toml {u : Text} {e : Datum}
    (h : (Toml.source? u).bind (fun s => (s.datum none).toOption) = some e) :
    Dialect.toml.Denotes u e := by
  obtain ⟨s, hs, he⟩ := Option.bind_eq_some_iff.mp h
  exact ⟨s, hs, toOption_eq_some_iff.mp he⟩

/-- A node whose kind comes last in JSON, in front of the flag of the graph, and in an array of
tables in TOML. -/
theorem Dialect.parse_same_tables :
    let node : List Member := [⟨"id".toList, .text "a".toList⟩,
      ⟨"attributes".toList, .map [⟨"n".toList, .unsigned 1⟩]⟩, ⟨"kind".toList, .text "node".toList⟩]
    let table : List Member := [⟨"attributes".toList, .map [⟨"n".toList, .signed 1⟩]⟩,
      ⟨"id".toList, .text "a".toList⟩, ⟨"kind".toList, .text "node".toList⟩]
    let d : Datum := .map [⟨"statements".toList, .list [.map node]⟩,
      ⟨"directed".toList, .bool true⟩]
    let e : Datum := .map [⟨"directed".toList, .bool true⟩,
      ⟨"statements".toList, .list [.map table]⟩]
    let t : Text := ("\x7b\"statements\":[\x7b\"id\":\"a\",\"attributes\":\x7b\"n\":1\x7d," ++
      "\"kind\":\"node\"\x7d],\"directed\":true\x7d").toList
    let u : Text := ("directed = true\n[[statements]]\nkind = \"node\"\nid = \"a\"\n" ++
      "attributes.n = 1\n").toList
    (Dialect.json.Denotes t d ∧ Dialect.toml.Denotes u e ∧
      Datum.Same (Dialect.json ≠ .toml) d e ∧ d.Distinct ∧ Schema.AllUnnumbered .graph d) ∧
      ∀ g, parseJson t = .ok g ↔ parseToml [] u = .ok g := by
  intro node table d e t u
  have ht : Dialect.json.Denotes t d := Dialect.denotes_json (by decide +kernel)
  have hu : Dialect.toml.Denotes u e := Dialect.denotes_toml (by decide +kernel)
  have h : Datum.Same (Dialect.json ≠ .toml) d e := by
    have attributes : Datum.Same (Dialect.json ≠ .toml) (.map [⟨"n".toList, .unsigned 1⟩])
        (.map [⟨"n".toList, .signed 1⟩]) :=
      .map (.refl _) (.cons (.withSign nofun (by decide)) .nil)
    have statement : Datum.Same (Dialect.json ≠ .toml) (.map node) (.map table) :=
      .map (.swap ..) (.cons attributes (.cons .text (.cons .text .nil)))
    exact .map (.swap ..) (.cons .bool (.cons (.list (.cons statement .nil)) .nil))
  have hd : d.Distinct := by
    simp [d, node, Datum.Distinct, Datum.DistinctAll, Member.DistinctAll]
  have hc : Schema.AllUnnumbered .graph d := by
    refine .of_graph (fun v hv => ?_)
    obtain rfl : v = .list [.map node] := by simpa using hv
    refine .of_body (List.forall_mem_singleton.mpr ?_)
    have kind : Schema.OfKind node .node :=
      List.mem_cons_of_mem _ (List.mem_cons_of_mem _ (List.mem_cons_self ..))
    exact .of_statement (by simp [node]) kind (by decide)
  exact ⟨⟨ht, hu, h, hd, hc⟩, Dialect.parse_same ht hu h hd (fun _ => hc) [] []⟩

/-- A kind that is a number is taken inside a statement in JSON but not in TOML. -/
theorem Dialect.parse_same_numbered :
    let node : Datum → Datum := fun kind => .map [⟨"id".toList, .text "a".toList⟩,
      ⟨"kind".toList, kind⟩]
    let document : Datum → Datum := fun kind => .map [⟨"statements".toList,
      .list [.map [⟨"kind".toList, .text "subgraph".toList⟩,
        ⟨"statements".toList, .list [node kind]⟩]]⟩]
    let t : Text := ("\x7b\"statements\":[\x7b\"kind\":\"subgraph\",\"statements\":" ++
      "[\x7b\"id\":\"a\",\"kind\":0\x7d]\x7d]\x7d").toList
    let u : Text := ("[[statements]]\nkind = \"subgraph\"\n[[statements.statements]]\n" ++
      "id = \"a\"\nkind = 0\n").toList
    (Dialect.json.Denotes t (document (.unsigned 0)) ∧
      Dialect.toml.Denotes u (document (.signed 0)) ∧
      Datum.Same (Dialect.json ≠ .toml) (document (.unsigned 0)) (document (.signed 0)) ∧
      (document (.unsigned 0)).Distinct) ∧
      (∃ g, parseJson t = .ok g) ∧ ¬ ∃ g, parseToml [] u = .ok g := by
  intro node document t u
  have ht : Dialect.json.Denotes t (document (.unsigned 0)) :=
    Dialect.denotes_json (by decide +kernel)
  have hu : Dialect.toml.Denotes u (document (.signed 0)) :=
    Dialect.denotes_toml (by decide +kernel)
  have h : Datum.Same (Dialect.json ≠ .toml) (document (.unsigned 0)) (document (.signed 0)) := by
    have statement : Datum.Same (Dialect.json ≠ .toml) (node (.unsigned 0)) (node (.signed 0)) :=
      .map (.refl _) (.cons .text (.cons (.withSign nofun (by decide)) .nil))
    exact .map (.refl _) (.cons (.list (.cons (.map (.refl _) (.cons .text
      (.cons (.list (.cons statement .nil)) .nil))) .nil)) .nil)
  have hd : (document (.unsigned 0)).Distinct := by
    simp [document, node, Datum.Distinct, Datum.DistinctAll, Member.DistinctAll]
  have taken : (parseJson t).toOption.isSome := by decide +kernel
  have refused : ¬ (parseToml [] u).toOption.isSome := by decide +kernel
  exact ⟨⟨ht, hu, h, hd⟩, toOption_isSome_iff.mp taken, mt toOption_isSome_iff.mpr refused⟩

end DotGraph
