import DotGraph.Description.Layers
import DotGraph.Proofs.Contexts

/-!
# What layers carry

Layers that lead from a part of a graph to a statement, or to a value, are read as what is around
it. If they can be read with something at their end, then with anything else they can be read
exactly if this can, and nothing but the statement, or the value, differs. A value at a key of an
attribute list is one for which the key is not written again after it.

- `Schema.Within.carries`: what the layers around a statement or a value are read as.
- `Schema.Surroundings.hold_injective`: different values give different graphs.
-/

set_option autoImplicit false

namespace DotGraph

namespace Schema

/-! ## Values -/

/-- If the last layer is an attribute list, alone or among others, the key of what is in it is not
given again after it. -/
def Kept (s : Site) (p : List Layer) : Prop :=
  ∀ q front key back, p = q ++ [.member front key back] →
    Within s q .attributes ∨ Within s q .lists → Lacks back key

/-- The last layer is an identity with the key: a map in which the key is given, or a list. -/
inductive Assigns (key : Text) : List Layer → Prop where
  | map {front back : List Member} : ⟨"key".toList, .text key⟩ ∈ front ++ back →
      Assigns key [.member front "value".toList back]
  | list {kind : Datum} {back : List Datum} : Assigns key [.item [kind, .text key] back]
  | inside {layer : Layer} {p : List Layer} : Assigns key p → Assigns key (layer :: p)

/-- A carrier for what layers lead to: the key that has the value is the one of the last layer. -/
def Carrier.IsFor (p : List Layer) : Carrier → Prop
  | assign key => Assigns key p
  | listed _ _ _ key _ => ∃ q front back, p = q ++ [.member front key back]

theorem Kept.tail {s r : Site} {layer : Layer} {p : List Layer} (h : Kept s (layer :: p))
    (step : ∀ q t, Within r q t → Within s (layer :: q) t) : Kept r p := by
  rintro q front key back rfl hq
  exact h (layer :: q) front key back rfl (hq.imp (step q _) (step q _))

theorem Carrier.IsFor.cons {p : List Layer} {c : Carrier} (h : c.IsFor p) (layer : Layer) :
    c.IsFor (layer :: p) := by
  cases c with
  | assign key => exact .inside h
  | listed owner before others key after =>
    obtain ⟨q, front, back, rfl⟩ := h
    exact ⟨layer :: q, front, back, rfl⟩

/-! ## Layers -/

/-- What a part of a graph is read as if a statement is in a spot of it. The content tells which one
it is. -/
def Carries (content : Datum → Option Statement) (p : List Layer) : Role → Prop
  | .graph => ∃ s : Surroundings, ∀ d, Graph.ofDatum? (surround p d) =
      (content d).map (fun a => s.fill (a.redirect s.directed))
  | .subgraph => ∃ name, ∃ s : Spot, ∀ d,
      (Slots.ofSubgraph (surround p d)).toOption.map Slots.toSubgraph =
        (content d).map (fun a => ⟨name, false, s.fill false a⟩)
  | .body => ∃ s : Spot, ∀ d, (surround p d).asBody.toOption = (content d).map (s.fill false)
  | .statement => ∃ l : List Container, ∀ d, (Statement.ofDatum (surround p d)).toOption =
      (content d).map (fun a => l.foldr (Container.around false) a)
  | .endpoint => ∃ name, ∃ s : Spot, ∀ d, Endpoint.ofDatum? (surround p d) =
      (content d).map (fun a => .subgraph ⟨name, false, s.fill false a⟩)
  | .targets => ∃ earlier name, ∃ s : Spot, ∃ later, ∀ d, Endpoint.targetsOf? (surround p d) =
      (content d).map (fun a => earlier ++ .subgraph ⟨name, false, s.fill false a⟩ :: later)

/-- The spot after further statements. -/
def Spot.prepend (b : List Statement) (s : Spot) : Spot := ⟨b ++ s.before, s.containers, s.after⟩

theorem Spot.fill_prepend (b : List Statement) (s : Spot) (directed : Bool) (a : Statement) :
    (s.prepend b).fill directed a = b ++ s.fill directed a := by
  simp [prepend, fill]

section Steps

variable {content : Datum → Option Statement} {p : List Layer} {layer : Layer} {r : Slots}

/-- A subgraph whose statements vary. -/
theorem carries_subgraph (hb : Carries content p .body)
    (hr : ∀ v, Slots.ofSubgraph (layer.around v) = r.read v .body) :
    Carries content (layer :: p) .subgraph := by
  obtain ⟨s, hs⟩ := hb
  refine ⟨r.name.getD none, s.prepend (withOwnAttributes r.attributes none), fun d => ?_⟩
  rw [surround_cons, hr, Slots.toOption_read_body, hs, Option.map_map, Option.map_map]
  refine congrArg (fun f => (content d).map f) (funext fun a => ?_)
  rw [Function.comp_apply, Function.comp_apply, Slots.toSubgraph, withOwnAttributes_some,
    Spot.fill_prepend]

/-- A subgraph statement whose statements vary. -/
theorem carries_nested (hb : Carries content p .body)
    (hr : ∀ v, Statement.ofDatum (layer.around v) =
      (r.read v .body).bind (Slots.toStatement .subgraph)) :
    Carries content (layer :: p) .statement := by
  obtain ⟨s, hs⟩ := hb
  refine ⟨.subgraph (r.name.getD none) (withOwnAttributes r.attributes none ++ s.before) s.after ::
    s.containers, fun d => ?_⟩
  rw [surround_cons, hr, Slots.toOption_read_bind (r.toOption_read_body _) r.toStatement_body, hs,
    Option.map_map]
  refine congrArg (fun f => (content d).map f) (funext fun a => ?_)
  simp [Spot.fill, Container.around]

/-- An edge whose source varies. -/
theorem carries_source (he : Carries content p .endpoint) {v₀ : Datum} {a₀ : Statement}
    (hr : ∀ v, Statement.ofDatum (layer.around v) =
      (r.read v .source).bind (Slots.toStatement .edge))
    (h : Statement.ofDatum (layer.around v₀) = .ok a₀) :
    Carries content (layer :: p) .statement := by
  obtain ⟨name, s, hs⟩ := he
  obtain ⟨e₀, first⟩ := Slots.exists_of_read_bind (r.toOption_read_source v₀) ((hr v₀).symm.trans h)
  obtain ⟨targets, attributes, whole⟩ := Slots.toStatement_source first
  refine ⟨.source name s.before s.after targets attributes :: s.containers, fun d => ?_⟩
  rw [surround_cons, hr, Slots.toOption_read_bind (r.toOption_read_source _) whole, hs,
    Option.map_map]
  rfl

/-- An edge whose targets vary. -/
theorem carries_targets (ht : Carries content p .targets) {v₀ : Datum} {a₀ : Statement}
    (hr : ∀ v, Statement.ofDatum (layer.around v) =
      (r.read v .targets).bind (Slots.toStatement .edge))
    (h : Statement.ofDatum (layer.around v₀) = .ok a₀) :
    Carries content (layer :: p) .statement := by
  obtain ⟨earlier, name, s, later, hs⟩ := ht
  obtain ⟨l₀, first⟩ :=
    Slots.exists_of_read_bind (r.toOption_read_targets v₀) ((hr v₀).symm.trans h)
  obtain ⟨origin, attributes, hto⟩ := Slots.toStatement_targets first
  refine ⟨.target origin earlier name s.before s.after later attributes :: s.containers,
    fun d => ?_⟩
  have whole : ∀ a, Slots.toStatement .edge
      { r with targets := some (earlier ++ .subgraph ⟨name, false, s.fill false a⟩ :: later) } =
        .ok (.edge ⟨false, origin, earlier ++ .subgraph ⟨name, false, s.fill false a⟩ :: later,
          attributes⟩) := fun a => hto _ (by simp)
  rw [surround_cons, hr]
  refine Slots.toOption_read_bind ?_ whole
  rw [Slots.toOption_read_targets, hs, Option.map_map]
  rfl

end Steps

/-! ## Flags -/

/-- The container with every flag in it set. -/
def Container.redirect (d : Bool) : Container → Container
  | subgraph name before after =>
    .subgraph name (Statement.redirectAll d before) (Statement.redirectAll d after)
  | source name before after targets attributes =>
    .source name (Statement.redirectAll d before) (Statement.redirectAll d after)
      (Endpoint.redirectAll d targets) attributes
  | target origin earlier name before after later attributes =>
    .target (origin.redirect d) (Endpoint.redirectAll d earlier) name
      (Statement.redirectAll d before) (Statement.redirectAll d after)
      (Endpoint.redirectAll d later) attributes

theorem Container.redirect_around (d e : Bool) (c : Container) (a : Statement) :
    (c.around e a).redirect d = (c.redirect d).around d (a.redirect d) := by
  cases c <;> simp [around, redirect, Statement.redirect, Edge.redirect, Subgraph.redirect,
    Endpoint.redirect, Statement.redirectAll_append, Endpoint.redirectAll_append,
    Statement.redirectAll, Endpoint.redirectAll]

theorem Container.redirect_foldr (d e : Bool) (a : Statement) : ∀ l : List Container,
    (l.foldr (around e) a).redirect d = (l.map (redirect d)).foldr (around d) (a.redirect d)
  | [] => rfl
  | c :: l => by
    rw [List.foldr_cons, redirect_around, redirect_foldr d e a l, List.map_cons, List.foldr_cons]

/-- The spot with every flag around it set. -/
def Spot.redirect (d : Bool) (s : Spot) : Spot :=
  ⟨Statement.redirectAll d s.before, s.containers.map (Container.redirect d),
    Statement.redirectAll d s.after⟩

theorem Spot.redirectAll_fill (d e : Bool) (s : Spot) (a : Statement) :
    Statement.redirectAll d (s.fill e a) = (s.redirect d).fill d (a.redirect d) := by
  rw [fill, Statement.redirectAll_append, Statement.redirectAll, Container.redirect_foldr]
  rfl

/-- A graph whose statements vary. -/
theorem carries_graph {content : Datum → Option Statement} {p : List Layer} {layer : Layer}
    {r : Head} (hb : Carries content p .body) (hr : ∀ v, Graph.ofDatum? (layer.around v) =
      (r.readDatum v .body).toOption.map Head.toGraph) : Carries content (layer :: p) .graph := by
  obtain ⟨s, hs⟩ := hb
  let directed := r.directed.getD false
  refine ⟨⟨r.strict.getD false, directed, r.name.getD none,
    (s.prepend (withOwnAttributes r.attributes none)).redirect directed⟩, fun d => ?_⟩
  rw [surround_cons, hr, Head.toOption_read_body, hs, Option.map_map, Option.map_map]
  refine congrArg (fun f => (content d).map f) (funext fun a => ?_)
  rw [Function.comp_apply, Function.comp_apply, Head.toGraph, withOwnAttributes_some,
    ← Spot.fill_prepend, Spot.redirectAll_fill]
  rfl

/-! ## All layers -/

/-- Which statement the end of layers contributes: the one that is there, or one that carries the
value that is there. -/
def Contributes (p : List Layer) (content : Datum → Option Statement) : Site → Prop
  | .statement => content = fun d => (Statement.ofDatum d).toOption
  | .value => ∃ c : Carrier, c.IsFor p ∧ content = fun d => (Value.ofDatum? d).map c.fill
  | _ => False

/-- What a part is read as around a statement or a value at the end of layers. -/
def Carried (t : Site) (p : List Layer) : Site → Prop
  | .graph => ∃ content, Contributes p content t ∧ Carries content p .graph
  | .subgraph => ∃ content, Contributes p content t ∧ Carries content p .subgraph
  | .body => ∃ content, Contributes p content t ∧ Carries content p .body
  | .statement => ∃ content, Contributes p content t ∧ Carries content p .statement
  | .endpoint => ∃ content, Contributes p content t ∧ Carries content p .endpoint
  | .targets => ∃ content, Contributes p content t ∧ Carries content p .targets
  | .lists => t = .value ∧ ∃ (before : List Attrs) (others : Attrs) (key : Text)
      (after : List Attrs), (∃ q front back, p = q ++ [.member front key back]) ∧ ∀ d,
        (Attrs.listOfDatum (surround p d)).toOption =
          (Value.ofDatum? d).map (fun x => before ++ others.set key x :: after)
  | .attributes => t = .value ∧ ∃ (others : Attrs) (key : Text),
      (∃ q front back, p = q ++ [.member front key back]) ∧ ∀ d,
        (Attrs.ofDatum (surround p d)).toOption = (Value.ofDatum? d).map (others.set key)
  | .value => t = .value ∧ p = []

theorem Contributes.cons {t : Site} {p : List Layer} {content : Datum → Option Statement}
    (h : Contributes p content t) (layer : Layer) : Contributes (layer :: p) content t := by
  cases t with
  | statement => exact h
  | value =>
    obtain ⟨c, hc, rfl⟩ := h
    exact ⟨c, hc.cons layer, rfl⟩
  | graph | subgraph | body | endpoint | targets | lists | attributes => exact h.elim

section Layers

variable {t : Site} {p : List Layer} {layer : Layer}

/-- A graph of which one field varies. -/
theorem carried_graph {f : HeadField} {s : Site} (hs : f.site? = some s) {r : Head}
    (hr : ∀ v, Graph.ofDatum? (layer.around v) = (r.readDatum v f).toOption.map Head.toGraph)
    (inner : Carried t p s) : Carried t (layer :: p) .graph := by
  cases f with
  | strict | directed | name => cases hs
  | body =>
    cases hs
    obtain ⟨content, given, hb⟩ := inner
    exact ⟨content, given.cons layer, carries_graph hb hr⟩
  | attributes =>
    cases hs
    obtain ⟨rfl, others, key, ⟨q, front, back, rfl⟩, ha⟩ := inner
    let directed := r.directed.getD false
    let own : Carrier := .listed (.attr .graph) [] others key []
    refine ⟨_, ⟨own, ⟨layer :: q, front, back, rfl⟩, rfl⟩, ⟨r.strict.getD false, directed,
      r.name.getD none, Spot.redirect directed ⟨[], [], r.body.getD []⟩⟩, fun d => ?_⟩
    rw [surround_cons, hr, Head.readDatum, toOption_map, ha, Option.map_map, Option.map_map,
      Option.map_map]
    refine congrArg (fun f => (Value.ofDatum? d).map f) (funext fun x => ?_)
    simp only [Function.comp_apply, Head.toGraph, withOwnAttributes_set]
    exact congrArg (Graph.mk _ _ _) (Spot.redirectAll_fill directed false ⟨[], [], r.body.getD []⟩
      (own.fill x))

/-- A subgraph of which one field varies. -/
theorem carried_subgraph {f : StatementField} (hf : f ∈ Kind.subgraph.fields) {s : Site}
    (hs : f.site? = some s) {r : Slots}
    (hr : ∀ v, Slots.ofSubgraph (layer.around v) = r.read v f) (inner : Carried t p s) :
    Carried t (layer :: p) .subgraph := by
  cases f with
  | id | source | targets | component | key | value | lists => exact absurd hf (by decide)
  | name => cases hs
  | body =>
    cases hs
    obtain ⟨content, given, hb⟩ := inner
    exact ⟨content, given.cons layer, carries_subgraph hb hr⟩
  | attributes =>
    cases hs
    obtain ⟨rfl, others, key, ⟨q, front, back, rfl⟩, ha⟩ := inner
    let own : Carrier := .listed (.attr .graph) [] others key []
    refine ⟨_, ⟨own, ⟨layer :: q, front, back, rfl⟩, rfl⟩, r.name.getD none,
      ⟨[], [], r.body.getD []⟩, fun d => ?_⟩
    rw [surround_cons, hr, Slots.toOption_read_attributes, ha, Option.map_map, Option.map_map,
      Option.map_map]
    refine congrArg (fun f => (Value.ofDatum? d).map f) (funext fun x => ?_)
    simp only [Function.comp_apply, Slots.toSubgraph, withOwnAttributes_set]
    rfl

/-- An identity whose value varies. -/
theorem carried_assign {r : Slots} (hr : ∀ v, Statement.ofDatum (layer.around v) =
      (r.read v .value).bind (Slots.toStatement .assign)) {v₀ : Datum} {a₀ : Statement}
    (h : Statement.ofDatum (layer.around v₀) = .ok a₀)
    (hkey : ∀ key x, a₀ = .assign key x → Assigns key [layer]) (inner : Carried t p .value) :
    Carried t (layer :: p) .statement := by
  obtain ⟨rfl, rfl⟩ := inner
  obtain ⟨x₀, first⟩ := Slots.exists_of_read_bind (r.toOption_read_value v₀) ((hr v₀).symm.trans h)
  obtain ⟨key, given⟩ : ∃ key, r.key = some key :=
    Option.isSome_iff_exists.mp ((Slots.toStatement_ok_iff.mp ⟨a₀, first⟩).1 .key (by decide) rfl)
  have whole : ∀ x, Slots.toStatement .assign { r with value := some x } =
      .ok (.assign key x) := fun x => by
    simp [Slots.toStatement, Kind.fields, StatementField.required, Slots.has, given]
  have last := hkey key x₀ (Except.ok.inj (first.symm.trans (whole x₀)))
  refine ⟨_, ⟨.assign key, last, rfl⟩, [], fun d => ?_⟩
  rw [surround_cons, hr, Slots.toOption_read_bind (r.toOption_read_value _) whole, Option.map_map]
  rfl

/-- A statement whose attribute lists vary. -/
theorem carried_lists {k : Kind} (hk : .lists ∈ k.fields) {r : Slots}
    (hr : ∀ v, Statement.ofDatum (layer.around v) =
      (r.read v .lists).bind (Slots.toStatement k)) {v₀ : Datum} {a₀ : Statement}
    (h : Statement.ofDatum (layer.around v₀) = .ok a₀) (inner : Carried t p .lists) :
    Carried t (layer :: p) .statement := by
  obtain ⟨rfl, before, others, key, after, ⟨q, front, back, rfl⟩, hl⟩ := inner
  obtain ⟨l₀, first⟩ := Slots.exists_of_read_bind (r.toOption_read_lists v₀) ((hr v₀).symm.trans h)
  obtain ⟨owner, whole⟩ := Slots.toStatement_lists hk first
  refine ⟨_, ⟨.listed owner before others key after, ⟨layer :: q, front, back, rfl⟩, rfl⟩, [],
    fun d => ?_⟩
  rw [surround_cons, hr, Slots.toOption_read_bind (r.toOption_read_lists _) whole, hl,
    Option.map_map, Option.map_map]
  rfl

/-- A subgraph statement whose own attributes vary. -/
theorem carried_own {r : Slots} (hr : ∀ v, Statement.ofDatum (layer.around v) =
      (r.read v .attributes).bind (Slots.toStatement .subgraph)) (inner : Carried t p .attributes) :
    Carried t (layer :: p) .statement := by
  obtain ⟨rfl, others, key, ⟨q, front, back, rfl⟩, ha⟩ := inner
  have whole : ∀ a, Slots.toStatement .subgraph { r with attributes := some a } =
      .ok (.subgraph (Slots.toSubgraph { r with attributes := some a })) := fun _ => rfl
  refine ⟨_, ⟨.listed (.attr .graph) [] others key [], ⟨layer :: q, front, back, rfl⟩, rfl⟩,
    [.subgraph (r.name.getD none) [] (r.body.getD [])], fun d => ?_⟩
  rw [surround_cons, hr, Slots.toOption_read_bind (r.toOption_read_attributes _) whole, ha,
    Option.map_map, Option.map_map]
  refine congrArg (fun f => (Value.ofDatum? d).map f) (funext fun x => ?_)
  simp only [Function.comp_apply, Slots.toSubgraph, withOwnAttributes_set]
  rfl

/-- A statement of which one field varies. -/
theorem carried_statement {k : Kind} {f : StatementField} (hf : f ∈ k.fields) {s : Site}
    (hs : f.site? = some s) {r : Slots} (hr : ∀ v, Statement.ofDatum (layer.around v) =
      (r.read v f).bind (Slots.toStatement k)) {v₀ : Datum} {a₀ : Statement}
    (h : Statement.ofDatum (layer.around v₀) = .ok a₀)
    (hkey : f = .value → ∀ key x, a₀ = .assign key x → Assigns key [layer])
    (inner : Carried t p s) : Carried t (layer :: p) .statement := by
  cases f with
  | id | component | key | name => cases hs
  | lists =>
    cases hs
    exact carried_lists hf hr h inner
  | value =>
    cases hs
    cases k with
    | assign => exact carried_assign hr h (hkey rfl) inner
    | node | edge | attr | subgraph => exact absurd hf (by decide)
  | source =>
    cases hs
    cases k with
    | edge =>
      obtain ⟨content, given, he⟩ := inner
      exact ⟨content, given.cons layer, carries_source he hr h⟩
    | node | attr | subgraph | assign => exact absurd hf (by decide)
  | targets =>
    cases hs
    cases k with
    | edge =>
      obtain ⟨content, given, ht⟩ := inner
      exact ⟨content, given.cons layer, carries_targets ht hr h⟩
    | node | attr | subgraph | assign => exact absurd hf (by decide)
  | attributes =>
    cases hs
    cases k with
    | subgraph => exact carried_own hr inner
    | node | edge | attr | assign => exact absurd hf (by decide)
  | body =>
    cases hs
    cases k with
    | subgraph =>
      obtain ⟨content, given, hb⟩ := inner
      exact ⟨content, given.cons layer, carries_nested hb hr⟩
    | node | edge | attr | assign => exact absurd hf (by decide)

end Layers

/-- What holds of the end of layers holds of it inside the first one. -/
theorem Kept.inner {s r t : Site} {layer : Layer} {p : List Layer}
    (h : t = .statement ∨ t = .value ∧ Kept s (layer :: p))
    (step : ∀ q u, Within r q u → Within s (layer :: q) u) :
    t = .statement ∨ t = .value ∧ Kept r p :=
  h.imp_right (And.imp_right fun k => k.tail step)

theorem Kept.target {p : List Layer} (h : Kept .targets p) : Kept .endpoint p := by
  rintro q front key back rfl hq
  refine h q front key back rfl ?_
  rcases hq with hq | hq
  · cases hq with
    | endpoint hq => exact .inl (.target (.endpoint hq))
  · cases hq with
    | endpoint hq => exact .inr (.target (.endpoint hq))

theorem Kept.single {p : List Layer} (h : Kept .lists p) : Kept .attributes p := by
  rintro q front key back rfl hq
  refine h q front key back rfl (.inr ?_)
  rcases hq with hq | hq
  · cases hq with
    | here => exact .here
    | attributes hq => cases hq
  · cases hq with
    | attributes hq => cases hq

/-- **What layers carry.** If a part of a graph can be read with some statement, or some value, at
the end of the layers, then with every other one it is read as this one in the same spot. -/
theorem Within.carries {s t : Site} {p : List Layer} (h : Within s p t)
    (ht : t = .statement ∨ t = .value ∧ Kept s p) :
    ∀ {v₀ : Datum} {a₀ : s.Part}, s.read? (surround p v₀) = some a₀ → Carried t p s := by
  induction h with
  | here =>
    rintro v₀ a₀ -
    rcases ht with rfl | ⟨rfl, -⟩
    · exact ⟨_, rfl, [], fun _ => Option.map_id'.symm⟩
    · exact ⟨rfl, rfl⟩
  | @graph f s t front back p hs hp ih =>
    intro v₀ a₀ h
    obtain ⟨b, hb⟩ := (graph hs here).through.exists_of_eq_some h
    have inner := ih (Kept.inner ht fun _ _ => graph hs) hb
    obtain ⟨u, hu, -⟩ := Option.map_eq_some_iff.mp h
    obtain ⟨r, hr⟩ := Head.ofMembers_exchange (toOption_eq_some_iff.mp hu)
    exact carried_graph hs (fun v => congrArg (fun x => x.toOption.map Head.toGraph) (hr v)) inner
  | @graphItem f s t front back p hf hs hp ih =>
    intro v₀ a₀ h
    obtain ⟨b, hb⟩ := (graphItem hf hs here).through.exists_of_eq_some h
    have inner := ih (Kept.inner ht fun _ _ => graphItem hf hs) hb
    obtain ⟨u, hu, -⟩ := Option.map_eq_some_iff.mp h
    obtain ⟨r, hr⟩ := Head.ofData?_exchange (by decide) hf hu
    exact carried_graph hs (fun v => congrArg (Option.map Head.toGraph) (hr v)) inner
  | @subgraph f s t front back p hf hs hp ih =>
    intro v₀ a₀ h
    obtain ⟨b, hb⟩ := (subgraph hf hs here).through.exists_of_eq_some h
    have inner := ih (Kept.inner ht fun _ _ => subgraph hf hs) hb
    obtain ⟨u, hu, -⟩ := Option.map_eq_some_iff.mp h
    obtain ⟨r, hr⟩ := Slots.ofMembers_exchange hf (toOption_eq_some_iff.mp hu)
    exact carried_subgraph hf hs hr inner
  | @subgraphItem f s t front back p hf hs hp ih =>
    intro v₀ a₀ h
    obtain ⟨b, hb⟩ := (subgraphItem hf hs here).through.exists_of_eq_some h
    have inner := ih (Kept.inner ht fun _ _ => subgraphItem hf hs) hb
    obtain ⟨u, hu, -⟩ := Option.map_eq_some_iff.mp h
    obtain ⟨r, hr⟩ := Slots.ofItems_exchange Kind.subgraph.fields_nodup hf
      (toOption_eq_some_iff.mp hu)
    exact carried_subgraph (List.mem_of_getElem? hf) hs hr inner
  | @body t front back p hp ih =>
    intro v₀ a₀ h
    obtain ⟨b, hb⟩ := (body here).through.exists_of_eq_some h
    obtain ⟨content, given, l, hl⟩ := ih (Kept.inner ht fun _ _ => body) hb
    obtain ⟨before, after, items⟩ := mapM_exchange ((Statement.toOption_ofData _).symm.trans h)
    have read : ∀ d, (surround (.item front back :: p) d).asBody.toOption =
        (Statement.ofDatum (surround p d)).toOption.map (fun a => before ++ a :: after) :=
      fun d => (Statement.toOption_ofData _).trans (items _)
    refine ⟨content, given.cons _, ⟨before, l, after⟩, fun d => ?_⟩
    rw [read, hl, Option.map_map]
    rfl
  | @statement k f s t front back p hk hf hs hp ih =>
    intro v₀ a₀ h
    obtain ⟨b, hb⟩ := (statement hk hf hs here).through.exists_of_eq_some h
    have inner := ih (Kept.inner ht fun _ _ => statement hk hf hs) hb
    obtain ⟨r, hr⟩ := Statement.ofDatum_exchange hf hk (toOption_eq_some_iff.mp h)
    have stated := toOption_eq_some_iff.mp h
    refine carried_statement hf hs hr stated ?_ inner
    rintro rfl key x rfl
    have given := List.perm_middle.mem_iff.mp (Statement.key_mem_of_ofDatum_map stated)
    have other : "key".toList ≠ StatementField.value.text := by decide
    exact .map ((List.mem_cons.mp given).resolve_left (fun e => other (congrArg Member.key e)))
  | @statementItem k f s t kind front back p hk hf hs hp ih =>
    intro v₀ a₀ h
    obtain ⟨b, hb⟩ := (statementItem hk hf hs here).through.exists_of_eq_some h
    have inner := ih (Kept.inner ht fun _ _ => statementItem hk hf hs) hb
    obtain ⟨r, hr⟩ := Statement.ofDatum_exchangeItem hk hf (toOption_eq_some_iff.mp h)
    have stated := toOption_eq_some_iff.mp h
    refine carried_statement (List.mem_of_getElem? hf) hs hr stated ?_ inner
    rintro rfl key x rfl
    obtain ⟨d, rfl⟩ := List.length_eq_one_iff.mp (Kind.index_value hf)
    cases Statement.key_of_ofDatum_list stated
    exact .list
  | @endpoint t front back p hp ih =>
    intro v₀ a₀ h
    obtain ⟨b, hb⟩ := (endpoint here).through.exists_of_eq_some h
    obtain ⟨content, given, name, spot, hs⟩ := ih (Kept.inner ht fun _ _ => endpoint) hb
    have exchange := Endpoint.ofMembers?_exchange h
    refine ⟨content, given.cons _, name, spot, fun d => ?_⟩
    have read := congrArg (Option.map Endpoint.subgraph) (hs d)
    rw [Option.map_map, Option.map_map] at read
    exact (exchange _).trans read
  | @target t layer p hp ih =>
    intro v₀ a₀ h
    cases hp with
    | @endpoint _ front back p hp =>
    obtain ⟨e, he, -⟩ := Option.map_eq_some_iff.mp h
    obtain ⟨content, given, name, spot, hs⟩ := ih (ht.imp_right (And.imp_right Kept.target)) he
    refine ⟨content, given, [], name, spot, [], fun d => ?_⟩
    have read := congrArg (Option.map (fun e => [e])) (hs d)
    rwa [Option.map_map] at read
  | @targets t front back p hp ih =>
    intro v₀ a₀ h
    obtain ⟨b, hb⟩ := (targets here).through.exists_of_eq_some h
    obtain ⟨content, given, name, spot, hs⟩ := ih (Kept.inner ht fun _ _ => targets) hb
    obtain ⟨before, after, items⟩ := mapM_exchange ((Endpoint.ofData?_eq_mapM _).symm.trans h)
    have read : ∀ d, Endpoint.targetsOf? (surround (.item front back :: p) d) =
        (Endpoint.ofDatum? (surround p d)).map (fun e => before ++ e :: after) :=
      fun d => (Endpoint.ofData?_eq_mapM _).trans (items _)
    refine ⟨content, given.cons _, before, name, spot, after, fun d => ?_⟩
    rw [read, hs, Option.map_map]
    rfl
  | @single t layer p hp ih =>
    intro v₀ a₀ h
    cases hp with
    | @attributes _ front back key p hp =>
    obtain ⟨a, ha, -⟩ := Option.map_eq_some_iff.mp ((toOption_listOfDatum_map _).symm.trans h)
    obtain ⟨rfl, others, key, last, hs⟩ := ih (ht.imp_right (And.imp_right Kept.single)) ha
    refine ⟨rfl, [], others, key, [], last, fun d => ?_⟩
    have read := congrArg (Option.map (fun a => [a])) (hs d)
    rw [Option.map_map] at read
    exact (toOption_listOfDatum_map _).trans read
  | @lists t front back p hp ih =>
    intro v₀ a₀ h
    obtain ⟨b, hb⟩ := (lists here).through.exists_of_eq_some h
    obtain ⟨rfl, others, key, ⟨q, front', back', last⟩, ha⟩ :=
      ih (Kept.inner ht fun _ _ => lists) hb
    obtain ⟨before, after, items⟩ := mapM_exchange ((toOption_listOfDatum_list _).symm.trans h)
    have read : ∀ d, (Attrs.listOfDatum (surround (.item front back :: p) d)).toOption =
        (Attrs.ofDatum (surround p d)).toOption.map (fun a => before ++ a :: after) :=
      fun d => (toOption_listOfDatum_list _).trans (items _)
    refine ⟨rfl, before, others, key, after, ⟨_ :: q, front', back', congrArg _ last⟩, fun d => ?_⟩
    rw [read, ha]
    exact Option.map_map _ _ _
  | @attributes t front back key p hp ih =>
    intro v₀ a₀ h
    cases hp with
    | here =>
    rcases ht with ht | ⟨-, kept⟩
    · cases ht
    have lacks := kept [] front key back rfl (.inl here)
    obtain ⟨others, read⟩ := Attrs.ofMembers_exchange lacks (toOption_eq_some_iff.mp h)
    exact ⟨rfl, others, key, ⟨[], front, back, rfl⟩, read⟩

/-! ## Different values -/

theorem Container.around_injective (d : Bool) (c : Container) :
    Function.Injective (c.around d) := by
  intro a b h
  cases c <;> simpa [around] using h

theorem Spot.fill_injective (d : Bool) (s : Spot) : Function.Injective (s.fill d) := by
  have inside : ∀ l : List Container,
      Function.Injective (fun a => l.foldr (Container.around d) a) := by
    intro l
    induction l with
    | nil => exact fun _ _ h => h
    | cons c l ih => exact fun _ _ h => ih (c.around_injective d h)
  intro a b h
  exact inside s.containers (List.cons.inj (List.append_cancel_left h)).1

theorem Owner.withLists_injective (owner : Owner) : Function.Injective owner.withLists := by
  intro l m h
  cases owner <;> simpa [withLists] using h

/-- Flags are no part of attribute lists. -/
theorem Owner.exists_redirect_eq (d : Bool) (owner : Owner) :
    ∃ other : Owner, ∀ l, (owner.withLists l).redirect d = other.withLists l := by
  cases owner with
  | node id => exact ⟨.node id, fun _ => rfl⟩
  | edge e source targets =>
    exact ⟨.edge d (source.redirect d) (Endpoint.redirectAll d targets), fun _ => rfl⟩
  | attr component => exact ⟨.attr component, fun _ => rfl⟩

theorem Carrier.redirect_fill_injective (d : Bool) (c : Carrier) :
    Function.Injective (fun x => (c.fill x).redirect d) := by
  intro x y h
  cases c with
  | assign key => exact (Statement.assign.inj h).2
  | listed owner before others key after =>
    obtain ⟨other, same⟩ := owner.exists_redirect_eq d
    replace h : (owner.withLists _).redirect d = (owner.withLists _).redirect d := h
    rw [same, same] at h
    have written : others.set key x = others.set key y :=
      (List.cons.inj (List.append_cancel_left (other.withLists_injective h))).1
    have found := congrArg (fun a => a.get? key) written
    simpa [Attrs.get?_set] using found

/-- **Different values give different graphs.** -/
theorem Surroundings.hold_injective (s : Surroundings) (c : Carrier) :
    Function.Injective (s.hold c) := by
  intro x y h
  have body : s.spot.fill s.directed _ = s.spot.fill s.directed _ := congrArg Graph.body h
  exact c.redirect_fill_injective s.directed (s.spot.fill_injective s.directed body)

end Schema

end DotGraph
