import DotGraph.Proofs.Placement
import DotGraph.Proofs.Schema

/-!
# Surroundings that can be read

Which layers can be read with some statement in them. Those of a description that conforms to the
schema can, and so can every chain of containers with nothing else in them, whatever their order and
the flag of the graph, within the limit of nesting.

- `Schema.TakesSome.of_conforms`: layers of a description that conforms.
- `Schema.takesSome_chain`: chains of containers.
-/

set_option autoImplicit false

namespace DotGraph.Schema

/-- **Layers of a description that conforms to the schema can be read.** -/
theorem TakesSome.of_conforms {p : List Layer} {d : Datum} {t : Text}
    (ht : Json.Denotes t (surround p d)) (distinct : (surround p d).Distinct)
    (depth : (surround p d).depth ≤ 127) (conforms : Conforms .graph (surround p d)) :
    TakesSome p := by
  have regular := conforms.not_irregular distinct
  obtain ⟨g, hg⟩ := (parseJson_iff_conforms ht distinct depth regular).mpr conforms
  exact ⟨d, t, g, ht, depth, hg⟩

/-! ## Containers in each other -/

/-- A container with nothing but a statement in it: a subgraph, or an edge from a subgraph to a node
or from a node to a subgraph. -/
inductive Shape where
  | subgraph | source | target

/-- The layers of a subgraph in an edge. -/
def Shape.inline : List Layer :=
  [.member [] "subgraph".toList [], .member [] "statements".toList [], .item [] []]

/-- The layers of a container. -/
def Shape.layers : Shape → List Layer
  | subgraph =>
    [.member [⟨"kind".toList, .text Kind.subgraph.name⟩] "statements".toList [], .item [] []]
  | source => .member [⟨"kind".toList, .text Kind.edge.name⟩, ⟨"to".toList, .text ['a']⟩]
      "from".toList [] :: inline
  | target => .member [⟨"kind".toList, .text Kind.edge.name⟩, ⟨"from".toList, .text ['a']⟩]
      "to".toList [] :: inline

/-- A graph with containers in each other, the outermost first. -/
def chain (directed : Bool) (l : List Shape) : List Layer :=
  .member [⟨"directed".toList, .bool directed⟩] "statements".toList [] :: .item [] [] ::
    l.flatMap Shape.layers

theorem surround_append (p q : List Layer) (d : Datum) :
    surround (p ++ q) d = surround p (surround q d) :=
  List.foldr_append

/-- What each container keeps holds of all of them in each other. -/
theorem surround_shapes {P : Datum → Prop} (step : ∀ (s : Shape) d, P d → P (surround s.layers d))
    {d : Datum} (h : P d) : ∀ l : List Shape, P (surround (l.flatMap Shape.layers) d)
  | [] => h
  | s :: l => by
    rw [List.flatMap_cons, surround_append]
    exact step s _ (surround_shapes step h l)

theorem Leads.shape {p : List Layer} (h : Leads .statement p) (s : Shape) :
    Leads .statement (s.layers ++ p) := by
  have inline : Leads .endpoint (Shape.inline ++ p) := .inline (.subgraph (.body h))
  cases s with
  | subgraph => exact .nested (List.mem_cons_self ..) (.body h)
  | source => exact .source (List.mem_cons_self ..) inline
  | target => exact .goal (List.mem_cons_self ..) (.target inline)

/-- A chain leads to a statement. -/
theorem leads_chain (directed : Bool) (l : List Shape) : Leads .graph (chain directed l) := by
  refine .graph (.body ?_)
  induction l with
  | nil => exact .here
  | cons s l ih => exact ih.shape s

theorem depth_shape (s : Shape) (d : Datum) :
    (surround s.layers d).depth = s.layers.length + d.depth := by
  cases s <;> simp [Shape.layers, Shape.inline, surround, Layer.around, Datum.depth,
    Datum.depthAll, Member.depthAll] <;> omega

/-- Every layer of a chain is one level. -/
theorem depth_chain (directed : Bool) (l : List Shape) (d : Datum) :
    (surround (chain directed l) d).depth = (chain directed l).length + d.depth := by
  have inside : (surround (l.flatMap Shape.layers) d).depth =
      (l.flatMap Shape.layers).length + d.depth := by
    induction l with
    | nil => exact (Nat.zero_add _).symm
    | cons s l ih =>
      rw [List.flatMap_cons, surround_append, depth_shape, ih, List.length_append, Nat.add_assoc]
  have outer : (surround (chain directed l) d).depth =
      2 + (surround (l.flatMap Shape.layers) d).depth := by
    simp [chain, surround, Layer.around, Datum.depth, Datum.depthAll, Member.depthAll]
    omega
  rw [outer, inside, chain, List.length_cons, List.length_cons]
  omega

theorem lacks_singleton {j key : Text} {d : Datum} (h : j ≠ key) : Lacks [⟨j, d⟩] key :=
  List.forall_mem_singleton.mpr h

/-- A map is a subgraph with a single statement if no other member is a field. -/
theorem Conforms.holding {front : List Member} {d : Datum}
    (free : ∀ f ∈ Kind.subgraph.fields, Lacks front f.text) (h : Conforms .statement d) :
    Conforms .subgraph (.map (front ++ [⟨"statements".toList, .list [d]⟩])) := by
  refine conforms_subgraph_iff.mpr (fun f hf v hv => ?_)
  rcases List.mem_append.mp hv with hv | hv
  · exact absurd rfl (free f hf _ hv)
  · obtain ⟨text, rfl⟩ := Member.mk.inj (List.mem_singleton.mp hv)
    cases f with
    | body => exact .body (List.forall_mem_singleton.mpr h)
    | name | attributes => exact absurd text (by decide)
    | id | source | targets | component | key | value | lists => exact absurd hf (by decide)

theorem conforms_shape (s : Shape) {d : Datum} (h : Conforms .statement d) :
    Conforms .statement (surround s.layers d) := by
  have node : Conforms .endpoint (.text ['a']) := .named ⟨_, .ofName ['a'], rfl, by rfl⟩
  have bare : Conforms .subgraph (.map ([] ++ [⟨"statements".toList, .list [d]⟩])) :=
    .holding (fun _ _ => nofun) h
  have subgraph : Conforms .endpoint (surround Shape.inline d) :=
    .inline (List.mem_singleton_self _) bare
  cases s with
  | subgraph =>
    have free : ∀ f ∈ Kind.subgraph.fields, "kind".toList ≠ f.text := by decide
    exact .nested (List.mem_cons_self ..) (.holding (fun f hf => lacks_singleton (free f hf)) h)
  | source =>
    refine .edge (List.mem_cons_self ..) (List.mem_append_right _ (List.mem_singleton_self _))
      subgraph (List.mem_cons_of_mem _ (List.mem_cons_self ..)) (.target node) ?_
    intro v hv
    simp at hv
  | target =>
    refine .edge (List.mem_cons_self ..) (List.mem_cons_of_mem _ (List.mem_cons_self ..)) node
      (List.mem_append_right _ (List.mem_singleton_self _)) (.target subgraph) ?_
    intro v hv
    simp at hv

theorem plain_shape (s : Shape) {d : Datum} (h : d.Plain) : (surround s.layers d).Plain := by
  cases s <;> simpa [Shape.layers, Shape.inline, surround, Layer.around, Datum.Plain,
    Datum.PlainAll, Member.PlainAll] using h

theorem distinct_shape (s : Shape) {d : Datum} (h : d.Distinct) :
    (surround s.layers d).Distinct := by
  cases s <;> simpa [Shape.layers, Shape.inline, surround, Layer.around, Datum.Distinct,
    Datum.DistinctAll, Member.DistinctAll] using h

/-- **Every chain of containers within the limit of nesting can be read.** -/
theorem takesSome_chain {directed : Bool} {l : List Shape}
    (h : (chain directed l).length < 127) : TakesSome (chain directed l) := by
  let node : Datum := .map [⟨"kind".toList, .text Kind.node.name⟩, ⟨"id".toList, .text ['a']⟩]
  have id : Required [⟨"kind".toList, .text Kind.node.name⟩, ⟨"id".toList, .text ['a']⟩]
      "id".toList Datum.IsId :=
    ⟨.text ['a'], List.mem_cons_of_mem _ (List.mem_cons_self ..), _, .ofName ['a'], rfl, by rfl⟩
  have conforms : Conforms .statement (surround (l.flatMap Shape.layers) node) :=
    surround_shapes (P := Conforms .statement) (fun s _ => conforms_shape s)
      (.node (List.mem_cons_self ..) id (by intro v hv; simp at hv)) l
  have plain : (surround (l.flatMap Shape.layers) node).Plain :=
    surround_shapes (fun s _ => plain_shape s) (by simp [node, Datum.Plain, Member.PlainAll]) l
  have distinct : (surround (l.flatMap Shape.layers) node).Distinct :=
    surround_shapes (fun s _ => distinct_shape s)
      (by simp [node, Datum.Distinct, Member.DistinctAll]) l
  have free : ∀ f ∈ Kind.subgraph.fields, "directed".toList ≠ f.text := by decide
  have graph : Conforms .graph (surround (chain directed l) node) := by
    refine .graph ?_ ?_ (.holding (fun f hf => lacks_singleton (free f hf)) conforms)
    · intro v hv
      simp at hv
    · intro v hv
      simp only [List.singleton_append, List.mem_cons, Member.mk.injEq, true_and] at hv
      exact hv.elim (fun e => ⟨directed, e⟩) (fun e => by simp at e)
  have depth : (surround (chain directed l) node).depth ≤ 127 := by
    have one : node.depth = 1 := rfl
    rw [depth_chain, one]
    exact h
  refine .of_conforms (d := node) (Json.denotes_print ?_) ?_ depth graph
  · exact ⟨trivial, ⟨plain, trivial⟩, trivial⟩
  · exact ⟨by simp, trivial, ⟨distinct, trivial⟩, trivial⟩

end DotGraph.Schema
