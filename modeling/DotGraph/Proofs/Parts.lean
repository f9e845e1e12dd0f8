import DotGraph.Directed

/-!
# The parts of a graph

`Graph.parts` lists what stands in a graph at every depth, in the order of its text: names, flags,
the number of targets of each edge, node ids, and the entries of attribute lists and assignments. A
property of a whole graph is then a property of the members of one list.

- `Statement.parts_redirect`: redirecting changes the flags among the parts and nothing else.
- `Statement.redirectAll_eq_self`: statements whose flags all are `d` stay as they are.
- `Statement.redirectAll_redirectAll`: of two redirections the later one counts.
-/

set_option autoImplicit false

namespace DotGraph

/-- A part of a graph, at any depth. -/
inductive Part where
  /-- the name of a graph or subgraph -/
  | name (text : Text)
  /-- the flag of an edge or subgraph -/
  | flag (directed : Bool)
  /-- the number of targets of an edge -/
  | targets (count : Nat)
  /-- the id of a node statement or of an endpoint -/
  | node (id : NodeId)
  /-- an entry of an attribute list -/
  | entry (key : Text) (value : Value)
  /-- a plain assignment -/
  | assign (key : Text) (value : Value)
  deriving DecidableEq, Repr

/-- The part with its flag set to `d`, if it is one. -/
def Part.redirect (d : Bool) : Part → Part
  | .flag _ => .flag d
  | p => p

/-- The part for a name, if there is one. -/
def Part.ofName : Option Text → List Part
  | none => []
  | some n => [.name n]

/-- The parts of attribute lists: their entries in order. -/
def Attrs.parts (l : List Attrs) : List Part :=
  l.flatMap (fun a => a.entries.map (fun e => .entry e.1 e.2))

mutual

/-- The parts of a statement. -/
def Statement.parts : Statement → List Part
  | .node id l => .node id :: Attrs.parts l
  | .edge e => e.parts
  | .attr _ l => Attrs.parts l
  | .subgraph s => s.parts
  | .assign k v => [.assign k v]

/-- The parts of an endpoint. -/
def Endpoint.parts : Endpoint → List Part
  | .node id => [.node id]
  | .subgraph s => s.parts

/-- The parts of an edge. -/
def Edge.parts : Edge → List Part
  | ⟨d, s, t, l⟩ =>
    .flag d :: .targets t.length :: (s.parts ++ Endpoint.partsAll t ++ Attrs.parts l)

/-- The parts of a subgraph. -/
def Subgraph.parts : Subgraph → List Part
  | ⟨n, d, b⟩ => .flag d :: (Part.ofName n ++ Statement.partsAll b)

/-- The parts of statements. -/
def Statement.partsAll : List Statement → List Part
  | [] => []
  | s :: r => s.parts ++ Statement.partsAll r

/-- The parts of endpoints. -/
def Endpoint.partsAll : List Endpoint → List Part
  | [] => []
  | e :: r => e.parts ++ Endpoint.partsAll r

end

/-- The parts of a graph. The flag of the graph itself is none of them. -/
def Graph.parts (g : Graph) : List Part :=
  Part.ofName g.name ++ Statement.partsAll g.body

theorem Statement.partsAll_append :
    ∀ b c : List Statement, partsAll (b ++ c) = partsAll b ++ partsAll c
  | [], _ => rfl
  | s :: r, c => by simp [partsAll, partsAll_append r c]

theorem Statement.parts_subset_of_mem {s : Statement} {b : List Statement} (h : s ∈ b) :
    s.parts ⊆ partsAll b := by
  obtain ⟨c, d, rfl⟩ := List.append_of_mem h
  intro p hp
  simp [partsAll_append, partsAll, hp]

/-! ## Redirection -/

theorem Attrs.parts_redirect (d : Bool) (l : List Attrs) :
    (Attrs.parts l).map (Part.redirect d) = Attrs.parts l := by
  simp [Attrs.parts, List.map_flatMap, Function.comp_def, Part.redirect]

theorem Part.ofName_redirect (d : Bool) (n : Option Text) :
    (Part.ofName n).map (Part.redirect d) = Part.ofName n := by
  cases n <;> rfl

theorem Endpoint.length_redirectAll (d : Bool) :
    ∀ t : List Endpoint, (redirectAll d t).length = t.length
  | [] => rfl
  | _ :: r => by simp [redirectAll, length_redirectAll d r]

mutual

/-- **Redirecting changes the flags among the parts and nothing else.** -/
theorem Statement.parts_redirect (d : Bool) :
    ∀ s : Statement, (s.redirect d).parts = s.parts.map (Part.redirect d)
  | .node _ l => by
    simp only [Statement.redirect, Statement.parts, List.map_cons, Attrs.parts_redirect]
    rfl
  | .edge e => by simpa only [Statement.redirect, Statement.parts] using e.parts_redirect d
  | .attr _ l => by simp only [Statement.redirect, Statement.parts, Attrs.parts_redirect]
  | .subgraph s => by simpa only [Statement.redirect, Statement.parts] using s.parts_redirect d
  | .assign _ _ => rfl

theorem Endpoint.parts_redirect (d : Bool) :
    ∀ e : Endpoint, (e.redirect d).parts = e.parts.map (Part.redirect d)
  | .node _ => rfl
  | .subgraph s => by simpa only [Endpoint.redirect, Endpoint.parts] using s.parts_redirect d

theorem Edge.parts_redirect (d : Bool) :
    ∀ e : Edge, (e.redirect d).parts = e.parts.map (Part.redirect d)
  | ⟨_, s, t, l⟩ => by
    simp only [Edge.redirect, Edge.parts, List.map_cons, List.map_append, s.parts_redirect d,
      Endpoint.partsAll_redirect d t, Attrs.parts_redirect, Endpoint.length_redirectAll]
    rfl

theorem Subgraph.parts_redirect (d : Bool) :
    ∀ s : Subgraph, (s.redirect d).parts = s.parts.map (Part.redirect d)
  | ⟨n, _, b⟩ => by
    simp only [Subgraph.redirect, Subgraph.parts, List.map_cons, List.map_append,
      Part.ofName_redirect, Statement.partsAll_redirect d b]
    rfl

theorem Statement.partsAll_redirect (d : Bool) : ∀ b : List Statement,
    Statement.partsAll (Statement.redirectAll d b) = (Statement.partsAll b).map (Part.redirect d)
  | [] => rfl
  | s :: r => by
    simp only [Statement.redirectAll, Statement.partsAll, List.map_append, s.parts_redirect d,
      Statement.partsAll_redirect d r]

theorem Endpoint.partsAll_redirect (d : Bool) : ∀ t : List Endpoint,
    Endpoint.partsAll (Endpoint.redirectAll d t) = (Endpoint.partsAll t).map (Part.redirect d)
  | [] => rfl
  | e :: r => by
    simp only [Endpoint.redirectAll, Endpoint.partsAll, List.map_append, e.parts_redirect d,
      Endpoint.partsAll_redirect d r]

end

/-! ## Flags and targets -/

/-- All flags among the parts are `d`. -/
def Uniform (d : Bool) (l : List Part) : Prop :=
  ∀ e, Part.flag e ∈ l → e = d

/-- No edge among the parts is without a target. -/
def Targeted (l : List Part) : Prop :=
  Part.targets 0 ∉ l

@[simp]
theorem uniform_nil (d : Bool) : Uniform d [] := by
  intro e h
  cases h

@[simp]
theorem uniform_flag_cons {d e : Bool} {l : List Part} :
    Uniform d (.flag e :: l) ↔ e = d ∧ Uniform d l := by
  simp only [Uniform, List.mem_cons, Part.flag.injEq]
  constructor
  · intro h
    exact ⟨h e (.inl rfl), fun x hx => h x (.inr hx)⟩
  · rintro ⟨h, k⟩ x (rfl | hx)
    · exact h
    · exact k x hx

theorem uniform_cons {d : Bool} {p : Part} {l : List Part} (h : ∀ e, p ≠ .flag e) :
    Uniform d (p :: l) ↔ Uniform d l := by
  simp only [Uniform, List.mem_cons]
  constructor
  · exact fun k e he => k e (.inr he)
  · rintro k e (rfl | he)
    · exact absurd rfl (h e)
    · exact k e he

@[simp]
theorem uniform_append {d : Bool} {l m : List Part} :
    Uniform d (l ++ m) ↔ Uniform d l ∧ Uniform d m := by
  simp only [Uniform, List.mem_append]
  exact ⟨fun h => ⟨fun e he => h e (.inl he), fun e he => h e (.inr he)⟩,
    fun h e he => he.elim (h.1 e) (h.2 e)⟩

@[simp]
theorem targeted_append {l m : List Part} : Targeted (l ++ m) ↔ Targeted l ∧ Targeted m := by
  simp [Targeted]

theorem targeted_cons {p : Part} {l : List Part} :
    Targeted (p :: l) ↔ p ≠ .targets 0 ∧ Targeted l := by
  simp [Targeted, eq_comm]

theorem uniform_map_redirect (d : Bool) (l : List Part) : Uniform d (l.map (Part.redirect d)) := by
  intro e he
  obtain ⟨p, -, hp⟩ := List.mem_map.mp he
  cases p <;> simp_all [Part.redirect]

theorem targeted_map_redirect {d : Bool} {l : List Part} :
    Targeted (l.map (Part.redirect d)) ↔ Targeted l := by
  simp only [Targeted, List.mem_map, not_exists, not_and]
  constructor
  · exact fun h k => h _ k rfl
  · intro h p hp k
    cases p <;> simp_all [Part.redirect]

@[simp]
theorem Attrs.uniform_parts (d : Bool) (l : List Attrs) : Uniform d (Attrs.parts l) := by
  rw [← Attrs.parts_redirect d]
  exact uniform_map_redirect d _

@[simp]
theorem Attrs.targeted_parts (l : List Attrs) : Targeted (Attrs.parts l) := by
  simp [Targeted, Attrs.parts]

@[simp]
theorem Part.uniform_ofName (d : Bool) (n : Option Text) : Uniform d (Part.ofName n) := by
  rw [← Part.ofName_redirect d]
  exact uniform_map_redirect d _

@[simp]
theorem Part.targeted_ofName (n : Option Text) : Targeted (Part.ofName n) := by
  cases n <;> simp [Targeted, Part.ofName]

mutual

theorem Statement.redirect_eq_self {d : Bool} :
    ∀ s : Statement, Uniform d s.parts → s.redirect d = s
  | .node _ _, _ => rfl
  | .edge e, h => by
    rw [Statement.redirect, Edge.redirect_eq_self e h]
  | .attr _ _, _ => rfl
  | .subgraph s, h => by
    rw [Statement.redirect, Subgraph.redirect_eq_self s h]
  | .assign _ _, _ => rfl

theorem Endpoint.redirect_eq_self {d : Bool} :
    ∀ e : Endpoint, Uniform d e.parts → e.redirect d = e
  | .node _, _ => rfl
  | .subgraph s, h => by
    rw [Endpoint.redirect, Subgraph.redirect_eq_self s h]

theorem Edge.redirect_eq_self {d : Bool} : ∀ e : Edge, Uniform d e.parts → e.redirect d = e
  | ⟨f, s, t, l⟩, h => by
    rw [Edge.parts, uniform_flag_cons, uniform_cons (by simp), uniform_append, uniform_append] at h
    obtain ⟨rfl, ⟨hs, ht⟩, -⟩ := h
    rw [Edge.redirect, Endpoint.redirect_eq_self s hs, Endpoint.redirectAll_eq_self t ht]

theorem Subgraph.redirect_eq_self {d : Bool} :
    ∀ s : Subgraph, Uniform d s.parts → s.redirect d = s
  | ⟨n, f, b⟩, h => by
    rw [Subgraph.parts, uniform_flag_cons, uniform_append] at h
    obtain ⟨rfl, -, hb⟩ := h
    rw [Subgraph.redirect, Statement.redirectAll_eq_self b hb]

/-- **Statements whose flags all are `d` stay as they are.** -/
theorem Statement.redirectAll_eq_self {d : Bool} : ∀ b : List Statement,
    Uniform d (Statement.partsAll b) → Statement.redirectAll d b = b
  | [], _ => rfl
  | s :: r, h => by
    rw [Statement.partsAll, uniform_append] at h
    rw [Statement.redirectAll, Statement.redirect_eq_self s h.1,
      Statement.redirectAll_eq_self r h.2]

theorem Endpoint.redirectAll_eq_self {d : Bool} : ∀ t : List Endpoint,
    Uniform d (Endpoint.partsAll t) → Endpoint.redirectAll d t = t
  | [], _ => rfl
  | e :: r, h => by
    rw [Endpoint.partsAll, uniform_append] at h
    rw [Endpoint.redirectAll, Endpoint.redirect_eq_self e h.1, Endpoint.redirectAll_eq_self r h.2]

end

mutual

theorem Statement.redirect_redirect (d e : Bool) :
    ∀ s : Statement, (s.redirect e).redirect d = s.redirect d
  | .node _ _ => rfl
  | .edge g => by simp only [Statement.redirect, Edge.redirect_redirect d e g]
  | .attr _ _ => rfl
  | .subgraph g => by simp only [Statement.redirect, Subgraph.redirect_redirect d e g]
  | .assign _ _ => rfl

theorem Endpoint.redirect_redirect (d e : Bool) :
    ∀ x : Endpoint, (x.redirect e).redirect d = x.redirect d
  | .node _ => rfl
  | .subgraph g => by simp only [Endpoint.redirect, Subgraph.redirect_redirect d e g]

theorem Edge.redirect_redirect (d e : Bool) : ∀ g : Edge, (g.redirect e).redirect d = g.redirect d
  | ⟨_, s, t, _⟩ => by
    simp only [Edge.redirect, Endpoint.redirect_redirect d e s,
      Endpoint.redirectAll_redirectAll d e t]

theorem Subgraph.redirect_redirect (d e : Bool) :
    ∀ g : Subgraph, (g.redirect e).redirect d = g.redirect d
  | ⟨_, _, b⟩ => by simp only [Subgraph.redirect, Statement.redirectAll_redirectAll d e b]

/-- **Of two redirections the later one counts.** -/
theorem Statement.redirectAll_redirectAll (d e : Bool) : ∀ b : List Statement,
    Statement.redirectAll d (Statement.redirectAll e b) = Statement.redirectAll d b
  | [] => rfl
  | s :: r => by
    simp only [Statement.redirectAll, Statement.redirect_redirect d e s,
      Statement.redirectAll_redirectAll d e r]

theorem Endpoint.redirectAll_redirectAll (d e : Bool) : ∀ t : List Endpoint,
    Endpoint.redirectAll d (Endpoint.redirectAll e t) = Endpoint.redirectAll d t
  | [] => rfl
  | x :: r => by
    simp only [Endpoint.redirectAll, Endpoint.redirect_redirect d e x,
      Endpoint.redirectAll_redirectAll d e r]

end

end DotGraph
