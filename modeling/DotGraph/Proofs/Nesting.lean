import DotGraph.Proofs.Parts

/-!
# Edges and subgraphs at every depth

An edge or a subgraph is a branch of the statements it stands in. `Branch.Stands` says which
branches stand in statements at which depth: the edges and subgraphs among them, the subgraphs at
the ends of these edges, and everything inside the bodies of these subgraphs, one level deeper each
time.

- `Branch.Stands.parts_subset`: the parts of a branch are among those of the statements it stands
  in.
- `uniform_iff_stands`: all flags among the parts are one exactly if all branches have it.
-/

set_option autoImplicit false

namespace DotGraph

/-- An edge or a subgraph: what has a flag, and what other statements can stand in. -/
inductive Branch where
  | edge (edge : Edge)
  | subgraph (subgraph : Subgraph)

namespace Branch

/-- The flag of a branch. -/
def directed : Branch → Bool
  | edge e => e.directed
  | subgraph s => s.directed

/-- The parts of a branch. -/
def parts : Branch → List Part
  | edge e => e.parts
  | subgraph s => s.parts

/-- A subgraph whose body is one level below the statements: it is one of them, or it is the source
or a target of an edge among them. -/
inductive Opens (s : Subgraph) (b : List Statement) : Prop where
  | statement : .subgraph s ∈ b → Opens s b
  | source {e : Edge} : .edge e ∈ b → e.source = .subgraph s → Opens s b
  | target {e : Edge} : .edge e ∈ b → .subgraph s ∈ e.targets → Opens s b

/-- A branch stands in statements, so many levels below them. -/
inductive Stands : Nat → Branch → List Statement → Prop where
  | edge {e : Edge} {b : List Statement} : .edge e ∈ b → Stands 0 (.edge e) b
  | subgraph {s : Subgraph} {b : List Statement} : Opens s b → Stands 0 (.subgraph s) b
  | inside {k : Nat} {x : Branch} {s : Subgraph} {b : List Statement} : Opens s b →
      Stands k x s.body → Stands (k + 1) x b

/-! ## Parts -/

theorem endpoint_parts_subset_of_mem {e : Endpoint} : ∀ {t : List Endpoint}, e ∈ t →
    e.parts ⊆ Endpoint.partsAll t
  | u :: t, h => by
    rw [Endpoint.partsAll]
    rcases List.mem_cons.mp h with rfl | h
    · exact List.subset_append_left _ _
    · exact fun p hp => List.mem_append_right _ (endpoint_parts_subset_of_mem h hp)

theorem Opens.parts_subset {s : Subgraph} {b : List Statement} (h : Opens s b) :
    s.parts ⊆ Statement.partsAll b := by
  cases h with
  | statement hs => exact Statement.parts_subset_of_mem hs
  | @source e he hs =>
    refine fun p hp => Statement.parts_subset_of_mem he ?_
    have : p ∈ e.source.parts := by rwa [hs]
    cases e
    simp [Statement.parts, Edge.parts, this]
  | @target e he hs =>
    refine fun p hp => Statement.parts_subset_of_mem he ?_
    have : p ∈ Endpoint.partsAll e.targets := endpoint_parts_subset_of_mem hs hp
    cases e
    simp [Statement.parts, Edge.parts, this]

theorem body_parts_subset (s : Subgraph) : Statement.partsAll s.body ⊆ s.parts := by
  cases s
  intro p hp
  simp [Subgraph.parts, hp]

/-- **The parts of a branch are among those of the statements it stands in.** -/
theorem Stands.parts_subset {k : Nat} {x : Branch} {b : List Statement} (h : Stands k x b) :
    x.parts ⊆ Statement.partsAll b := by
  induction h with
  | edge he => exact Statement.parts_subset_of_mem he
  | subgraph hs => exact hs.parts_subset
  | inside hs _ ih => exact fun p hp => hs.parts_subset (body_parts_subset _ (ih hp))

theorem flag_mem_parts (x : Branch) : .flag x.directed ∈ x.parts := by
  cases x with
  | edge e => cases e; simp [parts, Edge.parts, directed]
  | subgraph s => cases s; simp [parts, Subgraph.parts, directed]

/-! ## Flags -/

theorem Opens.mono {s : Subgraph} {b c : List Statement} (hbc : b ⊆ c) (h : Opens s b) :
    Opens s c := by
  cases h with
  | statement hs => exact .statement (hbc hs)
  | source he hs => exact .source (hbc he) hs
  | target he hs => exact .target (hbc he) hs

theorem Stands.mono {k : Nat} {x : Branch} {b c : List Statement} (hbc : b ⊆ c)
    (h : Stands k x b) : Stands k x c := by
  cases h with
  | edge he => exact .edge (hbc he)
  | subgraph hs => exact .subgraph (hs.mono hbc)
  | inside hs hx => exact .inside (hs.mono hbc) hx

theorem opens_singleton {s t : Subgraph} : Opens s [.subgraph t] ↔ s = t := by
  constructor
  · intro h
    cases h with
    | statement hs => simpa using hs
    | source he _ | target he _ => simp at he
  · rintro rfl
    exact .statement (List.mem_singleton_self _)

/-- What stands in a subgraph that is opened in statements stands in these. -/
theorem Stands.of_opens {k : Nat} {x : Branch} {s : Subgraph} {b : List Statement} (h : Opens s b)
    (hx : Stands k x [.subgraph s]) : Stands k x b := by
  cases hx with
  | edge he => simp at he
  | subgraph hs => exact .subgraph (opens_singleton.mp hs ▸ h)
  | inside hs hx => exact .inside h (opens_singleton.mp hs ▸ hx)

/-- Some branch in statements has the flag `d`. Where is left open, so that what holds of a piece
can be said of the whole. -/
def Shows (d : Bool) (b : List Statement) : Prop :=
  ∃ k x, Stands k x b ∧ x.directed = d

theorem Shows.mono {d : Bool} {b c : List Statement} (hbc : b ⊆ c) : Shows d b → Shows d c
  | ⟨k, x, hx, hd⟩ => ⟨k, x, hx.mono hbc, hd⟩

theorem Shows.of_opens {d : Bool} {s : Subgraph} {b : List Statement} (h : Opens s b) :
    Shows d [.subgraph s] → Shows d b
  | ⟨k, x, hx, hd⟩ => ⟨k, x, hx.of_opens h, hd⟩

mutual

/-- A flag among the parts of a statement is that of a branch in it. -/
theorem shows_statement {d : Bool} : ∀ s : Statement, .flag d ∈ s.parts → Shows d [s]
  | .node _ l, h => by simp [Statement.parts, Attrs.parts] at h
  | .edge e, h => shows_edge e h
  | .attr _ l, h => by simp [Statement.parts, Attrs.parts] at h
  | .subgraph s, h => shows_subgraph s h
  | .assign _ _, h => by simp [Statement.parts] at h

theorem shows_edge {d : Bool} : ∀ e : Edge, .flag d ∈ e.parts → Shows d [.edge e]
  | ⟨f, s, t, l⟩, h => by
    have he : .edge ⟨f, s, t, l⟩ ∈ [Statement.edge ⟨f, s, t, l⟩] := List.mem_singleton_self _
    simp only [Edge.parts, List.mem_cons, Part.flag.injEq, reduceCtorEq, false_or,
      List.mem_append] at h
    rcases h with rfl | (h | h) | h
    · exact ⟨0, _, .edge he, rfl⟩
    · obtain ⟨g, rfl, hg⟩ := shows_endpoint s h
      exact hg.of_opens (.source he rfl)
    · obtain ⟨g, hm, hg⟩ := shows_endpoints t h
      exact hg.of_opens (.target he hm)
    · simp [Attrs.parts] at h

theorem shows_endpoint {d : Bool} : ∀ e : Endpoint, .flag d ∈ e.parts →
    ∃ g, e = .subgraph g ∧ Shows d [.subgraph g]
  | .node _, h => by simp [Endpoint.parts] at h
  | .subgraph s, h => ⟨s, rfl, shows_subgraph s h⟩

theorem shows_subgraph {d : Bool} : ∀ s : Subgraph, .flag d ∈ s.parts → Shows d [.subgraph s]
  | ⟨n, f, b⟩, h => by
    have hs : Opens ⟨n, f, b⟩ [.subgraph ⟨n, f, b⟩] := opens_singleton.mpr rfl
    simp only [Subgraph.parts, List.mem_cons, Part.flag.injEq, List.mem_append] at h
    rcases h with rfl | h | h
    · exact ⟨0, _, .subgraph hs, rfl⟩
    · cases n <;> simp [Part.ofName] at h
    · obtain ⟨k, x, hx, hd⟩ := shows_body b h
      exact ⟨k + 1, x, .inside hs hx, hd⟩

theorem shows_body {d : Bool} : ∀ b : List Statement, .flag d ∈ Statement.partsAll b → Shows d b
  | s :: r, h => by
    rw [Statement.partsAll, List.mem_append] at h
    rcases h with h | h
    · exact (shows_statement s h).mono (by simp)
    · exact (shows_body r h).mono (by simp)

theorem shows_endpoints {d : Bool} : ∀ t : List Endpoint, .flag d ∈ Endpoint.partsAll t →
    ∃ g, .subgraph g ∈ t ∧ Shows d [.subgraph g]
  | e :: r, h => by
    rw [Endpoint.partsAll, List.mem_append] at h
    rcases h with h | h
    · obtain ⟨g, rfl, hg⟩ := shows_endpoint e h
      exact ⟨g, List.mem_cons_self .., hg⟩
    · obtain ⟨g, hm, hg⟩ := shows_endpoints r h
      exact ⟨g, List.mem_cons_of_mem _ hm, hg⟩

end

end Branch

/-- **All flags among the parts are one exactly if all branches have it.** -/
theorem uniform_iff_stands {d : Bool} {b : List Statement} :
    Uniform d (Statement.partsAll b) ↔ ∀ k x, Branch.Stands k x b → x.directed = d := by
  constructor
  · intro h k x hx
    exact h _ (hx.parts_subset x.flag_mem_parts)
  · intro h e he
    obtain ⟨k, x, hx, rfl⟩ := Branch.shows_body b he
    exact h k x hx

end DotGraph
