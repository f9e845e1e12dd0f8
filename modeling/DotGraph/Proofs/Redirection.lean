import DotGraph.Proofs.Nesting
import DotGraph.Proofs.Soundness

/-!
# Redirection reaches every flag

Redirecting statements, an edge or a subgraph gives one flag to every branch in it, at every depth,
and changes nothing else. There is only one way to do that, so of two redirections the later one
counts, and a redirection changes nothing exactly if all flags were right before. What is read from
a description on its own, without a graph around it, has the flag `false` everywhere.

- `Statement.same_redirectAll`: redirected statements are equal to the old ones but for flags.
- `SetsFlags.of_view`: what redirecting does to statements it does to whatever consists of them.
- `redirect_setsFlags`: both for statements, edges and subgraphs.
-/

set_option autoImplicit false

namespace DotGraph

open Branch (Stands)

/-! ## Equality but for flags -/

mutual

/-- Two statements are equal but for the flags in them. -/
inductive Statement.SameButFlags : Statement → Statement → Prop where
  | node {i : NodeId} {l : List Attrs} : Statement.SameButFlags (.node i l) (.node i l)
  | edge {e f : Edge} : Edge.SameButFlags e f → Statement.SameButFlags (.edge e) (.edge f)
  | attr {c : Component} {l : List Attrs} : Statement.SameButFlags (.attr c l) (.attr c l)
  | subgraph {s t : Subgraph} : Subgraph.SameButFlags s t →
      Statement.SameButFlags (.subgraph s) (.subgraph t)
  | assign {k : Text} {v : Value} : Statement.SameButFlags (.assign k v) (.assign k v)

/-- Two endpoints are equal but for the flags in them. -/
inductive Endpoint.SameButFlags : Endpoint → Endpoint → Prop where
  | node {i : NodeId} : Endpoint.SameButFlags (.node i) (.node i)
  | subgraph {s t : Subgraph} : Subgraph.SameButFlags s t →
      Endpoint.SameButFlags (.subgraph s) (.subgraph t)

/-- Two edges are equal but for their flags and those in their endpoints. -/
inductive Edge.SameButFlags : Edge → Edge → Prop where
  | mk {d d' : Bool} {s s' : Endpoint} {t t' : List Endpoint} {l : List Attrs} :
      Endpoint.SameButFlags s s' → Endpoint.SameButFlagsAll t t' →
      Edge.SameButFlags ⟨d, s, t, l⟩ ⟨d', s', t', l⟩

/-- Two subgraphs are equal but for their flags and those in their bodies. -/
inductive Subgraph.SameButFlags : Subgraph → Subgraph → Prop where
  | mk {n : Option Text} {d d' : Bool} {b b' : List Statement} :
      Statement.SameButFlagsAll b b' → Subgraph.SameButFlags ⟨n, d, b⟩ ⟨n, d', b'⟩

/-- Two lists of statements are equal but for flags. -/
inductive Statement.SameButFlagsAll : List Statement → List Statement → Prop where
  | nil : Statement.SameButFlagsAll [] []
  | cons {s t : Statement} {b c : List Statement} : Statement.SameButFlags s t →
      Statement.SameButFlagsAll b c → Statement.SameButFlagsAll (s :: b) (t :: c)

/-- Two lists of endpoints are equal but for flags. -/
inductive Endpoint.SameButFlagsAll : List Endpoint → List Endpoint → Prop where
  | nil : Endpoint.SameButFlagsAll [] []
  | cons {e f : Endpoint} {t u : List Endpoint} : Endpoint.SameButFlags e f →
      Endpoint.SameButFlagsAll t u → Endpoint.SameButFlagsAll (e :: t) (f :: u)

end

mutual

theorem Statement.same_redirect (d : Bool) : ∀ s : Statement, s.SameButFlags (s.redirect d)
  | .node _ _ => .node
  | .edge e => .edge (Edge.same_redirect d e)
  | .attr _ _ => .attr
  | .subgraph s => .subgraph (Subgraph.same_redirect d s)
  | .assign _ _ => .assign

theorem Endpoint.same_redirect (d : Bool) : ∀ e : Endpoint, e.SameButFlags (e.redirect d)
  | .node _ => .node
  | .subgraph s => .subgraph (Subgraph.same_redirect d s)

theorem Edge.same_redirect (d : Bool) : ∀ e : Edge, e.SameButFlags (e.redirect d)
  | ⟨_, s, t, _⟩ => .mk (Endpoint.same_redirect d s) (Endpoint.same_redirectAll d t)

theorem Subgraph.same_redirect (d : Bool) : ∀ s : Subgraph, s.SameButFlags (s.redirect d)
  | ⟨_, _, b⟩ => .mk (Statement.same_redirectAll d b)

/-- **Redirected statements are equal to the old ones but for flags.** -/
theorem Statement.same_redirectAll (d : Bool) : ∀ b : List Statement,
    Statement.SameButFlagsAll b (Statement.redirectAll d b)
  | [] => .nil
  | s :: r => .cons (Statement.same_redirect d s) (Statement.same_redirectAll d r)

theorem Endpoint.same_redirectAll (d : Bool) : ∀ t : List Endpoint,
    Endpoint.SameButFlagsAll t (Endpoint.redirectAll d t)
  | [] => .nil
  | e :: r => .cons (Endpoint.same_redirect d e) (Endpoint.same_redirectAll d r)

end

mutual

theorem Statement.SameButFlags.redirect_eq (d : Bool) : ∀ {s t : Statement}, s.SameButFlags t →
    s.redirect d = t.redirect d
  | _, _, .node => rfl
  | _, _, .edge h => congrArg Statement.edge (h.redirect_eq d)
  | _, _, .attr => rfl
  | _, _, .subgraph h => congrArg Statement.subgraph (h.redirect_eq d)
  | _, _, .assign => rfl

theorem Endpoint.SameButFlags.redirect_eq (d : Bool) : ∀ {e f : Endpoint}, e.SameButFlags f →
    e.redirect d = f.redirect d
  | _, _, .node => rfl
  | _, _, .subgraph h => congrArg Endpoint.subgraph (h.redirect_eq d)

theorem Edge.SameButFlags.redirect_eq (d : Bool) : ∀ {e f : Edge}, e.SameButFlags f →
    e.redirect d = f.redirect d
  | _, _, .mk hs ht => by rw [Edge.redirect, Edge.redirect, hs.redirect_eq d, ht.redirect_eq d]

theorem Subgraph.SameButFlags.redirect_eq (d : Bool) : ∀ {s t : Subgraph}, s.SameButFlags t →
    s.redirect d = t.redirect d
  | _, _, .mk h => by rw [Subgraph.redirect, Subgraph.redirect, h.redirect_eq d]

/-- Statements that are equal but for flags are equal once they are redirected. -/
theorem Statement.SameButFlagsAll.redirect_eq (d : Bool) : ∀ {b c : List Statement},
    Statement.SameButFlagsAll b c → Statement.redirectAll d b = Statement.redirectAll d c
  | _, _, .nil => rfl
  | _, _, .cons h r => by
    rw [Statement.redirectAll, Statement.redirectAll, h.redirect_eq d, r.redirect_eq d]

theorem Endpoint.SameButFlagsAll.redirect_eq (d : Bool) : ∀ {t u : List Endpoint},
    Endpoint.SameButFlagsAll t u → Endpoint.redirectAll d t = Endpoint.redirectAll d u
  | _, _, .nil => rfl
  | _, _, .cons h r => by
    rw [Endpoint.redirectAll, Endpoint.redirectAll, h.redirect_eq d, r.redirect_eq d]

end

/-! ## Setting flags -/

/-- What `f d` does to things that consist of statements: it gives the flag `d` to every branch at
every depth and changes nothing else. -/
structure SetsFlags {α : Type} (view : α → List Statement) (f : Bool → α → α) : Prop where
  /-- every branch has the flag afterwards -/
  flags (d : Bool) (a : α) : ∀ k x, Stands k x (view (f d a)) → x.directed = d
  /-- all else is as before -/
  rest (d : Bool) (a : α) : Statement.SameButFlagsAll (view a) (view (f d a))
  /-- nothing else has these two properties -/
  unique (d : Bool) (a c : α) : Statement.SameButFlagsAll (view a) (view c) →
    (∀ k x, Stands k x (view c) → x.directed = d) → c = f d a
  /-- the later flag counts -/
  later (d e : Bool) (a : α) : f d (f e a) = f d a
  /-- nothing changes exactly if every branch has had the flag before -/
  fixed (d : Bool) (a : α) : f d a = a ↔ ∀ k x, Stands k x (view a) → x.directed = d

/-- **What redirecting does to statements it does to whatever consists of them.** -/
theorem SetsFlags.of_view {α : Type} {view : α → List Statement} {f : Bool → α → α}
    (hv : Function.Injective view) (hf : ∀ d a, view (f d a) = Statement.redirectAll d (view a)) :
    SetsFlags view f := by
  have flags : ∀ d a, Uniform d (Statement.partsAll (view (f d a))) := by
    intro d a
    rw [hf, Statement.partsAll_redirect]
    exact uniform_map_redirect d _
  constructor
  case flags => exact fun d a => uniform_iff_stands.mp (flags d a)
  case rest =>
    intro d a
    rw [hf]
    exact Statement.same_redirectAll d _
  case unique =>
    intro d a c h hc
    apply hv
    rw [hf, h.redirect_eq d, Statement.redirectAll_eq_self _ (uniform_iff_stands.mpr hc)]
  case later =>
    intro d e a
    apply hv
    rw [hf, hf, hf, Statement.redirectAll_redirectAll]
  case fixed =>
    intro d a
    rw [← uniform_iff_stands]
    constructor
    · intro h
      rw [← h]
      exact flags d a
    · intro h
      apply hv
      rw [hf, Statement.redirectAll_eq_self _ h]

/-- **Redirecting reaches every flag and nothing else**, in lists of statements, in edges and in
subgraphs. A statement or subgraph that is read on its own, whatever its text and format, has the
flag `false` at every depth. -/
theorem redirect_setsFlags :
    SetsFlags id Statement.redirectAll ∧
    SetsFlags (fun e => [.edge e]) Edge.redirect ∧
    SetsFlags (fun s => [.subgraph s]) Subgraph.redirect ∧
    (∀ (dialect : Dialect) (room : Room) (v : Source) (a : Statement),
      v.asStatement dialect room = .ok a → ∀ k x, Stands k x [a] → x.directed = false) ∧
    ∀ (dialect : Dialect) (room : Room) (v : Source) (s : Subgraph),
      Subgraph.ofSource dialect room v = .ok s →
      ∀ k x, Stands k x [.subgraph s] → x.directed = false := by
  refine ⟨.of_view Function.injective_id fun _ _ => rfl, .of_view ?_ fun _ _ => rfl,
    .of_view ?_ fun _ _ => rfl, ?_, ?_⟩
  · intro e f h
    simpa using h
  · intro s t h
    simpa using h
  · intro dialect room v a h
    have : Sound false (Statement.partsAll [a]) := by
      simpa [Statement.partsAll] using Source.sound_asStatement h
    exact uniform_iff_stands.mp (sound_iff.mp this).1
  · intro dialect room v s h
    have : Sound false (Statement.partsAll [.subgraph s]) := by
      simpa [Statement.partsAll, Statement.parts] using Subgraph.sound_ofSource h
    exact uniform_iff_stands.mp (sound_iff.mp this).1

/-- An edge from a subgraph, read on its own and as the body of a subgraph. -/
theorem redirect_setsFlags_read :
    let text : Text → Source := fun t => .scalar none (.text t)
    let v : Source := .map none [⟨some "kind".toList, text "edge".toList⟩,
      ⟨some "from".toList, .map none [⟨some "subgraph".toList, .map none [] true⟩] true⟩,
      ⟨some "to".toList, text "a".toList⟩] true
    let u : Source := .map none [⟨some "statements".toList, .list none [v] true⟩] true
    let g : Subgraph := ⟨none, false, []⟩
    let a : Statement := .edge ⟨false, .subgraph g, [.node ⟨"a".toList, none⟩], []⟩
    let s : Subgraph := ⟨none, false, [a]⟩
    v.asStatement .toml none = .ok a ∧ Subgraph.ofSource .json Json.room u = .ok s ∧
      Stands 0 (.subgraph g) [a] ∧ Stands 1 (.subgraph g) [.subgraph s] ∧
      (∀ k x, Stands k x [a] → x.directed = false) ∧
      ∀ k x, Stands k x [.subgraph s] → x.directed = false := by
  intro text v u g a s
  have hv : v.asStatement .toml none = .ok a := by rfl
  have hu : Subgraph.ofSource .json Json.room u = .ok s := by rfl
  have hg : Branch.Opens g [a] := .source (List.mem_singleton_self _) rfl
  refine ⟨hv, hu, .subgraph hg, .inside (.statement (List.mem_singleton_self _)) (.subgraph hg),
    redirect_setsFlags.2.2.2.1 _ _ v a hv, redirect_setsFlags.2.2.2.2 _ _ u s hu⟩

end DotGraph
