import DotGraph.Builder
import DotGraph.Description.Statement

/-!
# What building steps contribute

A step contributes statements to its container, and possibly fails. Both are determined by the step
itself and the flag of the container, whatever statements the container holds already: a program
leaves these in place and appends what its steps contribute, one after the other. A step that fails
contributes nothing, except that a supervised subgraph stays with what the steps up to the failure
have contributed to it.

- `Container.step_contributes`: a step appends its contribution and has its fault.
- `Step.Rules`, `Step.rules`: what each kind of step contributes, and when it fails.
- `Container.run_contributes`: a program appends what its steps contribute by these rules.
-/

set_option autoImplicit false

namespace DotGraph

/-! ## Contributions and faults -/

/-- The fault of a text as a node id. -/
def NodeId.fault (t : Text) : Option ArgumentFault :=
  match NodeId.parse t with
  | .ok _ => none
  | .error f => some f

/-- The node id that a text gives, or a name that is the whole text if it gives none. -/
def NodeId.ofText (t : Text) : NodeId :=
  match NodeId.parse t with
  | .ok id => id
  | .error _ => .ofName t

mutual

/-- The fault of a step, if it fails. -/
def Step.fault : Step → Option ArgumentFault
  | .edge s t _ => if t.isEmpty then some .noDestination else (s :: t).findSome? NodeId.fault
  | .edgeBetween _ t _ => if t.isEmpty then some .noDestination else none
  | .defaultsNamed k _ => match Component.ofKeyword? k with
    | some _ => none
    | none => some (.unknownComponent k)
  | .invalid f => some f
  | .supervised _ _ steps => Step.firstFault steps
  | .node .. | .defaults .. | .assign .. | .push _ | .copy _ | .refused | .subgraph .. => none

/-- The fault of the first step that fails. -/
def Step.firstFault : List Step → Option ArgumentFault
  | [] => none
  | s :: r => match s.fault with
    | some f => some f
    | none => Step.firstFault r

end

/-- Steps up to and including the first that fails. -/
def Step.untilFault : List Step → List Step
  | [] => []
  | s :: r => if s.fault.isSome then [s] else s :: Step.untilFault r

/-- The statement of default attributes, if there are any. -/
def Statement.defaults (c : Component) (a : Attrs) : List Statement :=
  if a.isEmpty then [] else [.attr c [a]]

mutual

/-- The statements that a step contributes to a container with the flag `d`. -/
def Step.contribution (d : Bool) : Step → List Statement
  | .node id a => [.node id [a]]
  | .edge s t a =>
    if (Step.edge s t a).fault.isSome then []
    else [.edge ⟨d, .node (.ofText s), t.map (fun x => .node (.ofText x)), [a]⟩]
  | .edgeBetween s t a =>
    if t.isEmpty then [] else [.edge ⟨d, s.redirect d, Endpoint.redirectAll d t, [a]⟩]
  | .defaultsNamed k a => match Component.ofKeyword? k with
    | some c => Statement.defaults c a
    | none => []
  | .defaults c a => Statement.defaults c a
  | .assign k v => [.assign k v]
  | .push s => [s]
  | .copy _ | .invalid _ | .refused => []
  | .subgraph n a steps =>
    [.subgraph ⟨n, d, Statement.defaults .graph a ++ Step.contributions d steps⟩]
  | .supervised n a steps =>
    [.subgraph ⟨n, d, Statement.defaults .graph a ++ Step.contributionsUntilFault d steps⟩]

/-- The statements that steps contribute, one after the other. -/
def Step.contributions (d : Bool) : List Step → List Statement
  | [] => []
  | s :: r => s.contribution d ++ Step.contributions d r

/-- The statements that steps contribute up to and including the first that fails. -/
def Step.contributionsUntilFault (d : Bool) : List Step → List Statement
  | [] => []
  | s :: r => s.contribution d ++ if s.fault.isSome then [] else Step.contributionsUntilFault d r

end

mutual

/-- A step that is given all it needs: nowhere in it a statement is copied from its container. -/
def Step.Direct : Step → Prop
  | .copy _ => False
  | .subgraph _ _ steps | .supervised _ _ steps => Step.DirectAll steps
  | .node .. | .edge .. | .edgeBetween .. | .defaultsNamed .. | .defaults .. | .assign ..
  | .push _ | .invalid _ | .refused => True

/-- Steps that are given all they need. -/
def Step.DirectAll : List Step → Prop
  | [] => True
  | s :: r => s.Direct ∧ Step.DirectAll r

end

namespace Step

theorem firstFault_eq : ∀ steps : List Step, firstFault steps = steps.findSome? fault
  | [] => rfl
  | s :: r => by
    rw [firstFault, List.findSome?_cons, firstFault_eq r]
    cases s.fault <;> rfl

theorem contributionsUntilFault_eq (d : Bool) : ∀ steps : List Step,
    contributionsUntilFault d steps = contributions d (untilFault steps)
  | [] => rfl
  | s :: r => by
    rw [contributionsUntilFault, untilFault, contributionsUntilFault_eq d r]
    cases s.fault with
    | some f => rfl
    | none => rfl

/-- **A step that fails contributes nothing**, unless it fills a subgraph under supervision. -/
theorem contribution_of_fault {d : Bool} {s : Step} {f : ArgumentFault} (h : s.fault = some f)
    (hs : ∀ n a steps, s ≠ .supervised n a steps) : s.contribution d = [] := by
  cases s with
  | edge s t a =>
    rw [contribution, h]
    rfl
  | edgeBetween s t a =>
    rw [fault] at h
    rw [contribution]
    split at h
    · rename_i ht
      rw [if_pos ht]
    · cases h
  | defaultsNamed k a =>
    rw [fault] at h
    rw [contribution]
    cases hk : Component.ofKeyword? k with
    | none => rfl
    | some c =>
      rw [hk] at h
      cases h
  | invalid f => rfl
  | supervised n a steps => exact absurd rfl (hs n a steps)
  | node | defaults | assign | push | copy | refused | subgraph => cases h

/-- An edge between texts fails exactly if there is no target or one of the texts is no id. -/
theorem fault_edge_eq_none_iff {s : Text} {t : List Text} {a : Attrs} :
    (Step.edge s t a).fault = none ↔
      t ≠ [] ∧ ∀ x ∈ s :: t, ∃ id, NodeId.parse x = .ok id := by
  have hid : ∀ x, NodeId.fault x = none ↔ ∃ id, NodeId.parse x = .ok id := by
    intro x
    unfold NodeId.fault
    cases NodeId.parse x <;> simp
  rw [fault]
  cases t with
  | nil => simp
  | cons y r =>
    rw [if_neg (by simp), List.findSome?_eq_none_iff]
    simp only [hid, ne_eq, reduceCtorEq, not_false_eq_true, true_and]

end Step

/-! ## Steps -/

theorem NodeId.ofText_of_parse {t : Text} {id : NodeId} (h : parse t = .ok id) :
    ofText t = id := by
  rw [ofText, h]

theorem NodeId.map_ofText {l : List Text} {ids : List NodeId}
    (h : l.map parse = ids.map .ok) : l.map ofText = ids := by
  induction l generalizing ids with
  | nil =>
    cases ids with
    | nil => rfl
    | cons id r => cases h
  | cons t r ih =>
    cases ids with
    | nil => cases h
    | cons id s =>
      simp only [List.map_cons, List.cons.injEq] at h ⊢
      exact ⟨ofText_of_parse h.1, ih h.2⟩

theorem Endpoint.redirectAll_nodes (d : Bool) (f : Text → NodeId) : ∀ l : List Text,
    redirectAll d (l.map (fun x => .node (f x))) = l.map (fun x => .node (f x))
  | [] => rfl
  | x :: r => by
    rw [List.map_cons, redirectAll, redirectAll_nodes d f r]
    rfl

namespace Container

/-- The container with statements appended. -/
def extend (c : Container) (l : List Statement) : Container :=
  ⟨c.directed, c.statements ++ l⟩

@[simp]
theorem extend_nil (c : Container) : c.extend [] = c := by
  rw [extend, List.append_nil]

@[simp]
theorem extend_extend (c : Container) (l m : List Statement) :
    (c.extend l).extend m = c.extend (l ++ m) := by
  simp only [extend, List.append_assoc]

@[simp]
theorem extend_directed (c : Container) (l : List Statement) :
    (c.extend l).directed = c.directed := rfl

theorem defaults_eq (c : Container) (k : Component) (a : Attrs) :
    c.defaults k a = c.extend (Statement.defaults k a) := by
  unfold defaults Statement.defaults
  split
  · exact (extend_nil c).symm
  · rfl

theorem opened_eq (d : Bool) (a : Attrs) : opened d a = ⟨d, Statement.defaults .graph a⟩ := by
  rw [opened, defaults_eq]
  rfl

theorem endpoints_eq : ∀ l : List Text,
    endpoints l = match l.findSome? NodeId.fault with
      | some f => .error f
      | none => .ok (l.map (fun x => .node (.ofText x)))
  | [] => rfl
  | t :: r => by
    rw [endpoints, endpoints_eq r, List.findSome?_cons, NodeId.fault, List.map_cons, NodeId.ofText]
    cases NodeId.parse t with
    | error f => rfl
    | ok id => cases r.findSome? NodeId.fault <;> rfl

theorem edgeBetween_eq (c : Container) (s : Endpoint) (t : List Endpoint) (a : Attrs) :
    c.edgeBetween s t a = if t.isEmpty then .error .noDestination else .ok (c.push
      (.edge ⟨c.directed, s.redirect c.directed, Endpoint.redirectAll c.directed t, [a]⟩)) := by
  cases t <;> rfl

theorem edge_eq (c : Container) (s : Text) (t : List Text) (a : Attrs) :
    c.edge s t a = match (Step.edge s t a).fault with
      | some f => .error f
      | none => .ok (c.push
        (.edge ⟨c.directed, .node (.ofText s), t.map (fun x => .node (.ofText x)), [a]⟩)) := by
  rw [edge, Step.fault]
  cases t with
  | nil => rfl
  | cons x r =>
    have hfirst : ∀ l : List Text, (s :: l).findSome? NodeId.fault = match NodeId.fault s with
        | some f => some f
        | none => l.findSome? NodeId.fault := by
      intro l
      rw [List.findSome?_cons]
      cases NodeId.fault s <;> rfl
    rw [if_neg (by simp), if_neg (by simp), endpoints_eq, hfirst]
    cases hp : NodeId.parse s with
    | error f =>
      have hf : NodeId.fault s = some f := by rw [NodeId.fault, hp]
      rw [hf]
    | ok id =>
      have hf : NodeId.fault s = none := by rw [NodeId.fault, hp]
      rw [hf, NodeId.ofText_of_parse hp]
      cases (x :: r).findSome? NodeId.fault with
      | some f => rfl
      | none =>
        simp only [edgeBetween_eq, Endpoint.redirectAll_nodes]
        rfl

/-- A simple step appends its contribution and has its fault. -/
theorem settle_contributes {c : Container} {x : Except ArgumentFault Container} {s : Step}
    (h : x = match s.fault with
      | some f => .error f
      | none => .ok (c.extend (s.contribution c.directed)))
    (hs : ∀ n a steps, s ≠ .supervised n a steps) :
    (c.settle x).1 = c.extend (s.contribution c.directed) ∧ (c.settle x).2.fault = s.fault := by
  rw [h]
  cases hf : s.fault with
  | none => exact ⟨rfl, rfl⟩
  | some f =>
    rw [Step.contribution_of_fault hf hs, extend_nil]
    exact ⟨rfl, rfl⟩

mutual

/-- **A step appends its contribution and has its fault.** -/
theorem step_contributes (c : Container) : ∀ s : Step, s.Direct →
    (step c s).1 = c.extend (s.contribution c.directed) ∧ (step c s).2.fault = s.fault
  | .node id a, _ => ⟨rfl, rfl⟩
  | .edge s t a, _ => by
    refine settle_contributes ?_ (by simp)
    rw [edge_eq, Step.contribution]
    cases (Step.edge s t a).fault <;> rfl
  | .edgeBetween s t a, _ => by
    refine settle_contributes ?_ (by simp)
    cases t <;> rfl
  | .defaultsNamed k a, _ => by
    refine settle_contributes ?_ (by simp)
    rw [defaultsNamed, Component.parse, Step.fault, Step.contribution]
    cases Component.ofKeyword? k with
    | none => rfl
    | some j => exact congrArg Except.ok (defaults_eq c j a)
  | .defaults k a, _ => ⟨defaults_eq c k a, rfl⟩
  | .assign k v, _ => ⟨rfl, rfl⟩
  | .push s, _ => ⟨rfl, rfl⟩
  | .copy i, h => h.elim
  | .invalid f, _ => ⟨(extend_nil c).symm, rfl⟩
  | .refused, _ => ⟨(extend_nil c).symm, rfl⟩
  | .subgraph n a steps, h => by
    obtain ⟨hr, -⟩ := run_contributes_all (opened c.directed a) steps h
    rw [step, Step.contribution]
    simp only [hr]
    rw [opened_eq]
    exact ⟨rfl, rfl⟩
  | .supervised n a steps, h => by
    obtain ⟨hr, hf⟩ := runUntilFault_contributes (opened c.directed a) steps h
    rw [step, Step.contribution]
    simp only [hr, hf]
    rw [opened_eq]
    exact ⟨rfl, rfl⟩

theorem run_contributes_all (c : Container) : ∀ steps : List Step, Step.DirectAll steps →
    (run c steps).1 = c.extend (Step.contributions c.directed steps) ∧
      (run c steps).2.map Outcome.fault = steps.map Step.fault
  | [], _ => ⟨(extend_nil c).symm, rfl⟩
  | s :: r, h => by
    rw [Step.DirectAll] at h
    obtain ⟨hs, hf⟩ := step_contributes c s h.1
    obtain ⟨hr, hg⟩ := run_contributes_all (c.extend (s.contribution c.directed)) r h.2
    rw [run, Step.contributions]
    simp only [List.map_cons, hs, hf, hr, hg, extend_extend, extend_directed, and_self]

theorem runUntilFault_contributes (c : Container) : ∀ steps : List Step, Step.DirectAll steps →
    (runUntilFault c steps).1 = c.extend (Step.contributionsUntilFault c.directed steps) ∧
      (runUntilFault c steps).2.2 = Step.firstFault steps
  | [], _ => ⟨(extend_nil c).symm, rfl⟩
  | s :: r, h => by
    rw [Step.DirectAll] at h
    obtain ⟨hs, hf⟩ := step_contributes c s h.1
    obtain ⟨hr, hg⟩ := runUntilFault_contributes (c.extend (s.contribution c.directed)) r h.2
    rw [runUntilFault, Step.contributionsUntilFault, Step.firstFault]
    simp only [hs, hf]
    cases s.fault with
    | some f => exact ⟨congrArg c.extend (List.append_nil _).symm, rfl⟩
    | none => exact ⟨hr.trans (extend_extend c _ _), hg⟩

end

end Container

/-! ## Rules -/

namespace Step

theorem contributions_eq (d : Bool) : ∀ steps : List Step,
    contributions d steps = steps.flatMap (contribution d)
  | [] => rfl
  | s :: r => by
    rw [contributions, contributions_eq d r, List.flatMap_cons]

/-- Steps of which none fails are all run. -/
theorem untilFault_of_forall {steps : List Step} (h : ∀ s ∈ steps, s.fault = none) :
    untilFault steps = steps ∧ steps.findSome? fault = none := by
  induction steps with
  | nil => exact ⟨rfl, rfl⟩
  | cons s r ih =>
    obtain ⟨hs, hr⟩ := List.forall_mem_cons.mp h
    obtain ⟨hu, hf⟩ := ih hr
    refine ⟨?_, List.findSome?_eq_none_iff.mpr h⟩
    rw [untilFault, hs, hu]
    rfl

/-- Steps are run up to and including the first that fails. -/
theorem untilFault_append {before : List Step} {s : Step} {f : ArgumentFault}
    (h : ∀ x ∈ before, x.fault = none) (hs : s.fault = some f) (after : List Step) :
    untilFault (before ++ s :: after) = before ++ [s] ∧
      (before ++ s :: after).findSome? fault = some f := by
  induction before with
  | nil =>
    rw [List.nil_append, untilFault, List.findSome?_cons, hs]
    exact ⟨rfl, rfl⟩
  | cons x r ih =>
    obtain ⟨hx, hr⟩ := List.forall_mem_cons.mp h
    obtain ⟨hu, hf⟩ := ih hr
    rw [List.cons_append, untilFault, List.findSome?_cons, hx, hu, hf]
    exact ⟨rfl, rfl⟩

/-- The rules for what each kind of step contributes to a container with the flag `d`, and for when
it fails. -/
structure Rules (d : Bool) (contribution : Step → List Statement)
    (fault : Step → Option ArgumentFault) : Prop where
  node : ∀ id a, contribution (.node id a) = [.node id [a]] ∧ fault (.node id a) = none
  assign : ∀ k v, contribution (.assign k v) = [.assign k v] ∧ fault (.assign k v) = none
  push : ∀ s, contribution (.push s) = [s] ∧ fault (.push s) = none
  /-- an edge between texts fails exactly without targets or if some text is no id -/
  edge_fault : ∀ s t a, fault (.edge s t a) = none ↔
    t ≠ [] ∧ ∀ x ∈ s :: t, ∃ id, NodeId.parse x = .ok id
  edge : ∀ s t a id (ids : List NodeId), t ≠ [] → NodeId.parse s = .ok id →
    t.map NodeId.parse = ids.map .ok →
      contribution (.edge s t a) = [.edge ⟨d, .node id, ids.map .node, [a]⟩]
  edgeBetween_fault : ∀ s t a, fault (.edgeBetween s t a) = none ↔ t ≠ []
  edgeBetween : ∀ s t a, t ≠ [] → contribution (.edgeBetween s t a) =
    [.edge ⟨d, s.redirect d, Endpoint.redirectAll d t, [a]⟩]
  defaults : ∀ c a, contribution (.defaults c a) = (if a.isEmpty then [] else [.attr c [a]]) ∧
    fault (.defaults c a) = none
  defaultsNamed : ∀ k c a, Component.ofKeyword? k = some c →
    contribution (.defaultsNamed k a) = contribution (.defaults c a) ∧
      fault (.defaultsNamed k a) = none
  /-- an unknown keyword is a fault also without attributes -/
  defaultsNamed_fault : ∀ k a, Component.ofKeyword? k = none →
    fault (.defaultsNamed k a) = some (.unknownComponent k)
  /-- a subgraph starts with its own attributes; faults inside it are not its own -/
  subgraph : ∀ n a steps, contribution (.subgraph n a steps) =
      [.subgraph ⟨n, d, contribution (.defaults .graph a) ++ steps.flatMap contribution⟩] ∧
    fault (.subgraph n a steps) = none
  supervised : ∀ n a steps, (∀ s ∈ steps, fault s = none) →
    contribution (.supervised n a steps) = contribution (.subgraph n a steps) ∧
      fault (.supervised n a steps) = none
  /-- under supervision the first fault ends the filling, and what was filled in stays -/
  supervised_fault : ∀ n a before s after f, (∀ x ∈ before, fault x = none) → fault s = some f →
    contribution (.supervised n a (before ++ s :: after)) =
        contribution (.subgraph n a (before ++ [s])) ∧
      fault (.supervised n a (before ++ s :: after)) = some f
  failed : ∀ s f, fault s = some f → (∀ n a steps, s ≠ .supervised n a steps) →
    contribution s = []

theorem contribution_subgraph (d : Bool) (n : Option Text) (a : Attrs) (steps : List Step) :
    contribution d (.subgraph n a steps) =
      [.subgraph ⟨n, d, Statement.defaults .graph a ++ steps.flatMap (contribution d)⟩] := by
  rw [contribution, contributions_eq]

theorem contribution_supervised (d : Bool) (n : Option Text) (a : Attrs) (steps : List Step) :
    contribution d (.supervised n a steps) = contribution d (.subgraph n a (untilFault steps)) := by
  rw [contribution, contribution, contributionsUntilFault_eq]

theorem fault_supervised (n : Option Text) (a : Attrs) (steps : List Step) :
    fault (.supervised n a steps) = steps.findSome? fault := by
  rw [fault, firstFault_eq]

theorem contribution_edge {d : Bool} {s : Text} {t : List Text} {a : Attrs} {id : NodeId}
    {ids : List NodeId} (ht : t ≠ []) (hs : NodeId.parse s = .ok id)
    (hids : t.map NodeId.parse = ids.map .ok) :
    contribution d (.edge s t a) = [.edge ⟨d, .node id, ids.map .node, [a]⟩] := by
  have hf : (Step.edge s t a).fault = none := by
    refine fault_edge_eq_none_iff.mpr ⟨ht, List.forall_mem_cons.mpr ⟨⟨id, hs⟩, fun x hx => ?_⟩⟩
    have hx : NodeId.parse x ∈ ids.map .ok := hids ▸ List.mem_map_of_mem hx
    obtain ⟨j, -, hj⟩ := List.mem_map.mp hx
    exact ⟨j, hj.symm⟩
  rw [contribution, hf, NodeId.ofText_of_parse hs, ← NodeId.map_ofText hids, List.map_map]
  rfl

theorem rules (d : Bool) : Rules d (contribution d) fault where
  node _ _ := ⟨rfl, rfl⟩
  assign _ _ := ⟨rfl, rfl⟩
  push _ := ⟨rfl, rfl⟩
  edge_fault _ _ _ := fault_edge_eq_none_iff
  edge _ _ _ _ _ ht hs hids := contribution_edge ht hs hids
  edgeBetween_fault _ t _ := by
    rw [fault]
    cases t <;> simp
  edgeBetween _ t _ ht := by
    rw [contribution, if_neg (by simpa using ht)]
  defaults _ _ := ⟨rfl, rfl⟩
  defaultsNamed k c a h := by
    rw [contribution, fault, h]
    exact ⟨rfl, rfl⟩
  defaultsNamed_fault k a h := by
    rw [fault, h]
  subgraph n a steps := ⟨contribution_subgraph d n a steps, rfl⟩
  supervised n a steps h := by
    obtain ⟨hu, hf⟩ := untilFault_of_forall h
    rw [contribution_supervised, fault_supervised, hu, hf]
    exact ⟨rfl, rfl⟩
  supervised_fault n a before s after f h hs := by
    obtain ⟨hu, hf⟩ := untilFault_append h hs after
    rw [contribution_supervised, fault_supervised, hu, hf]
    exact ⟨rfl, rfl⟩
  failed _ _ h hs := contribution_of_fault h hs

end Step

namespace Container

/-- **Building programs are compositional, and steps that fail leave no trace.** Whatever a
container holds, a program leaves it in place and appends what its steps contribute, in their order;
and each step fails or not, and contributes, by itself and the flag of the container alone, as the
rules say. -/
theorem run_contributes (c : Container) {steps : List Step} (h : Step.DirectAll steps) :
    (run c steps).1 = ⟨c.directed,
      c.statements ++ steps.flatMap (Step.contribution c.directed)⟩ ∧
    (run c steps).2.map Outcome.fault = steps.map Step.fault ∧
    ∀ d, Step.Rules d (Step.contribution d) Step.fault := by
  obtain ⟨hr, hf⟩ := run_contributes_all c steps h
  rw [Step.contributions_eq] at hr
  exact ⟨hr, hf, Step.rules⟩

/-- A bad id, an edge without targets in an opened subgraph, and an unknown component in a
supervised one, whose later steps are not run. -/
theorem run_contributes_faults :
    let old : Statement := .node (.ofName "old".toList) []
    let k := "k".toList
    let v : Value := .plain "v".toList
    let steps : List Step := [.edge "a".toList ["b::c".toList] .empty,
      .subgraph none (.ofList [(k, v)]) [.edgeBetween (.node (.ofName k)) [] .empty, .assign k v],
      .supervised (some k) .empty [.assign k v, .defaultsNamed "cluster".toList .empty,
        .assign k v]]
    Step.DirectAll steps ∧
      (run ⟨true, [old]⟩ steps).1 = ⟨true, [old,
        .subgraph ⟨none, true, [.attr .graph [.ofList [(k, v)]], .assign k v]⟩,
        .subgraph ⟨some k, true, [.assign k v]⟩]⟩ ∧
      (run ⟨true, [old]⟩ steps).2.map Outcome.fault = [some (.emptyPortSegment "b::c".toList), none,
        some (.unknownComponent "cluster".toList)] := by
  intro old k v steps
  have direct : Step.DirectAll steps := by simp [steps, Step.DirectAll, Step.Direct]
  obtain ⟨hr, hf, -⟩ := run_contributes ⟨true, [old]⟩ direct
  exact ⟨direct, hr, hf⟩

end Container

end DotGraph
