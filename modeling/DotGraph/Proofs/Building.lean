import DotGraph.Builder
import DotGraph.Proofs.Soundness

/-!
# Flags and targets of built graphs

A program of building calls starts from a new graph, or from one that was read, and calls the
operations on it and on the subgraphs that it opens, at any depth. Each call appends at most one
statement to its container and leaves the ones before it alone. The flag of the container reaches
everything that a call makes; only what is given to `push` keeps its own flags.

- `Container.grows_step`: a call appends at most one statement and leaves the others in place.
- `Container.uniform_step`: after a call all flags are the container's exactly if they were before
  and in everything that was pushed.
- `Container.targeted_step`: no call makes an edge without a target.
- `Graph.flags_callAll`: the same for whole programs on a graph.
-/

set_option autoImplicit false

namespace DotGraph

namespace Container

/-- The parts of a container. -/
def parts (c : Container) : List Part := Statement.partsAll c.statements

@[simp]
theorem push_parts (c : Container) (s : Statement) : (c.push s).parts = c.parts ++ s.parts := by
  simp [parts, push, Statement.partsAll_append, Statement.partsAll]

/-! ## What a single call does -/

/-- A container grows into another one by at most one statement, of which `P` holds. -/
def Grows (P : Statement → Prop) (c d : Container) : Prop :=
  d = c ∨ ∃ s, d = c.push s ∧ P s

theorem Grows.directed {P : Statement → Prop} {c d : Container} (h : Grows P c d) :
    d.directed = c.directed := by
  obtain rfl | ⟨s, rfl, -⟩ := h <;> rfl

theorem Grows.isPrefix {P : Statement → Prop} {c d : Container} (h : Grows P c d) :
    c.statements <+: d.statements := by
  obtain rfl | ⟨s, rfl, -⟩ := h
  · exact List.prefix_refl _
  · exact List.prefix_append _ _

/-- A statement that a call makes by itself: all its flags are `d`, and no edge in it lacks a target
if none of the parts given to the call does. -/
def Made (d : Bool) (given : List Part) (s : Statement) : Prop :=
  Uniform d s.parts ∧ (Targeted given → Targeted s.parts)

theorem Grows.uniform {c d : Container} {given : List Part}
    (h : Grows (Made c.directed given) c d) :
    Uniform c.directed d.parts ↔ Uniform c.directed c.parts := by
  obtain rfl | ⟨s, rfl, hs, -⟩ := h
  · exact Iff.rfl
  · simp [hs]

theorem Grows.targeted {c d : Container} {given : List Part} {e : Bool}
    (h : Grows (Made e given) c d) (hg : Targeted given) (hc : Targeted c.parts) :
    Targeted d.parts := by
  obtain rfl | ⟨s, rfl, -, hs⟩ := h
  · exact hc
  · simp [hc, hs hg]

theorem grows_node (c : Container) (id : NodeId) (a : Attrs) :
    Grows (Made c.directed []) c (c.node id a) := by
  refine .inr ⟨_, rfl, ?_⟩
  simp [Made, Statement.parts, uniform_cons, targeted_cons]

theorem grows_assign (c : Container) (k : Text) (v : Value) :
    Grows (Made c.directed []) c (c.assign k v) := by
  refine .inr ⟨_, rfl, ?_⟩
  simp [Made, Statement.parts, uniform_cons, Targeted]

theorem grows_defaults (c : Container) (k : Component) (a : Attrs) :
    Grows (Made c.directed []) c (c.defaults k a) := by
  unfold defaults
  split
  · exact .inl rfl
  · refine .inr ⟨_, rfl, ?_⟩
    simp [Made, Statement.parts]

/-- An edge cannot be made without a target. -/
theorem targeted_make {d : Bool} {s : Endpoint} {t : List Endpoint} {a : Attrs} {e : Edge}
    (h : Edge.make d s t a = .ok e) (hg : Targeted (s.parts ++ Endpoint.partsAll t)) :
    Targeted e.parts := by
  cases t with
  | nil => cases h
  | cons x r =>
    cases h
    rw [targeted_append] at hg
    simp [Edge.parts, targeted_cons, hg]

theorem grows_edgeBetween {c d : Container} {s : Endpoint} {t : List Endpoint} {a : Attrs}
    (h : c.edgeBetween s t a = .ok d) :
    Grows (Made c.directed (s.parts ++ Endpoint.partsAll t)) c d := by
  unfold edgeBetween at h
  split at h
  · rename_i e he
    cases h
    refine .inr ⟨_, rfl, ?_, fun hg => ?_⟩
    · rw [Statement.parts, Edge.parts_redirect]
      exact uniform_map_redirect _ _
    · rw [Statement.parts, Edge.parts_redirect, targeted_map_redirect]
      exact targeted_make he hg
  · cases h

theorem targeted_endpoints : ∀ {l : List Text} {es : List Endpoint},
    endpoints l = .ok es → Targeted (Endpoint.partsAll es)
  | [], es, h => by
    cases h
    simp [Endpoint.partsAll, Targeted]
  | t :: r, es, h => by
    rw [endpoints] at h
    split at h
    · cases h
    · split at h
      · cases h
      · rename_i hr
        cases h
        have := targeted_endpoints hr
        simpa [Endpoint.partsAll, Endpoint.parts, targeted_cons] using this

theorem grows_edge {c d : Container} {s : Text} {t : List Text} {a : Attrs}
    (h : c.edge s t a = .ok d) : Grows (Made c.directed []) c d := by
  unfold edge at h
  split at h
  · cases h
  · split at h
    · cases h
    · split at h
      · cases h
      · rename_i hes
        obtain rfl | ⟨s, rfl, hu, ht⟩ := grows_edgeBetween h
        · exact .inl rfl
        · refine .inr ⟨s, rfl, hu, fun _ => ht ?_⟩
          have := targeted_endpoints hes
          simpa [Endpoint.parts, targeted_cons] using this

theorem grows_defaultsNamed {c d : Container} {k : Text} {a : Attrs}
    (h : c.defaultsNamed k a = .ok d) : Grows (Made c.directed []) c d := by
  unfold defaultsNamed at h
  split at h
  · cases h
    exact grows_defaults c _ a
  · cases h

/-- A call that fails leaves the container as it is, so it grows however it ends. -/
theorem grows_settle {P : Statement → Prop} {c : Container} {x : Except ArgumentFault Container}
    (h : ∀ d, x = .ok d → Grows P c d) : Grows P c (c.settle x).1 := by
  cases x with
  | error f => exact .inl rfl
  | ok d => exact h d rfl

/-! ## Programs -/

mutual

/-- The statements that a step gives to `push`, in the order of the calls. -/
def pushed (c : Container) : Step → List Statement
  | .push s => [s]
  | .copy i => c.statements[i]?.toList
  | .subgraph _ a steps => pushedAll (opened c.directed a) steps
  | .supervised _ a steps => pushedUntilFault (opened c.directed a) steps
  | .node .. | .edge .. | .edgeBetween .. | .defaultsNamed .. | .defaults .. | .assign ..
  | .invalid _ | .refused => []

/-- The statements that a run gives to `push`. -/
def pushedAll (c : Container) : List Step → List Statement
  | [] => []
  | s :: r => pushed c s ++ pushedAll (step c s).1 r

/-- The statements that a run up to the first fault gives to `push`. -/
def pushedUntilFault (c : Container) : List Step → List Statement
  | [] => []
  | s :: r => pushed c s ++ match (step c s).2.fault with
    | some _ => []
    | none => pushedUntilFault (step c s).1 r

end

end Container

mutual

/-- The parts of everything that the calls of a step are given: endpoints and statements. -/
def Step.given : Step → List Part
  | .edgeBetween s t _ => s.parts ++ Endpoint.partsAll t
  | .push s => s.parts
  | .subgraph _ _ steps | .supervised _ _ steps => Step.givenAll steps
  | .node .. | .edge .. | .defaultsNamed .. | .defaults .. | .assign .. | .copy _ | .invalid _
  | .refused => []

/-- The parts of everything that the calls of several steps are given. -/
def Step.givenAll : List Step → List Part
  | [] => []
  | s :: r => s.given ++ Step.givenAll r

end

namespace Container

theorem run_cons (c : Container) (s : Step) (r : List Step) :
    (run c (s :: r)).1 = (run (step c s).1 r).1 := by
  rw [run]

theorem runUntilFault_cons (c : Container) (s : Step) (r : List Step) :
    (runUntilFault c (s :: r)).1 = match (step c s).2.fault with
      | some _ => (step c s).1
      | none => (runUntilFault (step c s).1 r).1 := by
  rw [runUntilFault]
  generalize step c s = x
  obtain ⟨d, o⟩ := x
  cases h : o.fault <;> simp [h]

/-- Every step appends at most one statement. -/
theorem grows_step (c : Container) (s : Step) : Grows (fun _ => True) c (step c s).1 := by
  have weaken : ∀ {P : Statement → Prop} {d : Container}, Grows P c d →
      Grows (fun _ => True) c d := by
    rintro P d (rfl | ⟨x, rfl, -⟩)
    · exact .inl rfl
    · exact .inr ⟨x, rfl, trivial⟩
  cases s with
  | node id a => exact weaken (grows_node c id a)
  | edge s t a => exact grows_settle fun d h => weaken (grows_edge h)
  | edgeBetween s t a => exact grows_settle fun d h => weaken (grows_edgeBetween h)
  | defaultsNamed k a => exact grows_settle fun d h => weaken (grows_defaultsNamed h)
  | defaults k a => exact weaken (grows_defaults c k a)
  | assign k v => exact weaken (grows_assign c k v)
  | push s => exact .inr ⟨s, rfl, trivial⟩
  | copy i =>
    cases h : c.statements[i]? with
    | none => exact .inl (by simp [step, settle, h])
    | some s => exact .inr ⟨s, by simp [step, settle, h], trivial⟩
  | invalid f => exact .inl rfl
  | refused => exact .inl rfl
  | subgraph n a steps => exact .inr ⟨_, rfl, trivial⟩
  | supervised n a steps => exact .inr ⟨_, rfl, trivial⟩

@[simp]
theorem step_directed (c : Container) (s : Step) : (step c s).1.directed = c.directed :=
  (grows_step c s).directed

theorem opened_directed (d : Bool) (a : Attrs) : (opened d a).directed = d :=
  (grows_defaults ⟨d, []⟩ .graph a).directed

theorem uniform_opened (d : Bool) (a : Attrs) : Uniform d (opened d a).parts :=
  (grows_defaults ⟨d, []⟩ .graph a).uniform.mpr (uniform_nil d)

theorem targeted_opened (d : Bool) (a : Attrs) : Targeted (opened d a).parts :=
  (grows_defaults ⟨d, []⟩ .graph a).targeted (by simp [Targeted]) (by simp [Targeted, parts,
    Statement.partsAll])

theorem uniform_close {c inner : Container} {n : Option Text} :
    Uniform c.directed (c.close n inner).parts ↔
      Uniform c.directed c.parts ∧ Uniform c.directed inner.parts := by
  rw [close, push_parts]
  simp [Statement.parts, Subgraph.parts, parts]

theorem targeted_close {c inner : Container} {n : Option Text} :
    Targeted (c.close n inner).parts ↔ Targeted c.parts ∧ Targeted inner.parts := by
  rw [close, push_parts]
  simp [Statement.parts, Subgraph.parts, parts, targeted_cons]

theorem mem_statements_parts {c : Container} {s : Statement} (h : s ∈ c.statements) :
    ∀ p ∈ s.parts, p ∈ c.parts :=
  fun _ hp => Statement.parts_subset_of_mem h hp

/-- A step that pushes nothing neither makes nor mends a wrong flag. -/
theorem uniform_of_grows {c : Container} {s : Step} {given : List Part}
    (h : Grows (Made c.directed given) c (step c s).1) (hs : c.pushed s = []) :
    Uniform c.directed (step c s).1.parts ↔
      Uniform c.directed c.parts ∧ ∀ x ∈ c.pushed s, Uniform c.directed x.parts := by
  rw [h.uniform, hs]
  simp

mutual

/-- **After a step all flags are the container's exactly if they were before and in everything that
was pushed.** -/
theorem uniform_step (c : Container) : ∀ s : Step,
    Uniform c.directed (step c s).1.parts ↔
      Uniform c.directed c.parts ∧ ∀ x ∈ c.pushed s, Uniform c.directed x.parts
  | .node id a => uniform_of_grows (grows_node c id a) rfl
  | .edge _ _ _ => uniform_of_grows (grows_settle fun _ h => grows_edge h) rfl
  | .edgeBetween _ _ _ => uniform_of_grows (grows_settle fun _ h => grows_edgeBetween h) rfl
  | .defaultsNamed _ _ => uniform_of_grows (grows_settle fun _ h => grows_defaultsNamed h) rfl
  | .defaults k a => uniform_of_grows (grows_defaults c k a) rfl
  | .assign k v => uniform_of_grows (grows_assign c k v) rfl
  | .push s => by simp [step, settle, pushed]
  | .copy i => by
    cases h : c.statements[i]? with
    | none => simp [step, settle, pushed, h]
    | some s => simp [step, settle, pushed, h]
  | .invalid f => by simp [step, settle, pushed]
  | .refused => by simp [step, settle, pushed]
  | .subgraph n a steps => by
    have ih := uniform_run (opened c.directed a) steps
    rw [opened_directed] at ih
    rw [pushed, step, uniform_close, ih]
    simp [uniform_opened]
  | .supervised n a steps => by
    have ih := uniform_runUntilFault (opened c.directed a) steps
    rw [opened_directed] at ih
    rw [pushed, step, uniform_close, ih]
    simp [uniform_opened]

theorem uniform_run (c : Container) : ∀ steps : List Step,
    Uniform c.directed (run c steps).1.parts ↔
      Uniform c.directed c.parts ∧ ∀ x ∈ c.pushedAll steps, Uniform c.directed x.parts
  | [] => by simp [run, pushedAll]
  | s :: r => by
    have ih := uniform_run (step c s).1 r
    rw [step_directed] at ih
    rw [run_cons, ih, uniform_step c s, pushedAll, List.forall_mem_append, and_assoc]

theorem uniform_runUntilFault (c : Container) : ∀ steps : List Step,
    Uniform c.directed (runUntilFault c steps).1.parts ↔
      Uniform c.directed c.parts ∧ ∀ x ∈ c.pushedUntilFault steps, Uniform c.directed x.parts
  | [] => by simp [runUntilFault, pushedUntilFault]
  | s :: r => by
    have ih := uniform_runUntilFault (step c s).1 r
    rw [step_directed] at ih
    rw [runUntilFault_cons, pushedUntilFault]
    cases h : (step c s).2.fault with
    | some f => simpa using uniform_step c s
    | none => simp only [ih, uniform_step c s, List.forall_mem_append, and_assoc]

end

mutual

/-- **No step makes an edge without a target.** -/
theorem targeted_step {c : Container} (hc : Targeted c.parts) : ∀ s : Step, Targeted s.given →
    Targeted (step c s).1.parts
  | .node id a, hs => (grows_node c id a).targeted (by simp [Targeted]) hc
  | .edge s t a, hs => (grows_settle fun d h => grows_edge h).targeted (by simp [Targeted]) hc
  | .edgeBetween s t a, hs => (grows_settle fun d h => grows_edgeBetween h).targeted hs hc
  | .defaultsNamed k a, hs =>
    (grows_settle fun d h => grows_defaultsNamed h).targeted (by simp [Targeted]) hc
  | .defaults k a, hs => (grows_defaults c k a).targeted (by simp [Targeted]) hc
  | .assign k v, hs => (grows_assign c k v).targeted (by simp [Targeted]) hc
  | .push s, hs => by
    rw [step, settle, push_parts, targeted_append]
    exact ⟨hc, hs⟩
  | .copy i, hs => by
    cases h : c.statements[i]? with
    | none => simpa [step, settle, h] using hc
    | some s =>
      have hmem : s ∈ c.statements := List.mem_of_getElem? h
      simp only [step, settle, h, push_parts, targeted_append]
      exact ⟨hc, fun hp => hc (mem_statements_parts hmem _ hp)⟩
  | .invalid f, hs => hc
  | .refused, hs => hc
  | .subgraph n a steps, hs => by
    rw [step, targeted_close]
    exact ⟨hc, targeted_run (targeted_opened _ a) steps hs⟩
  | .supervised n a steps, hs => by
    rw [step, targeted_close]
    exact ⟨hc, targeted_runUntilFault (targeted_opened _ a) steps hs⟩

theorem targeted_run {c : Container} (hc : Targeted c.parts) : ∀ steps : List Step,
    Targeted (Step.givenAll steps) → Targeted (run c steps).1.parts
  | [], _ => hc
  | s :: r, hs => by
    rw [Step.givenAll, targeted_append] at hs
    rw [run_cons]
    exact targeted_run (targeted_step hc s hs.1) r hs.2

theorem targeted_runUntilFault {c : Container} (hc : Targeted c.parts) : ∀ steps : List Step,
    Targeted (Step.givenAll steps) → Targeted (runUntilFault c steps).1.parts
  | [], _ => hc
  | s :: r, hs => by
    rw [Step.givenAll, targeted_append] at hs
    rw [runUntilFault_cons]
    have hstep := targeted_step hc s hs.1
    split
    · exact hstep
    · exact targeted_runUntilFault hstep r hs.2

end

end Container

/-! ## Programs on graphs -/

namespace Graph

/-- The graphs that building starts from: new ones, and those that were read. -/
inductive Origin : Graph → Prop
  | empty (name : Option Text) (directed : Bool) : Origin (.empty name directed)
  | start (directed : Bool) (name : Option Text) (attributes : Attrs) :
    Origin (.start directed name attributes)
  | json {text : Text} {g : Graph} (h : parseJson text = .ok g) : Origin g
  | toml {name text : Text} {g : Graph} (h : parseToml name text = .ok g) : Origin g

/-- A call on a graph: it is marked as strict, or a step is run on its container. -/
inductive Call where
  | strict
  | step (s : Step)

/-- The graph after a call. -/
def call (g : Graph) : Call → Graph
  | .strict => g.makeStrict
  | .step s => g.withContainer (g.container.step s).1

/-- The graph after several calls, also after ones that failed. -/
def callAll (g : Graph) : List Call → Graph
  | [] => g
  | c :: r => (g.call c).callAll r

/-- The statements that several calls give to `push`, at any depth. -/
def pushed (g : Graph) : List Call → List Statement
  | [] => []
  | .strict :: r => g.makeStrict.pushed r
  | .step s :: r => g.container.pushed s ++ (g.call (.step s)).pushed r

/-- The parts of everything that several calls are given. -/
def givenTo : List Call → List Part
  | [] => []
  | .strict :: r => givenTo r
  | .step s :: r => s.given ++ givenTo r

theorem uniform_parts {d : Bool} {g : Graph} :
    Uniform d g.parts ↔ Uniform d g.container.parts := by
  simp [parts, container, Container.parts]

theorem targeted_parts {g : Graph} : Targeted g.parts ↔ Targeted g.container.parts := by
  simp [parts, container, Container.parts]

/-- Every graph that building starts from has one flag, and a target for every edge. -/
theorem Origin.sound {g : Graph} (h : g.Origin) :
    Uniform g.directed g.parts ∧ Targeted g.parts := by
  cases h with
  | empty name directed =>
    rw [uniform_parts, targeted_parts]
    simp [Graph.empty, container, Container.parts, Statement.partsAll, Targeted]
  | start directed name attributes =>
    rw [uniform_parts, targeted_parts]
    exact ⟨Container.uniform_opened directed attributes,
      Container.targeted_opened directed attributes⟩
  | json h =>
    obtain ⟨hu, ht, -⟩ := sound_iff.mp (sound_of_parseJson h)
    exact ⟨hu, ht⟩
  | toml h =>
    obtain ⟨hu, ht, -⟩ := sound_iff.mp (sound_of_parseToml h)
    exact ⟨hu, ht⟩

theorem call_container (g : Graph) (s : Step) :
    (g.call (.step s)).container = (g.container.step s).1 := by
  have hd : (g.container.step s).1.directed = g.directed := Container.step_directed _ _
  rw [call, withContainer, container, ← hd]

@[simp]
theorem call_directed (g : Graph) (c : Call) : (g.call c).directed = g.directed := by
  cases c <;> rfl

theorem callAll_directed : ∀ (g : Graph) (calls : List Call),
    (g.callAll calls).directed = g.directed
  | _, [] => rfl
  | g, c :: r => by rw [callAll, callAll_directed _ r, call_directed]

theorem callAll_append : ∀ (g : Graph) (calls later : List Call),
    g.callAll (calls ++ later) = (g.callAll calls).callAll later
  | _, [], _ => rfl
  | g, c :: r, later => by rw [List.cons_append, callAll, callAll, callAll_append _ r]

theorem prefix_call (g : Graph) : ∀ c : Call, g.body <+: (g.call c).body
  | .strict => List.prefix_refl _
  | .step s => (Container.grows_step g.container s).isPrefix

theorem prefix_callAll : ∀ (g : Graph) (calls : List Call), g.body <+: (g.callAll calls).body
  | _, [] => List.prefix_refl _
  | g, c :: r => (prefix_call g c).trans (prefix_callAll _ r)

theorem uniform_callAll : ∀ (g : Graph) (calls : List Call),
    Uniform g.directed (g.callAll calls).parts ↔
      Uniform g.directed g.parts ∧ ∀ s ∈ g.pushed calls, Uniform g.directed s.parts
  | g, [] => by simp [callAll, pushed]
  | g, .strict :: r => uniform_callAll g.makeStrict r
  | g, .step s :: r => by
    have ih := uniform_callAll (g.call (.step s)) r
    rw [call_directed] at ih
    have hs : Uniform g.directed (g.call (.step s)).parts ↔
        Uniform g.directed g.parts ∧ ∀ x ∈ g.container.pushed s, Uniform g.directed x.parts := by
      rw [uniform_parts, uniform_parts, call_container]
      exact Container.uniform_step g.container s
    rw [callAll, ih, hs, pushed, List.forall_mem_append, and_assoc]

theorem targeted_callAll : ∀ (g : Graph) (calls : List Call), Targeted g.parts →
    Targeted (givenTo calls) → Targeted (g.callAll calls).parts
  | _, [], hg, _ => hg
  | g, .strict :: r, hg, h => targeted_callAll g.makeStrict r hg h
  | g, .step s :: r, hg, h => by
    rw [givenTo, targeted_append] at h
    refine targeted_callAll _ r ?_ h.2
    rw [targeted_parts] at hg ⊢
    rw [call_container]
    exact Container.targeted_step hg s h.1

/-- **Flags and targets of a built graph.** From wherever a graph is started and whatever is called
on it and inside it, every edge has a target, as long as the endpoints and statements that the calls
are given have one for each of their edges, without which none can be made (`targeted_make`); and
all flags are the graph's exactly if they are so in every statement that was pushed. Later calls
leave what is there as it is; and after a call on any container, the root's or that of a subgraph
that was opened, all flags are the container's exactly if they were before and in what the call
pushed. -/
theorem flags_callAll {g : Graph} (origin : g.Origin) (calls : List Call)
    (given : Targeted (givenTo calls)) :
    Targeted (g.callAll calls).parts ∧
    (g.callAll calls).directed = g.directed ∧
    (Uniform g.directed (g.callAll calls).parts ↔
      ∀ s ∈ g.pushed calls, Uniform g.directed s.parts) ∧
    (∀ later : List Call, (g.callAll calls).body <+: (g.callAll (calls ++ later)).body) ∧
    ∀ (c : Container) (s : Step),
      c.statements <+: (c.step s).1.statements ∧
      (Uniform c.directed (c.step s).1.parts ↔
        Uniform c.directed c.parts ∧ ∀ x ∈ c.pushed s, Uniform c.directed x.parts) := by
  obtain ⟨hu, ht⟩ := origin.sound
  refine ⟨targeted_callAll g calls ht given, callAll_directed g calls, ?_, ?_, ?_⟩
  · rw [uniform_callAll]
    exact and_iff_right hu
  · intro later
    rw [callAll_append]
    exact prefix_callAll _ later
  · intro c s
    exact ⟨(Container.grows_step c s).isPrefix, Container.uniform_step c s⟩

/-- A directed graph with an opened subgraph, into which an undirected edge is pushed after an edge
between a mixed subgraph and a node was made. -/
theorem flags_callAll_pushed :
    let a := NodeId.ofName "a".toList
    let undirected : Edge := ⟨false, .node a, [.node a], []⟩
    let mixed : Endpoint := .subgraph ⟨none, true, [.edge undirected]⟩
    let g := Graph.start true (some "g".toList) .empty
    let calls : List Call := [.strict, .step (.subgraph none .empty
      [.edgeBetween mixed [.node a] .empty, .edge [] [] .empty, .push (.edge undirected)])]
    Targeted (givenTo calls) ∧ Targeted (g.callAll calls).parts ∧
      ¬ Uniform true (g.callAll calls).parts := by
  intro a undirected mixed g calls
  have given : Targeted (givenTo calls) := by
    simp [Targeted, calls, mixed, undirected, givenTo, Step.given, Step.givenAll, Endpoint.parts,
      Endpoint.partsAll, Subgraph.parts, Part.ofName, Statement.partsAll, Statement.parts,
      Edge.parts, Attrs.parts]
  obtain ⟨ht, -, hu, -⟩ := flags_callAll (.start true (some "g".toList) .empty) calls given
  refine ⟨given, ht, fun h => ?_⟩
  have hpushed : .edge undirected ∈ g.pushed calls := by
    simp [calls, Graph.pushed, Container.pushed, Container.pushedAll]
  have := hu.mp h _ hpushed false (by simp [undirected, Statement.parts, Edge.parts])
  cases this

end Graph

end DotGraph
