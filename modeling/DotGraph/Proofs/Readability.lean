import DotGraph.Proofs.Lexing

/-!
# What rendered text says about its graph

Some differences between graphs do not show in their text: empty attribute lists of nodes and edges,
default attributes with no list instead of an empty one, and the flags of subgraphs. The normal form
of a graph is without them. That all other differences show is unique readability, first of tokens
and then of text: a piece of the tokens determines what it was written for, and where it ends.

- `Dot.render_normal`: the text of a graph is the text of its normal form.
- `Dot.render_eq_iff`: two graphs have the same text exactly if they have the same normal form.
-/

set_option autoImplicit false

namespace DotGraph

/-! ## Normal forms -/

/-- Attribute lists without the empty ones. -/
def Attrs.filled (l : List Attrs) : List Attrs :=
  l.filter (fun a => !a.isEmpty)

/-- Attribute lists, or an empty one if there are none. -/
def Attrs.orEmpty : List Attrs → List Attrs
  | [] => [.empty]
  | a :: r => a :: r

mutual

/-- A statement without what does not show in its text. -/
def Statement.normal : Statement → Statement
  | .node id l => .node id (Attrs.filled l)
  | .edge e => .edge e.normal
  | .attr c l => .attr c (Attrs.orEmpty l)
  | .subgraph s => .subgraph s.normal
  | .assign k v => .assign k v

/-- An endpoint without what does not show in its text. -/
def Endpoint.normal : Endpoint → Endpoint
  | .node id => .node id
  | .subgraph s => .subgraph s.normal

/-- An edge without what does not show in its text. -/
def Edge.normal : Edge → Edge
  | ⟨d, s, t, l⟩ => ⟨d, s.normal, Endpoint.normalAll t, Attrs.filled l⟩

/-- A subgraph without what does not show in its text. -/
def Subgraph.normal : Subgraph → Subgraph
  | ⟨n, _, b⟩ => ⟨n, false, Statement.normalAll b⟩

/-- Statements without what does not show in their text. -/
def Statement.normalAll : List Statement → List Statement
  | [] => []
  | s :: r => s.normal :: Statement.normalAll r

/-- Endpoints without what does not show in their text. -/
def Endpoint.normalAll : List Endpoint → List Endpoint
  | [] => []
  | e :: r => e.normal :: Endpoint.normalAll r

end

/-- A graph without what does not show in its text. -/
def Graph.normal (g : Graph) : Graph :=
  { g with body := Statement.normalAll g.body }

namespace Dot

theorem filledAttrLists_filled (q : Quoting) (l : List Attrs) :
    filledAttrLists q (Attrs.filled l) = filledAttrLists q l := by
  simp only [filledAttrLists, Attrs.filled, List.filter_filter, Bool.and_self]

theorem defaults_orEmpty (q : Quoting) (c : Component) (l : List Attrs) :
    defaults q c (Attrs.orEmpty l) = defaults q c l := by
  cases l <;> rfl

mutual

theorem statement_normal (q : Quoting) (depth : Nat) :
    ∀ s : Statement, statement q depth s.normal = statement q depth s
  | .node id l => by
    rw [Statement.normal, statement, statement, filledAttrLists_filled]
  | .edge e => by
    rw [Statement.normal, statement, statement, edge_normal q depth e]
  | .attr c l => by
    rw [Statement.normal, statement, statement, defaults_orEmpty]
  | .subgraph s => by
    rw [Statement.normal, statement, statement, subgraph_normal q depth s]
  | .assign _ _ => rfl

theorem edge_normal (q : Quoting) (depth : Nat) : ∀ e : Edge, edge q depth e.normal = edge q depth e
  | ⟨d, s, t, l⟩ => by
    rw [Edge.normal, edge, edge, endpoint_normal q depth s, targets_normal q depth d t,
      filledAttrLists_filled]

theorem endpoint_normal (q : Quoting) (depth : Nat) :
    ∀ e : Endpoint, endpoint q depth e.normal = endpoint q depth e
  | .node _ => rfl
  | .subgraph s => by
    rw [Endpoint.normal, endpoint, endpoint, subgraph_normal q depth s]

theorem targets_normal (q : Quoting) (depth : Nat) (d : Bool) :
    ∀ t : List Endpoint, targets q depth d (Endpoint.normalAll t) = targets q depth d t
  | [] => rfl
  | e :: r => by
    rw [Endpoint.normalAll, targets, targets, endpoint_normal q depth e,
      targets_normal q depth d r]

theorem subgraph_normal (q : Quoting) (depth : Nat) :
    ∀ s : Subgraph, subgraph q depth s.normal = subgraph q depth s
  | ⟨n, d, b⟩ => by
    rw [Subgraph.normal, subgraph_mk, subgraph_mk, lines_normal q (depth + 1) b]

theorem lines_normal (q : Quoting) (depth : Nat) :
    ∀ b : List Statement, lines q depth (Statement.normalAll b) = lines q depth b
  | [] => rfl
  | s :: r => by
    rw [Statement.normalAll, lines, lines, statement_normal q depth s, lines_normal q depth r]

end

/-- **The text of a graph is the text of its normal form.** -/
theorem render_normal (q : Quoting) (g : Graph) : render q g.normal = render q g := by
  simp only [render, Graph.normal, lines_normal]
  rfl

/-! ## Attribute lists and node ids -/

variable {r u : List Token}

theorem valueToken_inj {v w : Value} (h : valueToken .asIs v = valueToken .asIs w) : v = w := by
  cases v with
  | plain t =>
    cases w with
    | plain s =>
      cases h
      rfl
    | html m => cases h
  | html m =>
    cases w with
    | plain s => cases h
    | html n =>
      cases h
      rfl

theorem entryTokens_inj : ∀ {l m : List (Text × Value)},
    entryTokens .asIs l ++ .closeBracket :: r = entryTokens .asIs m ++ .closeBracket :: u →
    l = m ∧ r = u
  | [], [], h => by
    cases h
    exact ⟨rfl, rfl⟩
  | [], (k, v) :: m, h => by cases h
  | (k, v) :: l, [], h => by cases h
  | (k, v) :: l, (k', v') :: m, h => by
    simp only [entryTokens, List.cons_append, List.cons.injEq, Token.word.injEq, true_and] at h
    obtain ⟨rfl, hv, h⟩ := h
    obtain ⟨rfl, rfl⟩ := entryTokens_inj h
    rw [valueToken_inj hv]
    exact ⟨rfl, rfl⟩

theorem listTokens_inj (hr : ∀ x, r ≠ .openBracket :: x) (hu : ∀ x, u ≠ .openBracket :: x) :
    ∀ {l m : List Attrs}, listTokens .asIs l ++ r = listTokens .asIs m ++ u → l = m ∧ r = u
  | [], [], h => ⟨rfl, h⟩
  | [], a :: m, h => absurd h (hr _)
  | a :: l, [], h => absurd h.symm (hu _)
  | a :: l, b :: m, h => by
    simp only [listTokens, List.cons_append, List.append_assoc, List.cons.injEq, true_and] at h
    obtain ⟨hab, h⟩ := entryTokens_inj h
    obtain ⟨rfl, rfl⟩ := listTokens_inj hr hu h
    rw [Attrs.ext_entries hab]
    exact ⟨rfl, rfl⟩

theorem segmentTokens_inj (hr : ∀ x, r ≠ .colon :: x) (hu : ∀ x, u ≠ .colon :: x) :
    ∀ {l m : List Text}, segmentTokens l ++ r = segmentTokens m ++ u → l = m ∧ r = u
  | [], [], h => ⟨rfl, h⟩
  | [], s :: m, h => absurd h (hr _)
  | s :: l, [], h => absurd h.symm (hu _)
  | s :: l, t :: m, h => by
    simp only [segmentTokens, List.cons_append, List.cons.injEq, Token.word.injEq, true_and] at h
    obtain ⟨rfl, h⟩ := h
    obtain ⟨rfl, rfl⟩ := segmentTokens_inj hr hu h
    exact ⟨rfl, rfl⟩

/-- A port is the text of the segments that its tokens name. -/
theorem portTokens_eq {p : Option Text} (h : ∀ x, p = some x → NodeId.IsWordPort x) :
    ∃ l, portTokens (p.getD []) = segmentTokens l ∧
      p = if l = [] then none else some (NodeId.portOf l) := by
  cases p with
  | none => exact ⟨[], rfl, rfl⟩
  | some x =>
    obtain ⟨l, hne, hl, rfl⟩ := h x rfl
    exact ⟨l, portTokens_portOf hl, by rw [if_neg hne]⟩

theorem nodeTokens_inj {i j : NodeId} (hi : Part.Worded (.node i)) (hj : Part.Worded (.node j))
    (hr : ∀ x, r ≠ .colon :: x) (hu : ∀ x, u ≠ .colon :: x)
    (h : nodeTokens .asIs i ++ r = nodeTokens .asIs j ++ u) : i = j ∧ r = u := by
  obtain ⟨n, p⟩ := i
  obtain ⟨m, s⟩ := j
  obtain ⟨l, hl, rfl⟩ := portTokens_eq hi
  obtain ⟨k, hk, rfl⟩ := portTokens_eq hj
  simp only [nodeTokens, hl, hk, Quoting.content, List.cons_append, List.cons.injEq,
    Token.quoted.injEq] at h
  obtain ⟨rfl, h⟩ := h
  obtain ⟨rfl, rfl⟩ := segmentTokens_inj hr hu h
  exact ⟨rfl, rfl⟩

theorem nameTokens_inj {n m : Option Text}
    (h : nameTokens .asIs n ++ .openBrace :: r = nameTokens .asIs m ++ .openBrace :: u) :
    n = m ∧ r = u := by
  cases n with
  | none =>
    cases m with
    | none =>
      cases h
      exact ⟨rfl, rfl⟩
    | some m => cases h
  | some n =>
    cases m with
    | none => cases h
    | some m =>
      cases h
      exact ⟨rfl, rfl⟩

theorem defaultTokens_eq (q : Quoting) (c : Component) (l : List Attrs) :
    defaultTokens q c l = .word c.keyword :: listTokens q (Attrs.orEmpty l) := by
  cases l <;> rfl

theorem keyword_inj {c d : Component} (h : c.keyword = d.keyword) : c = d := by
  revert h
  cases c <;> cases d <;> decide

/-! ## Statements -/

/-- Parts of which each edge has a target and the keys are words. -/
def Readable (l : List Part) : Prop :=
  Targeted l ∧ ∀ p ∈ l, p.Worded

theorem readable_append {l m : List Part} : Readable (l ++ m) ↔ Readable l ∧ Readable m := by
  simp only [Readable, targeted_append, List.forall_mem_append]
  constructor
  · rintro ⟨⟨a, b⟩, c, d⟩
    exact ⟨⟨a, c⟩, b, d⟩
  · rintro ⟨⟨a, c⟩, b, d⟩
    exact ⟨⟨a, b⟩, c, d⟩

theorem Readable.head {p : Part} {l : List Part} (h : Readable (p :: l)) : p.Worded :=
  h.2 p (List.mem_cons_self ..)

theorem Readable.tail {p : Part} {l : List Part} (h : Readable (p :: l)) : Readable l := by
  rw [← List.singleton_append, readable_append] at h
  exact h.2

theorem readable_nil : Readable [] :=
  ⟨by simp [Targeted], by simp⟩

/-- The tokens of a statement determine it up to its normal form. -/
def StatementReads (s : Statement) : Prop :=
  ∀ s' r u, Readable s'.parts → statementTokens .asIs s ++ .semicolon :: r =
    statementTokens .asIs s' ++ .semicolon :: u → s.normal = s'.normal ∧ r = u

/-- The tokens of an endpoint determine it up to its normal form. -/
def EndpointReads (e : Endpoint) : Prop :=
  ∀ e' r u, Readable e'.parts → (∀ x, r ≠ .colon :: x) → (∀ x, u ≠ .colon :: x) →
    endpointTokens .asIs e ++ r = endpointTokens .asIs e' ++ u → e.normal = e'.normal ∧ r = u

/-- The tokens of targets determine these up to their normal form, and their operator. -/
def TargetsRead (t : List Endpoint) : Prop :=
  ∀ t' d d' r u, Readable (Endpoint.partsAll t') →
    (∀ x, r ≠ .colon :: x) → (∀ x, u ≠ .colon :: x) →
    (∀ e x, r ≠ .edgeOperator e :: x) → (∀ e x, u ≠ .edgeOperator e :: x) →
    targetTokens .asIs d t ++ r = targetTokens .asIs d' t' ++ u →
    Endpoint.normalAll t = Endpoint.normalAll t' ∧ (t ≠ [] → d = d') ∧ r = u

/-- The tokens of a subgraph determine it up to its normal form. -/
def SubgraphReads (s : Subgraph) : Prop :=
  ∀ s' r u, Readable s'.parts → subgraphTokens .asIs s ++ r = subgraphTokens .asIs s' ++ u →
    s.normal = s'.normal ∧ r = u

/-- The tokens of a body determine it up to its normal form. -/
def LinesRead (b : List Statement) : Prop :=
  ∀ b' r u, Readable (Statement.partsAll b') → lineTokens .asIs b ++ .closeBrace :: r =
    lineTokens .asIs b' ++ .closeBrace :: u →
    Statement.normalAll b = Statement.normalAll b' ∧ r = u

/-- A node, edge or subgraph as an endpoint, further ones, and attribute lists. Written this way the
three kinds of statements are compared in one go. -/
inductive Chain : Statement → Endpoint → Bool → List Endpoint → List Attrs → Prop where
  | node (id : NodeId) (l : List Attrs) :
    Chain (.node id l) (.node id) false [] (Attrs.filled l)
  | edge (d : Bool) (s t : Endpoint) (m : List Endpoint) (l : List Attrs) :
    Chain (.edge ⟨d, s, t :: m, l⟩) s d (t :: m) (Attrs.filled l)
  | subgraph (s : Subgraph) : Chain (.subgraph s) (.subgraph s) false [] []

variable {s s' : Statement} {e e' : Endpoint} {d d' : Bool} {t t' : List Endpoint}
  {l l' : List Attrs}

theorem Chain.tokens (h : Chain s e d t l) : statementTokens .asIs s =
    endpointTokens .asIs e ++ (targetTokens .asIs d t ++ listTokens .asIs l) := by
  cases h with
  | node id l => rw [statementTokens, endpointTokens, targetTokens]; rfl
  | edge d s t m l => rw [statementTokens, edgeTokens, List.append_assoc]; rfl
  | subgraph s =>
    rw [statementTokens, endpointTokens, targetTokens, listTokens, List.append_nil,
      List.append_nil]

theorem Chain.readable (h : Chain s e d t l) (hs : Readable s.parts) :
    Readable e.parts ∧ Readable (Endpoint.partsAll t) := by
  cases h with
  | node id l =>
    rw [Statement.parts, ← List.singleton_append, readable_append] at hs
    exact ⟨hs.1, readable_nil⟩
  | edge d s t m l =>
    have h := hs.tail.tail
    rw [readable_append, readable_append] at h
    exact h.1
  | subgraph s => exact ⟨hs, readable_nil⟩

theorem Chain.normal_eq (h : Chain s e d t l) (h' : Chain s' e' d' t' l')
    (he : e.normal = e'.normal) (ht : Endpoint.normalAll t = Endpoint.normalAll t')
    (hd : t ≠ [] → d = d') (hl : l = l') : s.normal = s'.normal := by
  cases h <;> cases h' <;>
    simp_all [Statement.normal, Endpoint.normal, Edge.normal, Endpoint.normalAll]

theorem lists_ne_colon (l : List Attrs) (r x : List Token) :
    listTokens .asIs l ++ .semicolon :: r ≠ .colon :: x :=
  listTokens_ne_cons (by simp) (by simp) .asIs l x

theorem lists_ne_operator (l : List Attrs) (r : List Token) (e : Bool) (x : List Token) :
    listTokens .asIs l ++ .semicolon :: r ≠ .edgeOperator e :: x :=
  listTokens_ne_cons (by simp) (by simp) .asIs l x

theorem targets_ne_colon (d : Bool) (t : List Endpoint) (hr : ∀ x, r ≠ .colon :: x)
    (x : List Token) : targetTokens .asIs d t ++ r ≠ .colon :: x :=
  targetTokens_ne_cons (by simp) hr .asIs d t x

/-- Chains whose endpoints are determined by their tokens are determined by theirs. -/
theorem Chain.reads (h : Chain s e d t l) (h' : Chain s' e' d' t' l') (he : EndpointReads e)
    (ht : TargetsRead t) (hs : Readable s'.parts)
    (k : statementTokens .asIs s ++ .semicolon :: r =
      statementTokens .asIs s' ++ .semicolon :: u) : s.normal = s'.normal ∧ r = u := by
  obtain ⟨hr, hr'⟩ := h'.readable hs
  rw [h.tokens, h'.tokens, List.append_assoc, List.append_assoc, List.append_assoc,
    List.append_assoc] at k
  obtain ⟨hen, k⟩ := he e' _ _ hr (targets_ne_colon d t (lists_ne_colon l r))
    (targets_ne_colon d' t' (lists_ne_colon l' u)) k
  obtain ⟨htn, hdn, k⟩ := ht t' d d' _ _ hr' (lists_ne_colon l r) (lists_ne_colon l' u)
    (lists_ne_operator l r) (lists_ne_operator l' u) k
  obtain ⟨hl, k⟩ := listTokens_inj (by simp) (by simp) k
  cases k
  exact ⟨h.normal_eq h' hen htn hdn hl, rfl⟩

/-- A statement is a chain, default attributes or an assignment. -/
theorem chain_or (hs : Readable s.parts) : (∃ e d t l, Chain s e d t l) ∨
    (∃ c l, s = .attr c l) ∨ ∃ k v, s = .assign k v := by
  cases s with
  | node id l => exact .inl ⟨_, _, _, _, .node id l⟩
  | edge e =>
    obtain ⟨d, s, t, l⟩ := e
    cases t with
    | nil => exact absurd (List.mem_cons_of_mem _ (List.mem_cons_self ..)) hs.1
    | cons t m => exact .inl ⟨_, _, _, _, .edge d s t m l⟩
  | attr c l => exact .inr (.inl ⟨c, l, rfl⟩)
  | subgraph s => exact .inl ⟨_, _, _, _, .subgraph s⟩
  | assign k v => exact .inr (.inr ⟨k, v, rfl⟩)

/-- A chain starts with a quoted name or with a subgraph, and neither default attributes nor an
assignment does. -/
theorem Chain.head (h : Chain s e d t l) : (∃ n x, statementTokens .asIs s = .quoted n :: x) ∨
    ∃ w y x, statementTokens .asIs s = .word w :: y :: x ∧ y ≠ .openBracket ∧ y ≠ .equals := by
  rw [h.tokens]
  cases e with
  | node id => exact .inl ⟨_, _, rfl⟩
  | subgraph g =>
    obtain ⟨n, f, b⟩ := g
    rw [endpointTokens, subgraphTokens]
    cases n with
    | none => exact .inr ⟨_, _, _, rfl, by simp, by simp⟩
    | some n => exact .inr ⟨_, _, _, rfl, by simp, by simp⟩

theorem Chain.ne_defaults (h : Chain s e d t l) (c : Component) (a : List Attrs) :
    statementTokens .asIs s ++ .semicolon :: r ≠
      statementTokens .asIs (.attr c a) ++ .semicolon :: u := by
  have ha : ∃ x, statementTokens .asIs (.attr c a) = .word c.keyword :: .openBracket :: x := by
    rw [statementTokens, defaultTokens_eq]
    cases a <;> exact ⟨_, rfl⟩
  obtain ⟨x, hx⟩ := ha
  intro k
  rcases h.head with ⟨n, y, hy⟩ | ⟨w, y, z, hy, ho, -⟩
  · simp [hx, hy] at k
  · simp [hx, hy, ho] at k

theorem Chain.ne_assign (h : Chain s e d t l) (k : Text) (v : Value) :
    statementTokens .asIs s ++ .semicolon :: r ≠
      statementTokens .asIs (.assign k v) ++ .semicolon :: u := by
  rw [statementTokens]
  intro k
  rcases h.head with ⟨n, y, hy⟩ | ⟨w, y, z, hy, -, ho⟩
  · simp [hy] at k
  · simp [hy, ho] at k

theorem Chain.statementReads (h : Chain s e d t l) (he : EndpointReads e) (ht : TargetsRead t) :
    StatementReads s := by
  intro s' r u hs' k
  rcases chain_or hs' with ⟨e', d', t', l', h'⟩ | ⟨c, a, rfl⟩ | ⟨x, v, rfl⟩
  · exact h.reads h' he ht hs' k
  · exact absurd k (h.ne_defaults c a)
  · exact absurd k (h.ne_assign x v)

theorem statementReads_defaults (c : Component) (a : List Attrs) : StatementReads (.attr c a) := by
  intro s' r u hs' k
  rcases chain_or hs' with ⟨e', d', t', l', h'⟩ | ⟨c', a', rfl⟩ | ⟨x, v, rfl⟩
  · exact absurd k.symm (h'.ne_defaults c a)
  · simp only [statementTokens, defaultTokens_eq, List.cons_append, List.cons.injEq,
      Token.word.injEq] at k
    obtain ⟨hc, k⟩ := k
    obtain ⟨ha, k⟩ := listTokens_inj (by simp) (by simp) k
    cases k
    rw [Statement.normal, Statement.normal, keyword_inj hc, ha]
    exact ⟨rfl, rfl⟩
  · rw [statementTokens, statementTokens, defaultTokens_eq] at k
    cases a <;> simp [Attrs.orEmpty, listTokens] at k

theorem statementReads_assign (x : Text) (v : Value) : StatementReads (.assign x v) := by
  intro s' r u hs' k
  rcases chain_or hs' with ⟨e', d', t', l', h'⟩ | ⟨c', a', rfl⟩ | ⟨y, w, rfl⟩
  · exact absurd k.symm (h'.ne_assign x v)
  · rw [statementTokens, statementTokens, defaultTokens_eq] at k
    cases a' <;> simp [Attrs.orEmpty, listTokens] at k
  · simp only [statementTokens, List.cons_append, List.nil_append, List.cons.injEq,
      Token.word.injEq, true_and] at k
    obtain ⟨rfl, hv, rfl⟩ := k
    rw [valueToken_inj hv]
    exact ⟨rfl, rfl⟩

theorem endpointReads_node {id : NodeId} (hi : Part.Worded (.node id)) :
    EndpointReads (.node id) := by
  intro e' r u he hr hu k
  cases e' with
  | node j =>
    rw [Endpoint.parts] at he
    rw [endpointTokens, endpointTokens] at k
    obtain ⟨rfl, rfl⟩ := nodeTokens_inj hi he.head hr hu k
    exact ⟨rfl, rfl⟩
  | subgraph g =>
    cases g
    rw [endpointTokens, endpointTokens, subgraphTokens] at k
    cases k

theorem endpointReads_subgraph {g : Subgraph} (hg : SubgraphReads g) :
    EndpointReads (.subgraph g) := by
  intro e' r u he _ _ k
  cases e' with
  | node j =>
    cases g
    rw [endpointTokens, endpointTokens, subgraphTokens] at k
    cases k
  | subgraph g' =>
    rw [endpointTokens, endpointTokens] at k
    obtain ⟨hn, rfl⟩ := hg g' r u he k
    rw [Endpoint.normal, Endpoint.normal, hn]
    exact ⟨rfl, rfl⟩

theorem targetsRead_nil : TargetsRead [] := by
  intro t' d d' r u _ _ _ hr _ k
  cases t' with
  | nil =>
    rw [targetTokens, targetTokens] at k
    exact ⟨rfl, fun h => absurd rfl h, k⟩
  | cons e m =>
    rw [targetTokens, targetTokens] at k
    exact absurd k (hr _ _)

mutual

theorem statementReads : ∀ s : Statement, Readable s.parts → StatementReads s
  | .node id l, h => by
    rw [Statement.parts] at h
    exact (Chain.node id l).statementReads (endpointReads_node h.head) targetsRead_nil
  | .edge ⟨_, _, [], _⟩, h => absurd (List.mem_cons_of_mem _ (List.mem_cons_self ..)) h.1
  | .edge ⟨d, s, t :: m, l⟩, h => by
    have hp := (Chain.edge d s t m l).readable h
    exact (Chain.edge d s t m l).statementReads (endpointReads s hp.1) (targetsRead (t :: m) hp.2)
  | .attr c l, _ => statementReads_defaults c l
  | .subgraph s, h =>
    (Chain.subgraph s).statementReads (endpointReads_subgraph (subgraphReads s h)) targetsRead_nil
  | .assign k v, _ => statementReads_assign k v

theorem endpointReads : ∀ e : Endpoint, Readable e.parts → EndpointReads e
  | .node _, h => by
    rw [Endpoint.parts] at h
    exact endpointReads_node h.head
  | .subgraph s, h => endpointReads_subgraph (subgraphReads s h)

theorem targetsRead : ∀ t : List Endpoint, Readable (Endpoint.partsAll t) → TargetsRead t
  | [], _ => targetsRead_nil
  | e :: m, h => by
    rw [Endpoint.partsAll, readable_append] at h
    intro t' d d' r u ht hr hu hro huo k
    cases t' with
    | nil =>
      rw [targetTokens, targetTokens] at k
      exact absurd k.symm (huo _ _)
    | cons e' m' =>
      rw [Endpoint.partsAll, readable_append] at ht
      simp only [targetTokens, List.cons_append, List.append_assoc, List.cons.injEq,
        Token.edgeOperator.injEq] at k
      obtain ⟨rfl, k⟩ := k
      obtain ⟨hen, k⟩ := endpointReads e h.1 e' _ _ ht.1 (targets_ne_colon d m hr)
        (targets_ne_colon d m' hu) k
      obtain ⟨hmn, -, k⟩ := targetsRead m h.2 m' d d _ _ ht.2 hr hu hro huo k
      rw [Endpoint.normalAll, Endpoint.normalAll, hen, hmn]
      exact ⟨rfl, fun _ => rfl, k⟩

theorem subgraphReads : ∀ s : Subgraph, Readable s.parts → SubgraphReads s
  | ⟨n, d, b⟩, h => by
    intro s' r u hs' k
    obtain ⟨n', d', b'⟩ := s'
    rw [Subgraph.parts] at h hs'
    have hb := h.tail
    have hb' := hs'.tail
    rw [readable_append] at hb hb'
    simp only [subgraphTokens, List.cons_append, List.append_assoc, List.nil_append,
      List.cons.injEq, true_and] at k
    obtain ⟨rfl, kb⟩ := nameTokens_inj k
    obtain ⟨hn, rfl⟩ := linesRead b hb.2 b' r u hb'.2 kb
    rw [Subgraph.normal, Subgraph.normal, hn]
    exact ⟨rfl, rfl⟩

theorem linesRead : ∀ b : List Statement, Readable (Statement.partsAll b) → LinesRead b
  | [], _ => by
    intro b' r u hb' k
    cases b' with
    | nil =>
      rw [lineTokens] at k
      cases k
      exact ⟨rfl, rfl⟩
    | cons s' m' =>
      obtain ⟨t, x, ht, e⟩ := statementTokens_head .asIs s'
      rw [lineTokens, lineTokens, e] at k
      cases k
      exact absurd rfl ht
  | s :: m, h => by
    intro b' r u hb' k
    cases b' with
    | nil =>
      obtain ⟨t, x, ht, e⟩ := statementTokens_head .asIs s
      rw [lineTokens, lineTokens, e] at k
      cases k
      exact absurd rfl ht
    | cons s' m' =>
      rw [Statement.partsAll, readable_append] at h hb'
      rw [lineTokens, lineTokens, List.append_assoc, List.append_assoc] at k
      obtain ⟨hs, k⟩ := statementReads s h.1 s' _ _ hb'.1 k
      obtain ⟨hm, rfl⟩ := linesRead m h.2 m' r u hb'.2 k
      rw [Statement.normalAll, Statement.normalAll, hs, hm]
      exact ⟨rfl, rfl⟩

end

/-! ## Graphs -/

/-- The header of a graph is determined by its tokens. -/
theorem header_inj {s s' d d' : Bool}
    (h : (if s then [.word "strict".toList] else []) ++
        .word (if d then "digraph".toList else "graph".toList) :: r =
      (if s' then [.word "strict".toList] else []) ++
        .word (if d' then "digraph".toList else "graph".toList) :: u) :
    s = s' ∧ d = d' ∧ r = u := by
  have hs : ∀ d : Bool, "strict".toList ≠ if d then "digraph".toList else "graph".toList := by
    decide
  have hk : ∀ d d' : Bool, (if d then "digraph".toList else "graph".toList) =
      (if d' then "digraph".toList else "graph".toList) → d = d' := by decide
  cases s <;> cases s' <;>
    simp only [Bool.false_eq_true, if_false, if_true, List.nil_append, List.cons_append,
      List.cons.injEq, Token.word.injEq, true_and] at h
  · exact ⟨rfl, hk d d' h.1, h.2⟩
  · exact absurd h.1.symm (hs d)
  · exact absurd h.1 (hs d')
  · exact ⟨rfl, hk d d' h.1, h.2⟩

theorem normal_eq_of_graphTokens {g h : Graph} (hg : Readable g.parts) (hh : Readable h.parts)
    (k : graphTokens .asIs g = graphTokens .asIs h) : g.normal = h.normal := by
  obtain ⟨s, d, n, b⟩ := g
  obtain ⟨s', d', n', b'⟩ := h
  rw [Graph.parts, readable_append] at hg hh
  obtain ⟨rfl, rfl, k⟩ := header_inj k
  obtain ⟨rfl, k⟩ := nameTokens_inj k
  obtain ⟨hb, -⟩ := linesRead b hg.2 b' [] [] hh.2 k
  simp only [Graph.normal, hb]

/-- **Two graphs have the same text exactly if they have the same normal form**, as long as every
edge has a target, keys and the segments of ports are words, markup is balanced, and no name and no
plain value ends its quotes. -/
theorem render_eq_iff {g h : Graph} (hg : Targeted g.parts) (hh : Targeted h.parts)
    (wg : ∀ p ∈ g.parts, p.Worded ∧ p.Quotable) (wh : ∀ p ∈ h.parts, p.Worded ∧ p.Quotable) :
    render .asIs g = render .asIs h ↔ g.normal = h.normal := by
  constructor
  · intro k
    have lg : Legible .asIs g.parts := fun p hp => ⟨(wg p hp).1, fun _ => (wg p hp).2⟩
    have lh : Legible .asIs h.parts := fun p hp => ⟨(wh p hp).1, fun _ => (wh p hp).2⟩
    have ht : some (graphTokens .asIs g) = some (graphTokens .asIs h) := by
      rw [← tokens?_render lg, ← tokens?_render lh, k]
    exact normal_eq_of_graphTokens ⟨hg, fun p hp => (wg p hp).1⟩ ⟨hh, fun p hp => (wh p hp).1⟩
      (Option.some.inj ht)
  · intro k
    rw [← render_normal, k, render_normal]

/-- A directed graph and one whose subgraph is undirected, with an empty list and without. -/
theorem render_eq_iff_flags :
    let a : NodeId := ⟨"a".toList, some ":p".toList⟩
    let body : List Attrs → List Statement := fun l => [.node a l]
    let g : Graph := ⟨false, true, none, [.subgraph ⟨none, true, body []⟩, .attr .edge []]⟩
    let h : Graph := ⟨false, true, none,
      [.subgraph ⟨none, false, body [.empty]⟩, .attr .edge [.empty]]⟩
    (render .asIs g = render .asIs h ↔ g.normal = h.normal) ∧ g.normal = h.normal ∧ g ≠ h := by
  intro a body g h
  have hport : Part.Worded (.node a) := by
    intro p hp
    cases hp
    exact ⟨["p".toList], by simp, by decide, by decide⟩
  have hname : Part.Quotable (.node a) := by
    have : Text.Quotable "a".toList := by decide
    exact this
  have hg : g.parts = [.flag true, .node a] := by decide
  have hh : h.parts = [.flag false, .node a] := by decide
  have hflag : ∀ f, Part.Worded (.flag f) ∧ Part.Quotable (.flag f) :=
    fun _ => ⟨trivial, trivial⟩
  refine ⟨render_eq_iff ?_ ?_ ?_ ?_, rfl, by simp [g, h]⟩
  · simp [hg, Targeted]
  · simp [hh, Targeted]
  · simp only [hg, List.forall_mem_cons]
    exact ⟨hflag true, ⟨hport, hname⟩, by simp⟩
  · simp only [hh, List.forall_mem_cons]
    exact ⟨hflag false, ⟨hport, hname⟩, by simp⟩

end Dot

end DotGraph
