import DotGraph.Proofs.Lexing

/-!
# Rendered text is valid

The grammar of DOT as rules, one for each way in which its recogniser goes on, and from them that it
accepts the text of every graph whose flags agree, whose edges have targets and whose parts fit the
grammar.

- `Dot.Grammar.graph_graphTokens`: the tokens of such a graph make a graph.
- `Dot.accepts_render`: its text is accepted, escaped or as it is.
-/

set_option autoImplicit false

namespace DotGraph.Dot

namespace Grammar

/-! ## Rules -/

/-- A reader succeeds and leaves `r`. -/
def Leaves {P : List Token → Prop} (x : Option { r : List Token // P r }) (r : List Token) : Prop :=
  ∃ h, x = some ⟨r, h⟩

theorem leaves_entries_close (r : List Token) : Leaves (entries? (.closeBracket :: r)) r := by
  rw [entries?]
  exact ⟨_, rfl⟩

theorem leaves_entries_cons {k v : Token} {r u : List Token} (hk : k.isId = true)
    (hv : v.isId = true) (h : Leaves (entries? r) u) :
    Leaves (entries? (k :: .equals :: v :: .semicolon :: r)) u := by
  obtain ⟨hu, h⟩ := h
  rw [entries?, if_pos (by simp [hk, hv])]
  simp only [skipSeparator, h]
  exact ⟨_, rfl⟩
  intro e
  simp [e, Token.isId] at hk

theorem leaves_attrLists_nil {r : List Token} (h : ∀ u, r ≠ .openBracket :: u) :
    Leaves (attrLists? r) r := by
  rw [attrLists?]
  exact ⟨_, rfl⟩
  exact h

theorem leaves_attrLists_cons {r u v : List Token} (h : Leaves (entries? r) u)
    (k : Leaves (attrLists? u) v) : Leaves (attrLists? (.openBracket :: r)) v := by
  obtain ⟨hu, h⟩ := h
  obtain ⟨hv, k⟩ := k
  rw [attrLists?]
  simp only [h, k]
  exact ⟨_, rfl⟩

theorem leaves_port_nil {r : List Token} (h : ∀ u, r ≠ .colon :: u) : Leaves (port? r) r := by
  unfold port?
  split
  · exact absurd rfl (h _)
  · exact absurd rfl (h _)
  · exact ⟨_, rfl⟩

theorem leaves_port_segment {t : Token} {r : List Token} (ht : t.isId = true)
    (h : ∀ u, r ≠ .colon :: u) : Leaves (port? (.colon :: t :: r)) r := by
  simp only [port?, if_pos ht]
  split
  · exact absurd rfl (h _)
  · exact absurd rfl (h _)
  · exact ⟨_, rfl⟩

theorem leaves_port_compass {t p : Token} {r : List Token} (ht : t.isId = true)
    (hp : p.isCompass = true) : Leaves (port? (.colon :: t :: .colon :: p :: r)) r := by
  simp only [port?, if_pos ht, if_pos hp]
  exact ⟨_, rfl⟩

variable {d l : Bool} {t : Token} {r u v : List Token}

theorem leaves_statements_nil (d : Bool) (r : List Token) :
    Leaves (statements? d (.closeBrace :: r)) (.closeBrace :: r) := by
  rw [statements?]
  exact ⟨_, rfl⟩

theorem leaves_statements_cons (ht : t ≠ .closeBrace)
    (h : Leaves (statement? d (t :: r)) (.semicolon :: u)) (k : Leaves (statements? d u) v) :
    Leaves (statements? d (t :: r)) v := by
  obtain ⟨hu, h⟩ := h
  obtain ⟨hv, k⟩ := k
  rw [statements?]
  · simp only [h, skipSemicolon, k]
    exact ⟨_, rfl⟩
  · exact ht

theorem leaves_statement_defaults (ht : t.isComponent = true)
    (h : Leaves (attrLists? (.openBracket :: r)) u) :
    Leaves (statement? d (t :: .openBracket :: r)) u := by
  obtain ⟨hu, h⟩ := h
  rw [statement?, if_pos ht]
  simp only [h]
  exact ⟨_, rfl⟩

theorem leaves_statement_subgraph (hc : t.isComponent = false) (ht : t.startsSubgraph = true)
    (h : Leaves (subgraph? d (t :: r)) u) (k : Leaves (edgeTail? d false u) v) :
    Leaves (statement? d (t :: r)) v := by
  obtain ⟨hu, h⟩ := h
  obtain ⟨hv, k⟩ := k
  unfold statement?
  simp only [hc, Bool.false_eq_true, if_false, if_pos ht, h, k]
  exact ⟨_, rfl⟩

theorem leaves_statement_assign {x : Token} (hc : t.isComponent = false)
    (hs : t.startsSubgraph = false) (ht : t.isId = true) (hx : x.isId = true) :
    Leaves (statement? d (t :: .equals :: x :: r)) r := by
  rw [statement?, if_neg (by simp [hc]), if_neg (by simp [hs]), if_pos ht]
  simp only [if_pos hx]
  exact ⟨_, rfl⟩

theorem leaves_statement_node (hc : t.isComponent = false) (hs : t.startsSubgraph = false)
    (ht : t.isId = true) (hr : ∀ u, r ≠ .equals :: u) (h : Leaves (port? r) u)
    (k : Leaves (edgeTail? d true u) v) : Leaves (statement? d (t :: r)) v := by
  obtain ⟨hu, h⟩ := h
  obtain ⟨hv, k⟩ := k
  unfold statement?
  simp only [hc, hs, Bool.false_eq_true, if_false, if_pos ht]
  split
  · exact absurd rfl (hr _)
  · exact absurd rfl (hr _)
  · simp only [h, k]
    exact ⟨_, rfl⟩

theorem leaves_edgeTail_nil (ho : ∀ e u, r ≠ .edgeOperator e :: u)
    (hl : ∀ u, r ≠ .openBracket :: u) : Leaves (edgeTail? d l r) r := by
  unfold edgeTail?
  split
  · exact absurd rfl (ho _ _)
  · exact absurd rfl (ho _ _)
  · exact absurd rfl (hl _)
  · exact ⟨_, rfl⟩

theorem leaves_edgeTail_lists (h : Leaves (attrLists? (.openBracket :: r)) u) :
    Leaves (edgeTail? d true (.openBracket :: r)) u := by
  rw [edgeTail?]
  exact h

theorem leaves_edgeTail_node (hs : t.startsSubgraph = false) (ht : t.isId = true)
    (h : Leaves (port? r) u) (k : Leaves (edgeTail? d true u) v) :
    Leaves (edgeTail? d l (.edgeOperator d :: t :: r)) v := by
  obtain ⟨hu, h⟩ := h
  obtain ⟨hv, k⟩ := k
  rw [edgeTail?, if_neg (by simp), if_neg (by simp [hs]), if_pos ht]
  simp only [h, k]
  exact ⟨_, rfl⟩

theorem leaves_edgeTail_subgraph (ht : t.startsSubgraph = true)
    (h : Leaves (subgraph? d (t :: r)) u) (k : Leaves (edgeTail? d true u) v) :
    Leaves (edgeTail? d l (.edgeOperator d :: t :: r)) v := by
  obtain ⟨hu, h⟩ := h
  obtain ⟨hv, k⟩ := k
  rw [edgeTail?, if_neg (by simp), if_pos ht]
  simp only [h, k]
  exact ⟨_, rfl⟩

/-- The keyword may be followed by a name. -/
theorem leaves_subgraph (ht : t.isKeyword "subgraph".toList = true)
    (hr : (skipId r).1 = .openBrace :: u) (h : Leaves (statements? d u) (.closeBrace :: v)) :
    Leaves (subgraph? d (t :: r)) v := by
  obtain ⟨hv, h⟩ := h
  rw [subgraph?]
  simp only [if_pos ht, hr, h]
  exact ⟨_, rfl⟩

/-! ## Tokens -/

/-- Neither a port nor an assignment goes on with what follows. -/
structure NoPortHead (r : List Token) : Prop where
  ne_colon : ∀ u, r ≠ .colon :: u
  ne_equals : ∀ u, r ≠ .equals :: u

theorem noPortHead_semicolon (r : List Token) : NoPortHead (.semicolon :: r) :=
  ⟨by simp, by simp⟩

theorem noPortHead_lists (q : Quoting) (a : List Attrs) (h : NoPortHead r) :
    NoPortHead (listTokens q a ++ r) :=
  ⟨listTokens_ne_cons (by simp) h.ne_colon q a, listTokens_ne_cons (by simp) h.ne_equals q a⟩

theorem noPortHead_targets (q : Quoting) (d : Bool) (e : List Endpoint) (h : NoPortHead r) :
    NoPortHead (targetTokens q d e ++ r) :=
  ⟨targetTokens_ne_cons (by simp) h.ne_colon q d e,
    targetTokens_ne_cons (by simp) h.ne_equals q d e⟩

theorem isId_value (q : Quoting) (v : Value) : (valueToken q v).isId = true := by
  cases v <;> rfl

theorem isComponent_quoted (c : Text) : (Token.quoted c).isComponent = false := by
  rfl

theorem startsSubgraph_quoted (c : Text) : (Token.quoted c).startsSubgraph = false := by
  simp [Token.startsSubgraph, Token.isKeyword]

theorem isComponent_keyword (c : Component) : (Token.word c.keyword).isComponent = true := by
  cases c <;> decide

theorem isComponent_of_not_isKeyword {k : Text} (h : ¬ k.IsKeyword) :
    (Token.word k).isComponent = false := by
  simp only [Text.IsKeyword, keywords, List.mem_cons, List.not_mem_nil, or_false, not_or] at h
  simp only [Token.isComponent, Component.all, List.any_cons, List.any_nil, Token.isKeyword,
    Component.keyword, Bool.or_eq_false_iff]
  exact ⟨decide_eq_false h.2.1, decide_eq_false h.2.2.2.2.1, decide_eq_false h.2.2.2.2.2, trivial⟩

theorem startsSubgraph_of_not_isKeyword {k : Text} (h : ¬ k.IsKeyword) :
    (Token.word k).startsSubgraph = false := by
  simp only [Text.IsKeyword, keywords, List.mem_cons, List.not_mem_nil, or_false, not_or] at h
  simp only [Token.startsSubgraph, Token.isKeyword, Bool.or_eq_false_iff, decide_eq_false_iff_not]
  exact ⟨h.2.2.2.1, by simp⟩

theorem leaves_entries (q : Quoting) (r : List Token) : ∀ l : List (Text × Value),
    Leaves (entries? (entryTokens q l ++ .closeBracket :: r)) r
  | [] => leaves_entries_close r
  | (_, v) :: m => leaves_entries_cons rfl (isId_value q v) (leaves_entries q r m)

theorem leaves_lists (q : Quoting) (hr : ∀ u, r ≠ .openBracket :: u) : ∀ a : List Attrs,
    Leaves (attrLists? (listTokens q a ++ r)) r
  | [] => leaves_attrLists_nil hr
  | b :: m => by
    rw [listTokens, List.cons_append, List.append_assoc]
    exact leaves_attrLists_cons (leaves_entries q _ b.entries) (leaves_lists q hr m)

theorem leaves_edgeTail_semicolon (q : Quoting) (d : Bool) (a : List Attrs) (r : List Token) :
    Leaves (edgeTail? d true (listTokens q a ++ .semicolon :: r)) (.semicolon :: r) := by
  have h := leaves_lists (r := .semicolon :: r) q (by simp) a
  cases a with
  | nil =>
    rw [listTokens, List.nil_append]
    exact leaves_edgeTail_nil (by simp) (by simp)
  | cons b m => exact leaves_edgeTail_lists h

theorem leaves_port {p : Option Text} (hp : ∀ x, p = some x → NodeId.IsPlace x)
    (hr : NoPortHead r) : Leaves (port? (portTokens (p.getD []) ++ r)) r := by
  cases p with
  | none => exact leaves_port_nil hr.ne_colon
  | some x =>
    obtain ⟨s, hs, rfl | ⟨c, rfl⟩⟩ := hp x rfl
    · have h : portTokens (NodeId.portOf [s]) = [.colon, .word s] :=
        portTokens_portOf (by simpa using hs)
      rw [Option.getD_some, h]
      exact leaves_port_segment rfl hr.ne_colon
    · have h : portTokens (NodeId.portOf [s, c.text]) =
          [.colon, .word s, .colon, .word c.text] :=
        portTokens_portOf (by simpa using ⟨hs, c.isWord_text⟩)
      rw [Option.getD_some, h]
      refine leaves_port_compass rfl ?_
      rw [Token.isCompass, Compass.ofText_text]
      rfl

/-! ## Statements -/

/-- Parts of which each flag is `d`, each edge has a target, and everything fits the grammar. -/
def Valid (d : Bool) (l : List Part) : Prop :=
  Uniform d l ∧ Targeted l ∧ ∀ p ∈ l, p.Grammatical

theorem valid_append {l m : List Part} : Valid d (l ++ m) ↔ Valid d l ∧ Valid d m := by
  simp only [Valid, uniform_append, targeted_append, List.forall_mem_append]
  constructor
  · rintro ⟨⟨a, b⟩, ⟨c, e⟩, f, g⟩
    exact ⟨⟨a, c, f⟩, b, e, g⟩
  · rintro ⟨⟨a, c, f⟩, b, e, g⟩
    exact ⟨⟨a, b⟩, ⟨c, e⟩, f, g⟩

theorem Valid.tail {p : Part} {l : List Part} (h : Valid d (p :: l)) : Valid d l := by
  rw [← List.singleton_append, valid_append] at h
  exact h.2

theorem Valid.port {id : NodeId} {l : List Part} (h : Valid d (.node id :: l)) :
    ∀ p, id.port = some p → NodeId.IsPlace p :=
  h.2.2 _ (List.mem_cons_self ..)

theorem Valid.flag {e : Bool} {l : List Part} (h : Valid d (.flag e :: l)) : e = d :=
  h.1 e (List.mem_cons_self ..)

theorem portTokens_ne_equals (p : Text) (hr : NoPortHead r) (u : List Token) :
    portTokens p ++ r ≠ .equals :: u := by
  rw [portTokens]
  cases (List.splitOn ':' p).tail with
  | nil => exact hr.ne_equals u
  | cons s m =>
    rw [segmentTokens]
    simp

theorem leaves_statement_nodeTokens {q : Quoting} {id : NodeId}
    (hp : ∀ x, id.port = some x → NodeId.IsPlace x) (hr : NoPortHead r)
    (h : Leaves (edgeTail? d true r) u) : Leaves (statement? d (nodeTokens q id ++ r)) u :=
  leaves_statement_node (isComponent_quoted _) (startsSubgraph_quoted _) rfl
    (portTokens_ne_equals _ hr) (leaves_port hp hr) h

theorem leaves_statement_subgraphTokens {q : Quoting} {s : Subgraph}
    (hs : Leaves (subgraph? d (subgraphTokens q s ++ r)) r) (h : Leaves (edgeTail? d false r) u) :
    Leaves (statement? d (subgraphTokens q s ++ r)) u := by
  cases s
  rw [subgraphTokens] at hs ⊢
  exact leaves_statement_subgraph (by decide) (by decide) hs h

theorem leaves_edgeTail_subgraphTokens {q : Quoting} {s : Subgraph}
    (hs : Leaves (subgraph? d (subgraphTokens q s ++ r)) r) (h : Leaves (edgeTail? d true r) u) :
    Leaves (edgeTail? d l (.edgeOperator d :: (subgraphTokens q s ++ r))) u := by
  cases s
  rw [subgraphTokens] at hs ⊢
  exact leaves_edgeTail_subgraph (by decide) hs h

mutual

theorem leaves_statement (q : Quoting) (d : Bool) : ∀ (s : Statement) (r : List Token),
    Valid d s.parts →
    Leaves (statement? d (statementTokens q s ++ .semicolon :: r)) (.semicolon :: r)
  | .node id a, r, h => by
    rw [Statement.parts] at h
    rw [statementTokens, List.append_assoc]
    exact leaves_statement_nodeTokens h.port
      (noPortHead_lists q _ (noPortHead_semicolon _))
      (leaves_edgeTail_semicolon q d _ r)
  | .edge e, r, h => by
    rw [statementTokens]
    exact leaves_edge q d e r h
  | .attr c [], r, _ => by
    rw [statementTokens]
    exact leaves_statement_defaults (isComponent_keyword c)
      (leaves_attrLists_cons (leaves_entries_close _) (leaves_attrLists_nil (by simp)))
  | .attr c (a :: m), r, _ => by
    have hl := leaves_lists (r := .semicolon :: r) q (by simp) (a :: m)
    rw [statementTokens]
    exact leaves_statement_defaults (isComponent_keyword c) hl
  | .subgraph s, r, h => by
    rw [statementTokens]
    exact leaves_statement_subgraphTokens (leaves_subgraphTokens q d s _ h)
      (leaves_edgeTail_nil (by simp) (by simp))
  | .assign k v, r, h => by
    rw [Statement.parts] at h
    obtain ⟨-, hk, -⟩ := h.2.2 _ (List.mem_singleton_self _)
    rw [statementTokens]
    exact leaves_statement_assign (isComponent_of_not_isKeyword hk)
      (startsSubgraph_of_not_isKeyword hk) rfl (isId_value q v)

theorem leaves_edge (q : Quoting) (d : Bool) : ∀ (e : Edge) (r : List Token),
    Valid d e.parts → Leaves (statement? d (edgeTokens q e ++ .semicolon :: r)) (.semicolon :: r)
  | ⟨f, s, [], a⟩, r, h => by
    rw [Edge.parts] at h
    exact absurd (List.mem_cons_of_mem _ (List.mem_cons_self ..)) h.2.1
  | ⟨f, s, t :: m, a⟩, r, h => by
    rw [Edge.parts] at h
    obtain rfl := h.flag
    have hst := h.tail.tail
    rw [valid_append, valid_append] at hst
    obtain ⟨⟨hs, ht⟩, -⟩ := hst
    have hr : NoPortHead (filledTokens q a ++ .semicolon :: r) :=
      noPortHead_lists q _ (noPortHead_semicolon _)
    have hl := leaves_edgeTail_semicolon q f (a.filter (fun a => !a.isEmpty)) r
    rw [edgeTokens, List.append_assoc, List.append_assoc]
    exact leaves_source q f s _ _ (noPortHead_targets q f _ hr) hs
      (fun l => leaves_targets q f (t :: m) l _ _ (by simp) hr ht hl)

/-- An endpoint at the start of an edge. -/
theorem leaves_source (q : Quoting) (d : Bool) : ∀ (e : Endpoint) (r u : List Token),
    NoPortHead r → Valid d e.parts → (∀ l, Leaves (edgeTail? d l r) u) →
    Leaves (statement? d (endpointTokens q e ++ r)) u
  | .node id, r, u, hr, h, k => by
    rw [Endpoint.parts] at h
    rw [endpointTokens]
    exact leaves_statement_nodeTokens h.port hr (k true)
  | .subgraph s, r, u, _, h, k => by
    rw [endpointTokens]
    exact leaves_statement_subgraphTokens (leaves_subgraphTokens q d s _ h) (k false)

/-- An endpoint after an operator. -/
theorem leaves_target (q : Quoting) (d : Bool) : ∀ (e : Endpoint) (l : Bool) (r u : List Token),
    NoPortHead r → Valid d e.parts → Leaves (edgeTail? d true r) u →
    Leaves (edgeTail? d l (.edgeOperator d :: (endpointTokens q e ++ r))) u
  | .node id, l, r, u, hr, h, k => by
    rw [Endpoint.parts] at h
    rw [endpointTokens]
    exact leaves_edgeTail_node (startsSubgraph_quoted _) rfl (leaves_port h.port hr) k
  | .subgraph s, l, r, u, _, h, k => by
    rw [endpointTokens]
    exact leaves_edgeTail_subgraphTokens (leaves_subgraphTokens q d s _ h) k

/-- Without targets the lists that follow have to be allowed already. -/
theorem leaves_targets (q : Quoting) (d : Bool) : ∀ (t : List Endpoint) (l : Bool)
    (r u : List Token), (t = [] → l = true) → NoPortHead r → Valid d (Endpoint.partsAll t) →
    Leaves (edgeTail? d true r) u → Leaves (edgeTail? d l (targetTokens q d t ++ r)) u
  | [], l, r, u, hl, _, _, k => by
    rw [targetTokens, List.nil_append, hl rfl]
    exact k
  | t :: m, l, r, u, _, hr, h, k => by
    rw [Endpoint.partsAll, valid_append] at h
    rw [targetTokens, List.cons_append, List.append_assoc]
    exact leaves_target q d t l _ u (noPortHead_targets q d _ hr) h.1
      (leaves_targets q d m true r u (fun _ => rfl) hr h.2 k)

theorem leaves_subgraphTokens (q : Quoting) (d : Bool) : ∀ (s : Subgraph) (r : List Token),
    Valid d s.parts → Leaves (subgraph? d (subgraphTokens q s ++ r)) r
  | ⟨n, f, b⟩, r, h => by
    rw [Subgraph.parts] at h
    have hb := h.tail
    rw [valid_append] at hb
    have hl := leaves_lines q d b r hb.2
    rw [subgraphTokens, List.cons_append, List.append_assoc]
    refine leaves_subgraph (by decide) ?_ hl
    cases n <;> simp [nameTokens, skipId, Token.isId]

theorem leaves_lines (q : Quoting) (d : Bool) : ∀ (b : List Statement) (r : List Token),
    Valid d (Statement.partsAll b) →
    Leaves (statements? d (lineTokens q b ++ .closeBrace :: r)) (.closeBrace :: r)
  | [], r, _ => by
    rw [lineTokens]
    exact leaves_statements_nil d r
  | s :: m, r, h => by
    rw [Statement.partsAll, valid_append] at h
    obtain ⟨t, u, ht, e⟩ := statementTokens_head q s
    have hs := leaves_statement q d s (lineTokens q m ++ .closeBrace :: r) h.1
    rw [lineTokens, List.append_assoc, e]
    rw [e] at hs
    exact leaves_statements_cons ht hs (leaves_lines q d m r h.2)

end

/-! ## Graphs -/

/-- The word in the header of a graph. -/
theorem isKeyword_header (d : Bool) :
    let t : Token := .word (if d then "digraph".toList else "graph".toList)
    t.isKeyword "strict".toList = false ∧ t.isKeyword "digraph".toList = d ∧
      (d || t.isKeyword "graph".toList) = true := by
  cases d <;> decide

theorem graph_of_leaves (hr : (skipId r).1 = .openBrace :: u)
    (h : Leaves (statements? d u) [.closeBrace]) :
    graph (.word (if d then "digraph".toList else "graph".toList) :: r) = true := by
  obtain ⟨hs, hd, hg⟩ := isKeyword_header d
  obtain ⟨hv, h⟩ := h
  simp only [graph, hs, Bool.false_eq_true, if_false, hd, hg, if_true, hr, h]

theorem graph_strict (r : List Token)
    (h : ∀ t u, r = t :: u → t.isKeyword "strict".toList = false) :
    graph (.word "strict".toList :: r) = graph r := by
  have hs : (Token.word "strict".toList).isKeyword "strict".toList = true := by decide
  cases r with
  | nil => simp only [graph, hs, if_true]
  | cons t u => simp only [graph, hs, if_true, h t u rfl, Bool.false_eq_true, if_false]

theorem graph_graphTokens {q : Quoting} {g : Graph} (h : Valid g.directed g.parts) :
    graph (graphTokens q g) = true := by
  rw [Graph.parts, valid_append] at h
  have hl := leaves_lines q g.directed g.body [] h.2
  have hr : (skipId (nameTokens q g.name ++
      .openBrace :: (lineTokens q g.body ++ [.closeBrace]))).1 =
      .openBrace :: (lineTokens q g.body ++ [.closeBrace]) := by
    cases g.name <;> simp [nameTokens, skipId, Token.isId]
  have hg := graph_of_leaves hr hl
  rw [graphTokens]
  split
  · rw [List.singleton_append, graph_strict _ ?_]
    · exact hg
    · intro t u e
      cases e
      exact (isKeyword_header g.directed).1
  · exact hg

end Grammar

open Grammar in
/-- **The text of a graph is valid DOT.** Let every flag be the flag of the graph, every edge have a
target, and everything fit the grammar. Then the grammar accepts the escaped text whatever the names
and plain values are, and the text as it is if none of these ends its quotes. -/
theorem accepts_render {g : Graph} (hd : Uniform g.directed g.parts) (ht : Targeted g.parts)
    (hg : ∀ p ∈ g.parts, p.Grammatical) :
    accepts (render .escaped g) = true ∧
      ((∀ p ∈ g.parts, p.Quotable) → accepts (render .asIs g) = true) := by
  have accepted : ∀ q, Legible q g.parts → accepts (render q g) = true := by
    intro q hq
    rw [accepts, tokens?_render hq]
    exact graph_graphTokens ⟨hd, ht, hg⟩
  constructor
  · apply accepted
    intro p hp
    exact ⟨(hg p hp).worded, by simp⟩
  · intro hq
    apply accepted
    intro p hp
    exact ⟨(hg p hp).worded, fun _ => hq p hp⟩

/-- An edge from a port to a subgraph that holds a node with markup; the name of the graph has
quotes that are escaped already. -/
theorem accepts_render_ports :
    let label : Attrs := Attrs.ofList [("label".toList, .html "<b>x</b>".toList)]
    let group : Subgraph := ⟨none, true, [.node (.ofName "b".toList) [label]]⟩
    let g : Graph := ⟨true, true, some "a \\\"b\\\"".toList,
      [.edge ⟨true, .node ⟨"a".toList, some ":p:ne".toList⟩, [.subgraph group], []⟩,
        .assign "rank".toList (.plain "same".toList)]⟩
    Uniform g.directed g.parts ∧ Targeted g.parts ∧ (∀ p ∈ g.parts, p.Grammatical) ∧
      accepts (render .escaped g) = true ∧ accepts (render .asIs g) = true := by
  intro label group g
  have hp : g.parts = [.name "a \\\"b\\\"".toList, .flag true, .targets 1,
      .node ⟨"a".toList, some ":p:ne".toList⟩, .flag true, .node ⟨"b".toList, none⟩,
      .entry "label".toList (.html "<b>x</b>".toList),
      .assign "rank".toList (.plain "same".toList)] := by
    decide
  have hd : Uniform true g.parts := by
    simp [hp, Uniform]
  have ht : Targeted g.parts := by
    simp [hp, Targeted]
  have hplace : NodeId.IsPlace ":p:ne".toList :=
    ⟨"p".toList, by decide, .inr ⟨.ne, by decide⟩⟩
  have hg : ∀ p ∈ g.parts, p.Grammatical := by
    rw [hp]
    simp only [List.forall_mem_cons, Part.Grammatical, Value.Balanced]
    refine ⟨trivial, trivial, trivial, ?_, trivial, by simp, by decide, by decide, by simp⟩
    intro p e
    cases e
    exact hplace
  have hq : ∀ p ∈ g.parts, p.Quotable := by
    rw [hp]
    simp only [List.forall_mem_cons, Part.Quotable, Value.Quotable]
    exact ⟨by decide, trivial, trivial, by decide, trivial, by decide, trivial, by decide, by simp⟩
  obtain ⟨he, ha⟩ := accepts_render hd ht hg
  exact ⟨hd, ht, hg, he, ha hq⟩

end DotGraph.Dot
