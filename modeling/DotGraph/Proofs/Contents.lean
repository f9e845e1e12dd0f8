import DotGraph.Proofs.Lexing

/-!
# What stands between quotes

The contents of a graph are its names and plain values: the texts that are written between quotes.
Changing them changes the contents of the quoted tokens of the graph's text and nothing else about
its tokens, so that no name and no value can pass for structure once it is escaped.

- `Dot.graphTokens_mapContents`: the tokens of a graph with changed contents.
- `Dot.contents_graphTokens`: the contents of the quoted tokens are the contents of the graph.
- `Dot.tokens_escaped`: two graphs that differ in their contents only have the same tokens but for
  the contents of the quoted ones, which are the escaped contents of each graph in their order.
-/

set_option autoImplicit false

namespace DotGraph

/-! ## Changing contents -/

/-- A value with its text changed, if it is plain. -/
def Value.mapContents (f : Text → Text) : Value → Value
  | .plain t => .plain (f t)
  | .html m => .html m

/-- An attribute list with its plain values changed. -/
def Attrs.mapContents (f : Text → Text) (a : Attrs) : Attrs :=
  ⟨a.entries.map (fun e => (e.1, e.2.mapContents f)), List.pairwise_map.mpr a.increasing⟩

/-- A node id with its name changed. -/
def NodeId.mapContents (f : Text → Text) (id : NodeId) : NodeId :=
  ⟨f id.name, id.port⟩

mutual

/-- A statement with its names and plain values changed, at every depth. -/
def Statement.mapContents (f : Text → Text) : Statement → Statement
  | .node id l => .node (id.mapContents f) (l.map (Attrs.mapContents f))
  | .edge e => .edge (e.mapContents f)
  | .attr c l => .attr c (l.map (Attrs.mapContents f))
  | .subgraph s => .subgraph (s.mapContents f)
  | .assign k v => .assign k (v.mapContents f)

/-- An endpoint with its names and plain values changed. -/
def Endpoint.mapContents (f : Text → Text) : Endpoint → Endpoint
  | .node id => .node (id.mapContents f)
  | .subgraph s => .subgraph (s.mapContents f)

/-- An edge with its names and plain values changed. -/
def Edge.mapContents (f : Text → Text) : Edge → Edge
  | ⟨d, s, t, l⟩ =>
    ⟨d, s.mapContents f, Endpoint.mapContentsAll f t, l.map (Attrs.mapContents f)⟩

/-- A subgraph with its names and plain values changed. -/
def Subgraph.mapContents (f : Text → Text) : Subgraph → Subgraph
  | ⟨n, d, b⟩ => ⟨n.map f, d, Statement.mapContentsAll f b⟩

/-- Statements with their names and plain values changed. -/
def Statement.mapContentsAll (f : Text → Text) : List Statement → List Statement
  | [] => []
  | s :: r => s.mapContents f :: Statement.mapContentsAll f r

/-- Endpoints with their names and plain values changed. -/
def Endpoint.mapContentsAll (f : Text → Text) : List Endpoint → List Endpoint
  | [] => []
  | e :: r => e.mapContents f :: Endpoint.mapContentsAll f r

end

/-- A graph with its names and plain values changed. -/
def Graph.mapContents (f : Text → Text) (g : Graph) : Graph :=
  ⟨g.strict, g.directed, g.name.map f, Statement.mapContentsAll f g.body⟩

/-- A graph without its contents. Graphs are equal but for their contents exactly if this is the
same for both. -/
def Graph.erased (g : Graph) : Graph :=
  g.mapContents (fun _ => [])

/-! ## Reading contents off -/

/-- What a part has between quotes, if anything. -/
def Part.content? : Part → Option Text
  | .name n => some n
  | .node id => some id.name
  | .entry _ (.plain t) | .assign _ (.plain t) => some t
  | .entry _ (.html _) | .assign _ (.html _) | .flag _ | .targets _ => none

/-- What parts have between quotes, in their order. -/
def Part.contents (l : List Part) : List Text :=
  l.filterMap Part.content?

/-- The names and plain values of a graph at every depth, in the order of its text. -/
def Graph.contents (g : Graph) : List Text :=
  Part.contents g.parts

theorem Part.contents_cons {p : Part} (h : p.content? = none) (l : List Part) :
    contents (p :: l) = contents l :=
  List.filterMap_cons_none h

@[simp]
theorem Part.contents_append (l m : List Part) : contents (l ++ m) = contents l ++ contents m :=
  List.filterMap_append

theorem Attrs.isEmpty_mapContents (f : Text → Text) (a : Attrs) :
    (a.mapContents f).isEmpty = a.isEmpty := by
  obtain ⟨l, h⟩ := a
  cases l <;> rfl

/-- Changing contents makes no attribute list empty and fills none. -/
theorem Attrs.filter_mapContents (f : Text → Text) (l : List Attrs) :
    (l.map (Attrs.mapContents f)).filter (fun a => !a.isEmpty) =
      (l.filter (fun a => !a.isEmpty)).map (Attrs.mapContents f) := by
  rw [List.filter_map]
  simp only [Function.comp_def, Attrs.isEmpty_mapContents]

/-- Empty attribute lists have no parts. -/
theorem Attrs.parts_filter (l : List Attrs) :
    Attrs.parts (l.filter (fun a => !a.isEmpty)) = Attrs.parts l := by
  induction l with
  | nil => rfl
  | cons a r ih =>
    cases he : a.isEmpty with
    | true =>
      have hnil : a.entries = [] := List.isEmpty_iff.mp he
      rw [List.filter_cons_of_neg (by simp [he]), ih]
      simp [Attrs.parts, hnil]
    | false =>
      rw [List.filter_cons_of_pos (by simp [he])]
      simp only [Attrs.parts, List.flatMap_cons] at ih ⊢
      rw [ih]

namespace Dot

/-- A token with its content changed, if it is quoted. -/
def Token.mapContent (f : Text → Text) : Token → Token
  | .quoted c => .quoted (f c)
  | t => t

/-- A token without its content, if it is quoted. -/
def Token.erased (t : Token) : Token :=
  t.mapContent (fun _ => [])

/-- The content of a quoted token. -/
def Token.content? : Token → Option Text
  | .quoted c => some c
  | _ => none

/-- The contents of the quoted tokens among others, in their order. -/
def Token.contents (ts : List Token) : List Text :=
  ts.filterMap Token.content?

theorem Token.contents_cons {t : Token} (h : t.content? = none) (ts : List Token) :
    contents (t :: ts) = contents ts :=
  List.filterMap_cons_none h

@[simp]
theorem Token.contents_append (ts us : List Token) :
    contents (ts ++ us) = contents ts ++ contents us :=
  List.filterMap_append

/-! ## Tokens of changed contents -/

/-- Contents that are changed by `f` and then written in the way `q'` are what is written in the way
`q` and then changed by `k`. -/
def Quoting.Carries (q q' : Quoting) (f k : Text → Text) : Prop :=
  ∀ t, q'.content (f t) = k (q.content t)

section Changed

variable {q q' : Quoting} {f k : Text → Text}

theorem valueToken_mapContents (h : q.Carries q' f k) (v : Value) :
    valueToken q' (v.mapContents f) = (valueToken q v).mapContent k := by
  cases v with
  | plain t => exact congrArg Token.quoted (h t)
  | html m => rfl

theorem entryTokens_mapContents (h : q.Carries q' f k) : ∀ l : List (Text × Value),
    entryTokens q' (l.map (fun e => (e.1, e.2.mapContents f))) =
      (entryTokens q l).map (Token.mapContent k)
  | [] => rfl
  | (key, v) :: r => by
    simp only [List.map_cons, entryTokens, valueToken_mapContents h, entryTokens_mapContents h r]
    rfl

theorem listTokens_mapContents (h : q.Carries q' f k) : ∀ l : List Attrs,
    listTokens q' (l.map (Attrs.mapContents f)) = (listTokens q l).map (Token.mapContent k)
  | [] => rfl
  | a :: r => by
    have ha := entryTokens_mapContents h a.entries
    simp only [List.map_cons, List.map_append, listTokens, Attrs.mapContents, ha,
      listTokens_mapContents h r]
    rfl

theorem filledTokens_mapContents (h : q.Carries q' f k) (l : List Attrs) :
    filledTokens q' (l.map (Attrs.mapContents f)) =
      (filledTokens q l).map (Token.mapContent k) := by
  rw [filledTokens, filledTokens, Attrs.filter_mapContents, listTokens_mapContents h]

theorem nodeTokens_mapContents (h : q.Carries q' f k) (id : NodeId) :
    nodeTokens q' (id.mapContents f) = (nodeTokens q id).map (Token.mapContent k) := by
  have hsegments : ∀ l, (segmentTokens l).map (Token.mapContent k) = segmentTokens l := by
    intro l
    induction l with
    | nil => rfl
    | cons s r ih =>
      simp only [segmentTokens, List.map_cons, ih]
      rfl
  simp only [nodeTokens, NodeId.mapContents, portTokens, List.map_cons, hsegments]
  exact congrArg (fun c => Token.quoted c :: _) (h id.name)

theorem nameTokens_mapContents (h : q.Carries q' f k) (n : Option Text) :
    nameTokens q' (n.map f) = (nameTokens q n).map (Token.mapContent k) := by
  cases n with
  | none => rfl
  | some t => exact congrArg (fun c => [Token.quoted c]) (h t)

theorem defaultTokens_mapContents (h : q.Carries q' f k) (c : Component) (l : List Attrs) :
    defaultTokens q' c (l.map (Attrs.mapContents f)) =
      (defaultTokens q c l).map (Token.mapContent k) := by
  cases l with
  | nil => rfl
  | cons a r => exact congrArg (Token.word c.keyword :: ·) (listTokens_mapContents h (a :: r))

mutual

theorem statementTokens_mapContents (h : q.Carries q' f k) : ∀ s : Statement,
    statementTokens q' (s.mapContents f) = (statementTokens q s).map (Token.mapContent k)
  | .node id l => by
    rw [Statement.mapContents, statementTokens, statementTokens, List.map_append,
      nodeTokens_mapContents h, filledTokens_mapContents h]
  | .edge e => by
    rw [Statement.mapContents, statementTokens, statementTokens, edgeTokens_mapContents h e]
  | .attr c l => by
    rw [Statement.mapContents, statementTokens, statementTokens, defaultTokens_mapContents h]
  | .subgraph s => by
    rw [Statement.mapContents, statementTokens, statementTokens, subgraphTokens_mapContents h s]
  | .assign key v => by
    rw [Statement.mapContents, statementTokens, statementTokens, valueToken_mapContents h]
    rfl

theorem edgeTokens_mapContents (h : q.Carries q' f k) : ∀ e : Edge,
    edgeTokens q' (e.mapContents f) = (edgeTokens q e).map (Token.mapContent k)
  | ⟨d, s, t, l⟩ => by
    rw [Edge.mapContents, edgeTokens, edgeTokens, List.map_append, List.map_append,
      endpointTokens_mapContents h s, targetTokens_mapContents h d t, filledTokens_mapContents h]

theorem endpointTokens_mapContents (h : q.Carries q' f k) : ∀ e : Endpoint,
    endpointTokens q' (e.mapContents f) = (endpointTokens q e).map (Token.mapContent k)
  | .node id => by
    rw [Endpoint.mapContents, endpointTokens, endpointTokens, nodeTokens_mapContents h]
  | .subgraph s => by
    rw [Endpoint.mapContents, endpointTokens, endpointTokens, subgraphTokens_mapContents h s]

theorem targetTokens_mapContents (h : q.Carries q' f k) (d : Bool) : ∀ t : List Endpoint,
    targetTokens q' d (Endpoint.mapContentsAll f t) =
      (targetTokens q d t).map (Token.mapContent k)
  | [] => by
    rw [Endpoint.mapContentsAll, targetTokens, targetTokens]
    rfl
  | e :: r => by
    rw [Endpoint.mapContentsAll, targetTokens, targetTokens, List.map_cons, List.map_append,
      endpointTokens_mapContents h e, targetTokens_mapContents h d r]
    rfl

theorem subgraphTokens_mapContents (h : q.Carries q' f k) : ∀ s : Subgraph,
    subgraphTokens q' (s.mapContents f) = (subgraphTokens q s).map (Token.mapContent k)
  | ⟨n, d, b⟩ => by
    simp only [Subgraph.mapContents, subgraphTokens, List.map_cons, List.map_append,
      nameTokens_mapContents h, lineTokens_mapContents h b, List.map_nil]
    rfl

theorem lineTokens_mapContents (h : q.Carries q' f k) : ∀ b : List Statement,
    lineTokens q' (Statement.mapContentsAll f b) = (lineTokens q b).map (Token.mapContent k)
  | [] => by
    rw [Statement.mapContentsAll, lineTokens, lineTokens]
    rfl
  | s :: r => by
    rw [Statement.mapContentsAll, lineTokens, lineTokens, List.map_append, List.map_cons,
      statementTokens_mapContents h s, lineTokens_mapContents h r]
    rfl

end

/-- **The tokens of a graph with changed contents** are its tokens with changed contents. -/
theorem graphTokens_mapContents (h : q.Carries q' f k) (g : Graph) :
    graphTokens q' (g.mapContents f) = (graphTokens q g).map (Token.mapContent k) := by
  have hs : (if g.strict then [Token.word "strict".toList] else []).map (Token.mapContent k) =
      if g.strict then [Token.word "strict".toList] else [] := by
    cases g.strict <;> rfl
  simp only [graphTokens, Graph.mapContents, List.map_append, List.map_cons, List.map_nil, hs,
    nameTokens_mapContents h, lineTokens_mapContents h g.body]
  rfl

end Changed

/-- The tokens of a graph without the contents of the quoted ones are those of the graph without its
contents. -/
theorem erased_graphTokens (q : Quoting) (g : Graph) :
    (graphTokens q g).map Token.erased = graphTokens .asIs g.erased :=
  (graphTokens_mapContents (q := q) (k := fun _ => []) (fun _ => rfl) g).symm

/-! ## Contents of tokens -/

section Contents

variable (q : Quoting)

theorem contents_entryTokens : ∀ l : List (Text × Value),
    Token.contents (entryTokens q l) =
      (Part.contents (l.map (fun e => .entry e.1 e.2))).map q.content
  | [] => rfl
  | (_, .plain t) :: r => congrArg (q.content t :: ·) (contents_entryTokens r)
  | (_, .html _) :: r => contents_entryTokens r

theorem contents_listTokens : ∀ l : List Attrs,
    Token.contents (listTokens q l) = (Part.contents (Attrs.parts l)).map q.content
  | [] => rfl
  | a :: r => by
    have hparts : Attrs.parts (a :: r) =
        a.entries.map (fun e => .entry e.1 e.2) ++ Attrs.parts r := List.flatMap_cons
    rw [listTokens, Token.contents_cons rfl, Token.contents_append, Token.contents_cons rfl,
      contents_entryTokens, contents_listTokens r, hparts, Part.contents_append, List.map_append]

/-- Empty attribute lists have no contents, so it does not matter whether they are written. -/
theorem contents_filledTokens (l : List Attrs) :
    Token.contents (filledTokens q l) = (Part.contents (Attrs.parts l)).map q.content := by
  rw [filledTokens, contents_listTokens, Attrs.parts_filter]

theorem contents_nodeTokens (id : NodeId) :
    Token.contents (nodeTokens q id) = [q.content id.name] := by
  have hsegments : ∀ l : List Text, Token.contents (segmentTokens l) = [] := by
    intro l
    induction l with
    | nil => rfl
    | cons s r ih => exact ih
  exact congrArg (q.content id.name :: ·) (hsegments _)

theorem contents_nameTokens (n : Option Text) :
    Token.contents (nameTokens q n) = (Part.contents (Part.ofName n)).map q.content := by
  cases n <;> rfl

theorem contents_defaultTokens (c : Component) (l : List Attrs) :
    Token.contents (defaultTokens q c l) = (Part.contents (Attrs.parts l)).map q.content := by
  cases l with
  | nil => rfl
  | cons a r => exact contents_listTokens q (a :: r)

mutual

theorem contents_statementTokens : ∀ s : Statement,
    Token.contents (statementTokens q s) = (Part.contents s.parts).map q.content
  | .node id l => by
    rw [statementTokens, Token.contents_append, contents_nodeTokens, contents_filledTokens,
      Statement.parts]
    rfl
  | .edge e => by
    rw [statementTokens, contents_edgeTokens e, Statement.parts]
  | .attr c l => by
    rw [statementTokens, contents_defaultTokens, Statement.parts]
  | .subgraph s => by
    rw [statementTokens, contents_subgraphTokens s, Statement.parts]
  | .assign k (.plain t) => rfl
  | .assign k (.html m) => rfl

theorem contents_edgeTokens : ∀ e : Edge,
    Token.contents (edgeTokens q e) = (Part.contents e.parts).map q.content
  | ⟨d, s, t, l⟩ => by
    rw [edgeTokens, Edge.parts, Part.contents_cons rfl, Part.contents_cons rfl]
    simp only [Token.contents_append, Part.contents_append, List.map_append,
      contents_endpointTokens s, contents_targetTokens d t, contents_filledTokens]

theorem contents_endpointTokens : ∀ e : Endpoint,
    Token.contents (endpointTokens q e) = (Part.contents e.parts).map q.content
  | .node id => by
    rw [endpointTokens, contents_nodeTokens, Endpoint.parts]
    rfl
  | .subgraph s => by
    rw [endpointTokens, contents_subgraphTokens s, Endpoint.parts]

theorem contents_targetTokens (d : Bool) : ∀ t : List Endpoint,
    Token.contents (targetTokens q d t) = (Part.contents (Endpoint.partsAll t)).map q.content
  | [] => by
    rw [targetTokens, Endpoint.partsAll]
    rfl
  | e :: r => by
    rw [targetTokens, Token.contents_cons rfl, Token.contents_append, contents_endpointTokens e,
      contents_targetTokens d r, Endpoint.partsAll, Part.contents_append, List.map_append]

theorem contents_subgraphTokens : ∀ s : Subgraph,
    Token.contents (subgraphTokens q s) = (Part.contents s.parts).map q.content
  | ⟨n, d, b⟩ => by
    rw [subgraphTokens, Token.contents_cons rfl, Token.contents_append, Token.contents_cons rfl,
      Token.contents_append, contents_nameTokens, contents_lineTokens b, Subgraph.parts,
      Part.contents_cons rfl, Part.contents_append, List.map_append]
    exact congrArg _ (List.append_nil _)

theorem contents_lineTokens : ∀ b : List Statement,
    Token.contents (lineTokens q b) = (Part.contents (Statement.partsAll b)).map q.content
  | [] => by
    rw [lineTokens, Statement.partsAll]
    rfl
  | s :: r => by
    rw [lineTokens, Token.contents_append, Token.contents_cons rfl, contents_statementTokens s,
      contents_lineTokens r, Statement.partsAll, Part.contents_append, List.map_append]

end

/-- **The contents of the quoted tokens are the contents of the graph**, as they are written. -/
theorem contents_graphTokens (g : Graph) :
    Token.contents (graphTokens q g) = g.contents.map q.content := by
  have hs : Token.contents (if g.strict then [Token.word "strict".toList] else []) = [] := by
    cases g.strict <;> rfl
  rw [graphTokens, Token.contents_append, hs, List.nil_append, Token.contents_cons rfl,
    Token.contents_append, Token.contents_cons rfl, Token.contents_append, contents_nameTokens,
    contents_lineTokens, Graph.contents, Graph.parts, Part.contents_append, List.map_append]
  exact congrArg _ (List.append_nil _)

end Contents

/-- **Escaped contents are no structure.** The escaped texts of two graphs that are equal but for
their contents, whatever these are, have the same tokens but for the contents of the quoted ones;
and the quoted tokens of each text are the contents of its graph, each of them escaped, one for one
and in their order. -/
theorem tokens_escaped {g h : Graph} (hg : ∀ p ∈ g.parts, p.Worded)
    (hh : ∀ p ∈ h.parts, p.Worded) (same : g.erased = h.erased) :
    ∃ ts us, tokens? (render .escaped g) = some ts ∧ tokens? (render .escaped h) = some us ∧
      ts.map Token.erased = us.map Token.erased ∧
      Token.contents ts = g.contents.map escape ∧ Token.contents us = h.contents.map escape := by
  have lexed : ∀ {x : Graph}, (∀ p ∈ x.parts, p.Worded) →
      tokens? (render .escaped x) = some (graphTokens .escaped x) := by
    intro x hx
    refine tokens?_render (fun p hp => ⟨hx p hp, ?_⟩)
    intro hq
    cases hq
  refine ⟨_, _, lexed hg, lexed hh, ?_, contents_graphTokens .escaped g,
    contents_graphTokens .escaped h⟩
  rw [erased_graphTokens, erased_graphTokens, same]

/-- A text that tries to close its quotes, its list and its statement, and one that tries to take
its closing quote with it. -/
theorem tokens_escaped_attempts :
    let graph : Text → Graph := fun t => ⟨true, true, some t, [.node ⟨t, some ":p:n".toList⟩
      [Attrs.ofList [("label".toList, .html "<b>x</b>".toList), ("tip".toList, .plain t)]]]⟩
    let g := graph "\"];\x7d".toList
    let h := graph "\\".toList
    (∀ p ∈ g.parts, p.Worded) ∧ (∀ p ∈ h.parts, p.Worded) ∧ g.erased = h.erased ∧
      ∃ ts us, tokens? (render .escaped g) = some ts ∧ tokens? (render .escaped h) = some us ∧
        ts.map Token.erased = us.map Token.erased ∧
        Token.contents ts = List.replicate 3 "\\\"];\x7d".toList ∧
        Token.contents us = List.replicate 3 "\\\\".toList := by
  intro graph g h
  have parts : ∀ t, (graph t).parts = [.name t, .node ⟨t, some ":p:n".toList⟩,
      .entry "label".toList (.html "<b>x</b>".toList), .entry "tip".toList (.plain t)] :=
    fun _ => rfl
  have worded : ∀ t, ∀ p ∈ (graph t).parts, p.Worded := by
    intro t
    rw [parts]
    simp only [List.forall_mem_cons, Part.Worded, Value.Balanced, and_true, true_and]
    refine ⟨?_, by decide, by decide, by simp⟩
    rintro p ⟨⟩
    exact ⟨["p".toList, "n".toList], by simp, by decide, by decide⟩
  have same : g.erased = h.erased := rfl
  exact ⟨worded _, worded _, same, tokens_escaped (worded _) (worded _) same⟩

end Dot

end DotGraph
