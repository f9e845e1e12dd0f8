import DotGraph.Proofs.Lexing
import DotGraph.Proofs.Nesting

/-!
# Indentation

A statement is written at a nesting level as it is written at level zero, with the spaces of that
level put in after each of its line ends. This needs that the texts in it have no line ends, because
what stands between quotes is not indented. So the text of a graph consists of its header and of the
texts that its statements have on their own, moved to the right by one level, and the body of each
subgraph, wherever it stands, of the texts of its statements, moved to the right by its level.

- `Dot.statement_add`: writing a statement so many levels deeper moves its text by as many levels.
- `Dot.lines_eq`: a body consists of the texts of its statements, moved to its level.
- `Dot.subgraph_infix_lines`: the text of a subgraph stands in the text around it as it is.
- `Dot.render_moved`: all of this for the text of a graph.
-/

set_option autoImplicit false

namespace DotGraph

/-- The names, ports, keys and values of a part. -/
def Part.texts : Part → List Text
  | .name n => [n]
  | .node i => i.name :: i.port.toList
  | .entry k v | .assign k v => [k, v.text]
  | .flag _ | .targets _ => []

/-- No text among the parts has a line end. -/
def OneLine (l : List Part) : Prop :=
  ∀ p ∈ l, ∀ t ∈ p.texts, '\n' ∉ t

instance (l : List Part) : Decidable (OneLine l) :=
  inferInstanceAs (Decidable (∀ p ∈ l, ∀ t ∈ p.texts, '\n' ∉ t))

theorem oneLine_cons {p : Part} {l : List Part} :
    OneLine (p :: l) ↔ (∀ t ∈ p.texts, '\n' ∉ t) ∧ OneLine l :=
  List.forall_mem_cons

theorem oneLine_append {l m : List Part} : OneLine (l ++ m) ↔ OneLine l ∧ OneLine m :=
  List.forall_mem_append

namespace Dot

/-! ## Moving a text -/

/-- A text with the indentation of a nesting level put in after each line end. -/
def shift (depth : Nat) (t : Text) : Text :=
  t.flatMap (fun c => if c = '\n' then c :: indent depth else [c])

theorem shift_append (n : Nat) (s t : Text) : shift n (s ++ t) = shift n s ++ shift n t :=
  List.flatMap_append

/-- A text without line ends stays as it is. -/
theorem shift_eq_self {n : Nat} {t : Text} (h : '\n' ∉ t) : shift n t = t := by
  induction t with
  | nil => rfl
  | cons c t ih =>
    rw [List.mem_cons, not_or] at h
    rw [shift, List.flatMap_cons, if_neg (Ne.symm h.1)]
    exact congrArg (c :: ·) (ih h.2)

/-- What follows a line end is indented. -/
theorem shift_append_newline {n : Nat} {t : Text} (h : '\n' ∉ t) :
    shift n (t ++ ['\n']) = t ++ '\n' :: indent n := by
  rw [shift_append, shift_eq_self h]
  simp [shift]

theorem indent_add (n m : Nat) : indent (n + m) = indent n ++ indent m := by
  rw [indent, indent, indent, Nat.mul_add, List.replicate_add]

theorem newline_not_mem_indent (n : Nat) : '\n' ∉ indent n := by
  rw [indent, List.mem_replicate]
  exact fun h => absurd h.2 (by decide)

/-! ## Pieces without line ends -/

section Pieces

variable {q : Quoting}

/-- Escaping brings in nothing but backslashes. -/
theorem mem_escapeFrom {c : Char} : ∀ {s : Text} {pending : Bool}, c ∈ escapeFrom pending s →
    c = '\\' ∨ c ∈ s
  | [], pending, h => by
    cases pending <;> simp [escapeFrom] at h
    exact .inl h
  | d :: s, pending, h => by
    have kept : ∀ {p : Bool}, c ∈ d :: escapeFrom p s → c = '\\' ∨ c ∈ d :: s := by
      intro p h
      rcases List.mem_cons.mp h with h | h
      · exact .inr (h ▸ List.mem_cons_self ..)
      · exact (mem_escapeFrom h).imp_right (List.mem_cons_of_mem _)
    rw [escapeFrom] at h
    split at h
    · exact (List.mem_cons.mp h).elim .inl kept
    · exact kept h

theorem newline_not_mem_quoted {t : Text} (h : '\n' ∉ t) : '\n' ∉ q.quoted t := by
  have hc : '\n' ∉ q.content t := by
    cases q with
    | asIs => exact h
    | escaped => exact fun hm => (mem_escapeFrom hm).elim (by decide) h
  simpa [Quoting.quoted] using hc

theorem newline_not_mem_value {v : Value} (h : '\n' ∉ v.text) : '\n' ∉ value q v := by
  cases v with
  | plain t => exact newline_not_mem_quoted h
  | html m =>
    have hm : '\n' ∉ m := h
    simpa [value] using hm

theorem newline_not_mem_entries : ∀ {l : List (Text × Value)},
    OneLine (l.map (fun e => .entry e.1 e.2)) → '\n' ∉ entries q l
  | [], _ => List.not_mem_nil
  | (k, v) :: r, h => by
    rw [List.map_cons, oneLine_cons] at h
    have hk : '\n' ∉ k := h.1 k (by simp [Part.texts])
    have hv : '\n' ∉ value q v := newline_not_mem_value (h.1 v.text (by simp [Part.texts]))
    simp [entries, hk, hv, newline_not_mem_entries h.2]

theorem newline_not_mem_attrLists : ∀ {l : List Attrs},
    OneLine (Attrs.parts l) → '\n' ∉ attrLists q l
  | [], _ => List.not_mem_nil
  | a :: r, h => by
    have h : OneLine (a.entries.map (fun e => .entry e.1 e.2) ++ Attrs.parts r) := h
    rw [oneLine_append] at h
    simp [attrLists, attrs, newline_not_mem_entries h.1, newline_not_mem_attrLists h.2]

theorem newline_not_mem_filled {l : List Attrs} (h : OneLine (Attrs.parts l)) :
    '\n' ∉ filledAttrLists q l := by
  refine newline_not_mem_attrLists fun p hp => h p ?_
  simp only [Attrs.parts, List.mem_flatMap, List.mem_filter] at hp ⊢
  obtain ⟨a, ⟨ha, -⟩, hp⟩ := hp
  exact ⟨a, ha, hp⟩

theorem newline_not_mem_nodeId {i : NodeId} (h : ∀ t ∈ Part.texts (.node i), '\n' ∉ t) :
    '\n' ∉ nodeId q i := by
  have hn : '\n' ∉ q.quoted i.name := newline_not_mem_quoted (h _ (List.mem_cons_self ..))
  cases hp : i.port with
  | none => simp [nodeId, hp, hn]
  | some p => simp [nodeId, hp, hn, h p (by simp [Part.texts, hp])]

theorem newline_not_mem_headerName {n : Option Text} (h : OneLine (Part.ofName n)) :
    '\n' ∉ headerName q n := by
  cases n with
  | none => exact List.not_mem_nil
  | some t =>
    have ht : '\n' ∉ q.quoted t := newline_not_mem_quoted (h _ (List.mem_cons_self ..) t (by
      simp [Part.texts]))
    simpa [headerName] using ht

theorem newline_not_mem_defaults {c : Component} {l : List Attrs} (h : OneLine (Attrs.parts l)) :
    '\n' ∉ defaults q c l := by
  have hc : '\n' ∉ c.keyword := by cases c <;> decide
  cases l with
  | nil => simp [defaults, hc]
  | cons a r => simp [defaults, hc, newline_not_mem_attrLists h]

theorem newline_not_mem_edgeOperator (d : Bool) : '\n' ∉ edgeOperator d := by
  cases d <;> decide

end Pieces

/-! ## Statements -/

mutual

/-- **Writing a statement deeper moves its text.** -/
theorem statement_add (q : Quoting) (n m : Nat) : ∀ s : Statement, OneLine s.parts →
    statement q (n + m) s = shift n (statement q m s)
  | .node i l, h => by
    rw [Statement.parts, oneLine_cons] at h
    rw [statement, statement, shift_append, shift_eq_self (newline_not_mem_nodeId h.1),
      shift_eq_self (newline_not_mem_filled h.2)]
  | .edge e, h => by
    rw [statement, statement, edge_add q n m e h]
  | .attr c l, h => by
    rw [statement, statement, shift_eq_self (newline_not_mem_defaults h)]
  | .subgraph s, h => by
    rw [statement, statement, subgraph_add q n m s h]
  | .assign k v, h => by
    rw [Statement.parts, oneLine_cons] at h
    have hk : '\n' ∉ k := h.1 k (by simp [Part.texts])
    have hv : '\n' ∉ value q v := newline_not_mem_value (h.1 v.text (by simp [Part.texts]))
    rw [statement, statement, shift_eq_self (by simp [hk, hv])]

theorem edge_add (q : Quoting) (n m : Nat) : ∀ e : Edge, OneLine e.parts →
    edge q (n + m) e = shift n (edge q m e)
  | ⟨d, s, t, l⟩, h => by
    rw [Edge.parts, oneLine_cons, oneLine_cons, oneLine_append, oneLine_append] at h
    obtain ⟨-, -, ⟨hs, ht⟩, hl⟩ := h
    rw [edge, edge, shift_append, shift_append, endpoint_add q n m s hs, targets_add q n m d t ht,
      shift_eq_self (newline_not_mem_filled hl)]

theorem endpoint_add (q : Quoting) (n m : Nat) : ∀ e : Endpoint, OneLine e.parts →
    endpoint q (n + m) e = shift n (endpoint q m e)
  | .node i, h => by
    rw [Endpoint.parts, oneLine_cons] at h
    rw [endpoint, endpoint, shift_eq_self (newline_not_mem_nodeId h.1)]
  | .subgraph s, h => by
    rw [endpoint, endpoint, subgraph_add q n m s h]

theorem targets_add (q : Quoting) (n m : Nat) (d : Bool) : ∀ t : List Endpoint,
    OneLine (Endpoint.partsAll t) → targets q (n + m) d t = shift n (targets q m d t)
  | [], _ => rfl
  | e :: r, h => by
    rw [Endpoint.partsAll, oneLine_append] at h
    rw [targets, targets, shift_append, shift_append, endpoint_add q n m e h.1,
      targets_add q n m d r h.2, shift_eq_self (newline_not_mem_edgeOperator d)]

theorem subgraph_add (q : Quoting) (n m : Nat) : ∀ s : Subgraph, OneLine s.parts →
    subgraph q (n + m) s = shift n (subgraph q m s)
  | ⟨name, d, b⟩, h => by
    rw [Subgraph.parts, oneLine_cons, oneLine_append] at h
    obtain ⟨-, hn, hb⟩ := h
    have hlines : lines q (n + m + 1) b ++ indent n = indent n ++ shift n (lines q (m + 1) b) :=
      lines_add q n (m + 1) b hb
    have hopen : shift n " \x7b\n".toList = " \x7b\n".toList ++ indent n :=
      shift_append_newline (t := " \x7b".toList) (by decide)
    rw [subgraph_mk, subgraph_mk, indent_add]
    simp only [shift_append, shift_eq_self (show '\n' ∉ "subgraph".toList by decide),
      shift_eq_self (newline_not_mem_headerName hn), hopen,
      shift_eq_self (newline_not_mem_indent m), shift_eq_self (show '\n' ∉ ['\x7d'] by decide)]
    -- the indentation behind the opening brace goes behind the last line of the body
    calc _ = "subgraph".toList ++ headerName q name ++ " \x7b\n".toList ++
          (lines q (n + m + 1) b ++ indent n) ++ indent m ++ ['\x7d'] := by
            simp only [List.append_assoc]
      _ = _ := by
        rw [hlines]
        simp only [List.append_assoc]

/-- The lines of a body one after the other: the indentation in front of the first of them becomes
that behind the last of them. -/
theorem lines_add (q : Quoting) (n m : Nat) : ∀ b : List Statement,
    OneLine (Statement.partsAll b) →
    lines q (n + m) b ++ indent n = indent n ++ shift n (lines q m b)
  | [], _ => (List.append_nil _).symm
  | s :: r, h => by
    rw [Statement.partsAll, oneLine_append] at h
    have hend : shift n ";\n".toList = ";\n".toList ++ indent n :=
      shift_append_newline (t := ";".toList) (by decide)
    rw [lines, lines, indent_add, statement_add q n m s h.1]
    simp only [shift_append, hend, shift_eq_self (newline_not_mem_indent m)]
    calc _ = indent n ++ indent m ++ shift n (statement q m s) ++ ";\n".toList ++
          (lines q (n + m) r ++ indent n) := by simp only [List.append_assoc]
      _ = _ := by
        rw [lines_add q n m r h.2]
        simp only [List.append_assoc]

end

/-! ## Bodies -/

/-- What a statement makes of its own text in a body: two spaces for each level, the text moved by
as much, and what closes it. -/
def moved (q : Quoting) (depth : Nat) (s : Statement) : Text :=
  indent depth ++ shift depth (statement q 0 s) ++ ";\n".toList

/-- **A body consists of the texts of its statements**, moved to its level. -/
theorem lines_eq (q : Quoting) (depth : Nat) : ∀ {b : List Statement},
    OneLine (Statement.partsAll b) → lines q depth b = b.flatMap (moved q depth)
  | [], _ => rfl
  | s :: r, h => by
    rw [Statement.partsAll, oneLine_append] at h
    rw [lines, List.flatMap_cons, moved, ← lines_eq q depth h.2, ← statement_add q depth 0 s h.1,
      Nat.add_zero]

theorem statement_infix_lines (q : Quoting) (depth : Nat) {s : Statement} :
    ∀ {b : List Statement}, s ∈ b → statement q depth s <:+: lines q depth b
  | t :: r, h => by
    rw [lines]
    rcases List.mem_cons.mp h with rfl | h
    · exact ⟨indent depth, ";\n".toList ++ lines q depth r, by simp⟩
    · exact (statement_infix_lines q depth h).trans (List.suffix_append _ _).isInfix

theorem endpoint_infix_targets (q : Quoting) (depth : Nat) (d : Bool) {e : Endpoint} :
    ∀ {t : List Endpoint}, e ∈ t → endpoint q depth e <:+: targets q depth d t
  | u :: r, h => by
    rw [targets]
    rcases List.mem_cons.mp h with rfl | h
    · exact ⟨edgeOperator d, targets q depth d r, rfl⟩
    · exact (endpoint_infix_targets q depth d h).trans (List.suffix_append _ _).isInfix

theorem subgraph_infix_of_opens (q : Quoting) (depth : Nat) {s : Subgraph} {b : List Statement}
    (h : Branch.Opens s b) : subgraph q depth s <:+: lines q depth b := by
  cases h with
  | statement hs => exact statement_infix_lines q depth hs
  | @source e he hs =>
    refine List.IsInfix.trans ?_ (statement_infix_lines q depth he)
    obtain ⟨d, x, t, l⟩ := e
    cases hs
    exact ⟨[], targets q depth d t ++ filledAttrLists q l, by simp [statement, edge, endpoint]⟩
  | @target e he hs =>
    refine List.IsInfix.trans ?_ (statement_infix_lines q depth he)
    obtain ⟨d, x, t, l⟩ := e
    exact (endpoint_infix_targets q depth d hs).trans
      ⟨endpoint q depth x, filledAttrLists q l, by simp [statement, edge]⟩

theorem lines_infix_subgraph (q : Quoting) (depth : Nat) (s : Subgraph) :
    lines q (depth + 1) s.body <:+: subgraph q depth s := by
  obtain ⟨n, d, b⟩ := s
  rw [subgraph_mk]
  exact ⟨"subgraph".toList ++ headerName q n ++ " \x7b\n".toList, indent depth ++ ['\x7d'],
    by simp⟩

/-- **The text of a subgraph stands in the text around it as it is**, however deep it stands. -/
theorem subgraph_infix_lines (q : Quoting) {k : Nat} {s : Subgraph} {b : List Statement}
    (h : Branch.Stands k (.subgraph s) b) :
    ∀ depth, subgraph q (depth + k) s <:+: lines q depth b := by
  generalize hx : Branch.subgraph s = x at h
  induction h with
  | edge => cases hx
  | subgraph ho =>
    cases hx
    exact fun depth => subgraph_infix_of_opens q depth ho
  | @inside k x t b ho _ ih =>
    intro depth
    have hin := ih hx (depth + 1)
    rw [Nat.add_right_comm, Nat.add_assoc] at hin
    exact (hin.trans (lines_infix_subgraph q depth t)).trans (subgraph_infix_of_opens q depth ho)

/-! ## Graphs -/

/-- The header of a graph is one line. -/
theorem header_line (q : Quoting) {g : Graph} (h : OneLine g.parts) :
    ∃ t, '\n' ∉ t ∧ header q g = t ++ ['\n'] := by
  rw [Graph.parts, oneLine_append] at h
  have hs : '\n' ∉ if g.strict then "strict ".toList else [] := by cases g.strict <;> decide
  have hd : '\n' ∉ if g.directed then "digraph".toList else "graph".toList := by
    cases g.directed <;> decide
  have hn : '\n' ∉ headerName q g.name := newline_not_mem_headerName h.1
  have ho : '\n' ∉ " \x7b".toList := by decide
  refine ⟨(if g.strict then "strict ".toList else []) ++
    (if g.directed then "digraph".toList else "graph".toList) ++ headerName q g.name ++
    " \x7b".toList, ?_, ?_⟩
  · simp only [List.mem_append, not_or]
    exact ⟨⟨⟨hs, hd⟩, hn⟩, ho⟩
  · rw [header, List.append_assoc _ " \x7b".toList]
    rfl

/-- **Indentation is a pure shift.** If no text in it has a line end, a statement is written at a
level as it is written on its own, at level zero, with the spaces of the level after each line end.
So a graph is written as the line of its header, then for each statement two spaces, its own text
moved by one level and what closes it, and a brace; and each subgraph in it, at whatever depth, also
at the end of an edge, stands in this text as its opening line, its statements moved in the same way
to one level more than its own, and the brace at its own level. -/
theorem render_moved (q : Quoting) :
    (∀ (s : Statement) (depth : Nat), OneLine s.parts →
      statement q depth s = shift depth (statement q 0 s)) ∧
    ∀ g : Graph, OneLine g.parts →
      (∃ t, '\n' ∉ t ∧ header q g = t ++ ['\n']) ∧
      render q g = header q g ++ g.body.flatMap (moved q 1) ++ ['\x7d'] ∧
      ∀ (k : Nat) (s : Subgraph), Branch.Stands k (.subgraph s) g.body →
        subgraph q (k + 1) s <:+: render q g ∧
        subgraph q (k + 1) s = "subgraph".toList ++ headerName q s.name ++ " \x7b\n".toList ++
          s.body.flatMap (moved q (k + 2)) ++ indent (k + 1) ++ ['\x7d'] := by
  refine ⟨fun s depth h => statement_add q depth 0 s h, fun g h => ?_⟩
  have hbody : OneLine (Statement.partsAll g.body) := (oneLine_append.mp h).2
  refine ⟨header_line q h, by rw [render, lines_eq q 1 hbody], fun k s hs => ⟨?_, ?_⟩⟩
  · rw [Nat.add_comm k 1]
    exact (subgraph_infix_lines q hs 1).trans ⟨header q g, ['\x7d'], rfl⟩
  · have hinner : OneLine (Statement.partsAll s.body) := fun p hp =>
      hbody p (hs.parts_subset (Branch.body_parts_subset s hp))
    obtain ⟨n, d, b⟩ := s
    rw [subgraph_mk, lines_eq q (k + 2) hinner]

/-- A subgraph at the end of an edge inside another subgraph. -/
theorem render_moved_end :
    let inner : Subgraph := ⟨some "in".toList, true, [.node ⟨"a".toList, none⟩ []]⟩
    let e : Statement := .edge ⟨true, .subgraph inner, [.node ⟨"b".toList, none⟩], []⟩
    let g : Graph := ⟨false, true, none, [.subgraph ⟨none, true, [e]⟩]⟩
    OneLine e.parts ∧ statement .asIs 2 e = shift 2 (statement .asIs 0 e) ∧
      OneLine g.parts ∧ Branch.Stands 1 (.subgraph inner) g.body ∧
      render .asIs g = header .asIs g ++ g.body.flatMap (moved .asIs 1) ++ ['\x7d'] ∧
      subgraph .asIs 2 inner <:+: render .asIs g ∧
      subgraph .asIs 2 inner = "subgraph \"in\" \x7b\n      \"a\";\n    \x7d".toList := by
  intro inner e g
  have he : OneLine e.parts := by decide
  have hg : OneLine g.parts := by decide
  have hs : Branch.Stands 1 (.subgraph inner) g.body :=
    .inside (.statement (List.mem_singleton_self _))
      (.subgraph (.source (List.mem_singleton_self _) rfl))
  obtain ⟨-, hr, hi⟩ := (render_moved .asIs).2 g hg
  exact ⟨he, (render_moved .asIs).1 e 2 he, hg, hs, hr, (hi 1 inner hs).1, by decide⟩

end Dot

end DotGraph
