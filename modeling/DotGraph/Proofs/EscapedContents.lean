import DotGraph.Proofs.Contents
import DotGraph.Proofs.Escaping

/-!
# Graphs with escaped contents

Whether contents are escaped when they are written or before makes no difference, because nothing
else in a graph is escaped. Escaping makes a text longer unless it leaves it as it is, so the text
of a graph with escaped contents is as long as the one without only if all contents stay.

- `Dot.render_mapContents`: the text of a graph whose contents were changed beforehand.
- `Dot.written_render`: what of the text of a graph depends on the way of quoting.
- `Dot.render_escaped`: the escaped text of a graph is the text of the graph with escaped contents,
  and the two ways of quoting agree on the graphs whose contents are their own escaped forms.
-/

set_option autoImplicit false

namespace DotGraph.Dot

/-! ## Changing contents beforehand -/

section Changed

variable {q q' : Quoting} {f : Text → Text}

theorem quoted_mapContents (h : q.Carries q' f id) (t : Text) : q'.quoted (f t) = q.quoted t := by
  rw [Quoting.quoted, h t]
  rfl

theorem value_mapContents (h : q.Carries q' f id) (v : Value) :
    value q' (v.mapContents f) = value q v := by
  cases v with
  | plain t => exact quoted_mapContents h t
  | html m => rfl

theorem entries_mapContents (h : q.Carries q' f id) : ∀ l : List (Text × Value),
    entries q' (l.map (fun e => (e.1, e.2.mapContents f))) = entries q l
  | [] => rfl
  | (k, v) :: r => by
    rw [List.map_cons, entries, entries, value_mapContents h, entries_mapContents h r]

theorem attrLists_mapContents (h : q.Carries q' f id) : ∀ l : List Attrs,
    attrLists q' (l.map (Attrs.mapContents f)) = attrLists q l
  | [] => rfl
  | a :: r => by
    have ha : attrs q' (a.mapContents f) = attrs q a := by
      rw [attrs, Attrs.mapContents, entries_mapContents h, attrs]
    rw [List.map_cons, attrLists, attrLists, ha, attrLists_mapContents h r]

theorem filledAttrLists_mapContents (h : q.Carries q' f id) (l : List Attrs) :
    filledAttrLists q' (l.map (Attrs.mapContents f)) = filledAttrLists q l := by
  rw [filledAttrLists, filledAttrLists, Attrs.filter_mapContents, attrLists_mapContents h]

theorem nodeId_mapContents (h : q.Carries q' f id) (i : NodeId) :
    nodeId q' (i.mapContents f) = nodeId q i :=
  congrArg (· ++ i.port.getD []) (quoted_mapContents h i.name)

theorem headerName_mapContents (h : q.Carries q' f id) (n : Option Text) :
    headerName q' (n.map f) = headerName q n := by
  cases n with
  | none => rfl
  | some t => exact congrArg (' ' :: ·) (quoted_mapContents h t)

theorem defaults_mapContents (h : q.Carries q' f id) (c : Component) (l : List Attrs) :
    defaults q' c (l.map (Attrs.mapContents f)) = defaults q c l := by
  cases l with
  | nil => rfl
  | cons a r => exact congrArg (c.keyword ++ ·) (attrLists_mapContents h (a :: r))

mutual

theorem statement_mapContents (h : q.Carries q' f id) (depth : Nat) : ∀ s : Statement,
    statement q' depth (s.mapContents f) = statement q depth s
  | .node i l => by
    rw [Statement.mapContents, statement, statement, nodeId_mapContents h,
      filledAttrLists_mapContents h]
  | .edge e => by
    rw [Statement.mapContents, statement, statement, edge_mapContents h depth e]
  | .attr c l => by
    rw [Statement.mapContents, statement, statement, defaults_mapContents h]
  | .subgraph s => by
    rw [Statement.mapContents, statement, statement, subgraph_mapContents h depth s]
  | .assign k v => by
    rw [Statement.mapContents, statement, statement, value_mapContents h]

theorem edge_mapContents (h : q.Carries q' f id) (depth : Nat) : ∀ e : Edge,
    edge q' depth (e.mapContents f) = edge q depth e
  | ⟨d, s, t, l⟩ => by
    rw [Edge.mapContents, edge, edge, endpoint_mapContents h depth s,
      targets_mapContents h depth d t, filledAttrLists_mapContents h]

theorem endpoint_mapContents (h : q.Carries q' f id) (depth : Nat) : ∀ e : Endpoint,
    endpoint q' depth (e.mapContents f) = endpoint q depth e
  | .node i => by
    rw [Endpoint.mapContents, endpoint, endpoint, nodeId_mapContents h]
  | .subgraph s => by
    rw [Endpoint.mapContents, endpoint, endpoint, subgraph_mapContents h depth s]

theorem targets_mapContents (h : q.Carries q' f id) (depth : Nat) (d : Bool) :
    ∀ t : List Endpoint,
      targets q' depth d (Endpoint.mapContentsAll f t) = targets q depth d t
  | [] => by
    rw [Endpoint.mapContentsAll, targets, targets]
  | e :: r => by
    rw [Endpoint.mapContentsAll, targets, targets, endpoint_mapContents h depth e,
      targets_mapContents h depth d r]

theorem subgraph_mapContents (h : q.Carries q' f id) (depth : Nat) : ∀ s : Subgraph,
    subgraph q' depth (s.mapContents f) = subgraph q depth s
  | ⟨n, d, b⟩ => by
    rw [Subgraph.mapContents, subgraph_mk, subgraph_mk, headerName_mapContents h,
      lines_mapContents h (depth + 1) b]

theorem lines_mapContents (h : q.Carries q' f id) (depth : Nat) : ∀ b : List Statement,
    lines q' depth (Statement.mapContentsAll f b) = lines q depth b
  | [] => by
    rw [Statement.mapContentsAll, lines, lines]
  | s :: r => by
    rw [Statement.mapContentsAll, lines, lines, statement_mapContents h depth s,
      lines_mapContents h depth r]

end

/-- **Contents that are changed beforehand** are written as they would have been changed. -/
theorem render_mapContents (h : q.Carries q' f id) (g : Graph) :
    render q' (g.mapContents f) = render q g := by
  rw [render, render, header, header, Graph.mapContents]
  simp only [headerName_mapContents h, lines_mapContents h]

end Changed

/-! ## What depends on the way of quoting -/

/-- A text, for each way of quoting, that is made of pieces which are the same in all of them, and
of the contents of parts, in their order. -/
inductive Written : (Quoting → Text) → List Part → Prop where
  | fixed (t : Text) : Written (fun _ => t) []
  | silent {p : Part} : p.content? = none → Written (fun _ => []) [p]
  | content {p : Part} {t : Text} : p.content? = some t → Written (fun q => q.content t) [p]
  | append {v w : Quoting → Text} {l m : List Part} :
    Written v l → Written w m → Written (fun q => v q ++ w q) (l ++ m)

namespace Written

variable {w : Quoting → Text} {l : List Part}

/-- A fixed piece may stand in front. -/
theorem after (t : Text) (h : Written w l) : Written (fun q => t ++ w q) l :=
  (fixed t).append h

/-- A fixed piece may follow. -/
theorem before (t : Text) (h : Written w l) : Written (fun q => w q ++ t) l := by
  have closed := h.append (fixed t)
  rwa [List.append_nil] at closed

/-- A part without contents may stand in front. -/
theorem skip {p : Part} (hp : p.content? = none) (h : Written w l) : Written w (p :: l) :=
  (silent hp).append h

theorem quoted {p : Part} {t : Text} (hp : p.content? = some t) :
    Written (fun q => q.quoted t) [p] :=
  ((content hp).before ['"']).after ['"']

/-- Where all contents are written alike, so is the text. -/
theorem eq_of_content_eq (h : Written w l) {q q' : Quoting}
    (same : ∀ t ∈ Part.contents l, q.content t = q'.content t) : w q = w q' := by
  induction h with
  | fixed t => rfl
  | silent _ => rfl
  | content hp => exact same _ (by simp [Part.contents, hp])
  | append _ _ ihv ihw =>
    rw [Part.contents_append, List.forall_mem_append] at same
    simp only [ihv same.1, ihw same.2]

/-- A text differs in length as much as its contents do, all together. -/
theorem length_eq (h : Written w l) (q q' : Quoting) :
    (w q).length + ((Part.contents l).flatMap q'.content).length =
      (w q').length + ((Part.contents l).flatMap q.content).length := by
  induction h with
  | fixed t => rfl
  | silent hp => simp [Part.contents, hp]
  | content hp => simp [Part.contents, hp, Nat.add_comm]
  | append _ _ ihv ihw =>
    simp only [Part.contents_append, List.length_append, List.flatMap_append]
    omega

end Written

theorem written_value (k : Text) (v : Value) :
    Written (fun q => value q v) [.entry k v] ∧ Written (fun q => value q v) [.assign k v] := by
  cases v with
  | plain t => exact ⟨.quoted rfl, .quoted rfl⟩
  | html m => exact ⟨(Written.fixed _).skip rfl, (Written.fixed _).skip rfl⟩

theorem written_entries : ∀ l : List (Text × Value),
    Written (fun q => entries q l) (l.map (fun e => .entry e.1 e.2))
  | [] => Written.fixed []
  | (k, v) :: r => by
    have first : Written (fun q => k ++ '=' :: value q v) [.entry k v] :=
      ((written_value k v).1.after ['=']).after k
    exact first.append ((written_entries r).after [';'])

theorem written_attrLists : ∀ l : List Attrs,
    Written (fun q => attrLists q l) (Attrs.parts l)
  | [] => Written.fixed []
  | a :: r => by
    have first : Written (fun q => attrs q a) (a.entries.map (fun e => .entry e.1 e.2)) :=
      ((written_entries a.entries).before [']']).after ['[']
    exact first.append (written_attrLists r)

theorem written_filled (l : List Attrs) :
    Written (fun q => filledAttrLists q l) (Attrs.parts l) := by
  rw [← Attrs.parts_filter]
  exact written_attrLists (l.filter (fun a => !a.isEmpty))

theorem written_nodeId (i : NodeId) : Written (fun q => nodeId q i) [.node i] :=
  (Written.quoted rfl).before (i.port.getD [])

theorem written_headerName (n : Option Text) :
    Written (fun q => headerName q n) (Part.ofName n) := by
  cases n with
  | none => exact Written.fixed []
  | some t => exact (Written.quoted rfl).after [' ']

theorem written_defaults (c : Component) (l : List Attrs) :
    Written (fun q => defaults q c l) (Attrs.parts l) := by
  cases l with
  | nil => exact Written.fixed _
  | cons a r => exact (written_attrLists (a :: r)).after c.keyword

mutual

theorem written_statement (depth : Nat) : ∀ s : Statement,
    Written (fun q => statement q depth s) s.parts
  | .node i l => by
    simp only [statement, Statement.parts]
    exact (written_nodeId i).append (written_filled l)
  | .edge e => by
    simp only [statement, Statement.parts]
    exact written_edge depth e
  | .attr c l => by
    simp only [statement, Statement.parts]
    exact written_defaults c l
  | .subgraph s => by
    simp only [statement, Statement.parts]
    exact written_subgraph depth s
  | .assign k v => by
    simp only [statement, Statement.parts]
    exact ((written_value k v).2.after ['=']).after k

theorem written_edge (depth : Nat) : ∀ e : Edge,
    Written (fun q => edge q depth e) e.parts
  | ⟨d, s, t, l⟩ => by
    simp only [edge, Edge.parts]
    have ends := (written_endpoint depth s).append (written_targets depth d t)
    exact ((ends.append (written_filled l)).skip rfl).skip rfl

theorem written_endpoint (depth : Nat) : ∀ e : Endpoint,
    Written (fun q => endpoint q depth e) e.parts
  | .node i => by
    simp only [endpoint, Endpoint.parts]
    exact written_nodeId i
  | .subgraph s => by
    simp only [endpoint, Endpoint.parts]
    exact written_subgraph depth s

theorem written_targets (depth : Nat) (d : Bool) : ∀ t : List Endpoint,
    Written (fun q => targets q depth d t) (Endpoint.partsAll t)
  | [] => by
    simp only [targets, Endpoint.partsAll]
    exact Written.fixed []
  | e :: r => by
    simp only [targets, Endpoint.partsAll]
    have first := (written_endpoint depth e).after (edgeOperator d)
    exact first.append (written_targets depth d r)

theorem written_subgraph (depth : Nat) : ∀ s : Subgraph,
    Written (fun q => subgraph q depth s) s.parts
  | ⟨n, d, b⟩ => by
    simp only [subgraph_mk, Subgraph.parts]
    have opening := ((written_headerName n).after "subgraph".toList).before " \x7b\n".toList
    have body := opening.append (written_lines (depth + 1) b)
    exact ((body.before (indent depth)).before ['\x7d']).skip rfl

theorem written_lines (depth : Nat) : ∀ b : List Statement,
    Written (fun q => lines q depth b) (Statement.partsAll b)
  | [] => by
    simp only [lines, Statement.partsAll]
    exact Written.fixed []
  | s :: r => by
    simp only [lines, Statement.partsAll]
    have first := ((written_statement depth s).after (indent depth)).before ";\n".toList
    exact first.append (written_lines depth r)

end

/-- **The text of a graph** is made of fixed pieces and of the contents of the graph. -/
theorem written_render (g : Graph) : Written (fun q => render q g) g.parts := by
  have opening : Written (fun q => header q g) (Part.ofName g.name) :=
    ((written_headerName g.name).after _).before _
  exact (opening.append (written_lines 1 g.body)).before ['\x7d']

/-! ## Agreement -/

/-- Escaping makes texts in a row no shorter, and leaves them as long as they are only if each of
them is its own escaped form. -/
theorem length_flatMap_escape (l : List Text) :
    (l.flatMap id).length ≤ (l.flatMap escape).length ∧
      ((l.flatMap id).length = (l.flatMap escape).length → ∀ t ∈ l, escape t = t) := by
  induction l with
  | nil => exact ⟨Nat.le_refl 0, fun _ => nofun⟩
  | cons t l ih =>
    obtain ⟨shorter, same⟩ := ih
    have longer : t.length ≤ (escape t).length := (sublist_escape t).length_le
    simp only [List.flatMap_cons, List.length_append, id_eq]
    refine ⟨by omega, fun h => List.forall_mem_cons.mpr ⟨?_, same (by omega)⟩⟩
    exact ((sublist_escape t).eq_of_length (by omega)).symm

/-- **Escaping is writing escaped contents as they are.** The escaped text of a graph is the plain
text of the graph of which all names and plain values are escaped beforehand, at every depth. So the
two ways of quoting agree on a graph exactly if each of its names and plain values is its own
escaped form. -/
theorem render_escaped (g : Graph) :
    render .escaped g = render .asIs (g.mapContents escape) ∧
    (render .escaped g = render .asIs g ↔ ∀ t ∈ g.contents, escape t = t) := by
  have carries : Quoting.escaped.Carries .asIs escape id := fun _ => rfl
  refine ⟨(render_mapContents carries g).symm, fun h => ?_,
    fun h => (written_render g).eq_of_content_eq h⟩
  have lengths := (written_render g).length_eq .escaped .asIs
  simp only [h] at lengths
  exact (length_flatMap_escape g.contents).2 (Nat.add_left_cancel lengths)

end DotGraph.Dot
