import Mathlib.Data.List.Nodup
import Mathlib.Data.List.Zip
import DotGraph.Network
import DotGraph.Proofs.Contributions

/-!
# Drawings of networks

Drawing a network never fails, because each edge has its one target. Each node and each edge gives
one statement, in the order of their numbers, with the attributes that its function gave for it. As
long as the texts of the nodes differ, the number of a node can be read off its text, so nothing of
a network gets lost but what its weights have beyond their texts and attributes.

- `Network.run_draw`: the statements of a drawing.
- `Network.drawing_inj`: texts, edges and attribute lists can be read off a drawing.
- `Network.network_kept`: drawings are equal exactly if all these are.
-/

set_option autoImplicit false

namespace DotGraph.Network

variable {ν ε σ α β γ : Type}

/-! ## Questions to a function with a memory -/

/-- The answers to questions asked one after the other, and the memory after the last of them. -/
def answers (f : α → StateM σ β) (l : List α) (s : σ) : List β × σ :=
  (l.mapM f).run s

@[simp]
theorem answers_nil (f : α → StateM σ β) (s : σ) : answers f [] s = ([], s) := rfl

@[simp]
theorem answers_cons (f : α → StateM σ β) (a : α) (l : List α) (s : σ) :
    answers f (a :: l) s =
      (((f a).run s).1 :: (answers f l ((f a).run s).2).1, (answers f l ((f a).run s).2).2) := by
  rw [answers, List.mapM_cons]
  rfl

/-- Each question has one answer. -/
theorem length_answers (f : α → StateM σ β) (l : List α) (s : σ) :
    (answers f l s).1.length = l.length := by
  induction l generalizing s with
  | nil => rfl
  | cons a l ih => rw [answers_cons, List.length_cons, List.length_cons, ih]

/-- The attribute lists of the nodes in the order of their numbers. -/
def nodeLists (nodeAttrs : ν → StateM σ Attrs) (w : Network ν ε) (s : σ) : List Attrs :=
  (answers nodeAttrs w.nodes s).1

/-- The attribute lists of the edges in order. They are asked for after those of the nodes. -/
def linkLists (nodeAttrs : ν → StateM σ Attrs) (edgeAttrs : ε → StateM σ Attrs) (w : Network ν ε)
    (s : σ) : List Attrs :=
  (answers (fun l => edgeAttrs l.weight) w.links (answers nodeAttrs w.nodes s).2).1

/-! ## The statements of a drawing -/

/-- The statement that declares a node by its text. -/
def nodeStatement (t : Text) (a : Attrs) : Statement :=
  .node ⟨t, none⟩ [a]

/-- The statement that draws an edge between the nodes with two texts. -/
def linkStatement (d : Bool) (t : Text × Text) (a : Attrs) : Statement :=
  .edge ⟨d, .node ⟨t.1, none⟩, [.node ⟨t.2, none⟩], [a]⟩

/-- The texts at both ends of an edge. -/
def Link.texts {nodes : List ν} (text : ν → Text) (l : Link nodes.length ε) : Text × Text :=
  (text (nodes.get l.source), text (nodes.get l.target))

theorem run_declare (text : ν → Text) (nodeAttrs : ν → StateM σ Attrs) (l : List ν) (c : Container)
    (s : σ) : (declare text nodeAttrs c l).run s =
      (c.extend (List.zipWith nodeStatement (l.map text) (answers nodeAttrs l s).1),
        (answers nodeAttrs l s).2) := by
  induction l generalizing c s with
  | nil =>
    rw [answers_nil, List.map_nil, List.zipWith_nil_left, Container.extend_nil]
    rfl
  | cons v l ih =>
    have hv : (declare text nodeAttrs c (v :: l)).run s =
        (declare text nodeAttrs (c.extend [nodeStatement (text v) ((nodeAttrs v).run s).1]) l).run
          ((nodeAttrs v).run s).2 := rfl
    rw [hv, ih, Container.extend_extend, answers_cons]
    rfl

/-- An edge between two nodes can always be drawn. -/
theorem edgeBetween_nodes (c : Container) (i j : NodeId) (a : Attrs) :
    c.edgeBetween (.node i) [.node j] a =
      .ok (c.extend [.edge ⟨c.directed, .node i, [.node j], [a]⟩]) := rfl

theorem run_connect (nodes : List ν) (text : ν → Text) (edgeAttrs : ε → StateM σ Attrs)
    (l : List (Link nodes.length ε)) (c : Container) (s : σ) :
    (connect nodes text edgeAttrs c l).run s =
      (.ok (c.extend (List.zipWith (linkStatement c.directed) (l.map (Link.texts text))
          (answers (fun l => edgeAttrs l.weight) l s).1)),
        (answers (fun l => edgeAttrs l.weight) l s).2) := by
  induction l generalizing c s with
  | nil =>
    rw [answers_nil, List.map_nil, List.zipWith_nil_left, Container.extend_nil]
    rfl
  | cons e l ih =>
    have he : (connect nodes text edgeAttrs c (e :: l)).run s =
        (connect nodes text edgeAttrs
          (c.extend [linkStatement c.directed (e.texts text) ((edgeAttrs e.weight).run s).1]) l).run
            ((edgeAttrs e.weight).run s).2 := by
      simp only [connect, StateT.run_bind, edgeBetween_nodes]
      rfl
    rw [he, ih, Container.extend_extend, answers_cons]
    rfl

/-- The graph with a statement for each text and, after them, one for each pair of texts. -/
def drawing (d : Bool) (nodes : List Text) (links : List (Text × Text)) (a b : List Attrs) :
    Graph :=
  ⟨false, d, none, List.zipWith nodeStatement nodes a ++ List.zipWith (linkStatement d) links b⟩

/-- **Drawing a network never fails**, and makes one statement for each node and each edge. -/
theorem run_draw (text : ν → Text) (nodeAttrs : ν → StateM σ Attrs)
    (edgeAttrs : ε → StateM σ Attrs) (w : Network ν ε) (s : σ) :
    ((w.draw text nodeAttrs edgeAttrs).run s).1 =
      .ok (drawing w.directed (w.nodes.map text) (w.links.map (Link.texts text))
        (w.nodeLists nodeAttrs s) (w.linkLists nodeAttrs edgeAttrs s)) := by
  simp only [draw, StateT.run_bind, run_declare, run_connect]
  rfl

/-! ## Reading a drawing -/

theorem zipWith_inj {f : α → β → γ} (hf : Function.Injective2 f) {l l' : List α} {m m' : List β}
    (h : l.length = m.length) (h' : l'.length = m'.length)
    (e : List.zipWith f l m = List.zipWith f l' m') : l = l' ∧ m = m' := by
  rw [← List.map_uncurry_zip_eq_zipWith, ← List.map_uncurry_zip_eq_zipWith] at e
  have hz : l.zip m = l'.zip m' := hf.uncurry.list_map e
  constructor
  · calc l = (l.zip m).map Prod.fst := (List.map_fst_zip (Nat.le_of_eq h)).symm
      _ = (l'.zip m').map Prod.fst := by rw [hz]
      _ = l' := List.map_fst_zip (Nat.le_of_eq h')
  · calc m = (l.zip m).map Prod.snd := (List.map_snd_zip (Nat.le_of_eq h.symm)).symm
      _ = (l'.zip m').map Prod.snd := by rw [hz]
      _ = m' := List.map_snd_zip (Nat.le_of_eq h'.symm)

theorem nodeStatement_injective : Function.Injective2 nodeStatement := by
  intro t t' a a' h
  simpa [nodeStatement] using h

theorem linkStatement_injective (d : Bool) : Function.Injective2 (linkStatement d) := by
  intro t t' a a' h
  simp only [linkStatement, Statement.edge.injEq, Edge.mk.injEq, Endpoint.node.injEq,
    NodeId.mk.injEq, List.cons.injEq, and_true, true_and] at h
  exact ⟨Prod.ext h.1 h.2.1, h.2.2⟩

/-- Whether a statement declares a node. -/
def isNode : Statement → Bool
  | .node .. => true
  | _ => false

-- Which statements of a drawing come from nodes shows in them, so that the two parts of its body
-- can be told apart although their lengths are not known.
theorem filter_isNode_nodes (t : List Text) (a : List Attrs) :
    (List.zipWith nodeStatement t a).filter isNode = List.zipWith nodeStatement t a := by
  rw [List.filter_eq_self]
  intro x hx
  rw [← List.map_uncurry_zip_eq_zipWith] at hx
  obtain ⟨p, -, rfl⟩ := List.mem_map.mp hx
  rfl

theorem filter_isNode_links (d : Bool) (t : List (Text × Text)) (a : List Attrs) :
    (List.zipWith (linkStatement d) t a).filter isNode = [] := by
  rw [List.filter_eq_nil_iff]
  intro x hx
  rw [← List.map_uncurry_zip_eq_zipWith] at hx
  obtain ⟨p, -, rfl⟩ := List.mem_map.mp hx
  exact Bool.false_ne_true

/-- **Texts, pairs of texts and attribute lists can be read off a drawing.** -/
theorem drawing_inj {d : Bool} {t t' : List Text} {u u' : List (Text × Text)}
    {a b a' b' : List Attrs} (ha : t.length = a.length) (hb : u.length = b.length)
    (ha' : t'.length = a'.length) (hb' : u'.length = b'.length)
    (h : drawing d t u a b = drawing d t' u' a' b') : t = t' ∧ u = u' ∧ a = a' ∧ b = b' := by
  have hbody : List.zipWith nodeStatement t a ++ List.zipWith (linkStatement d) u b =
      List.zipWith nodeStatement t' a' ++ List.zipWith (linkStatement d) u' b' :=
    congrArg Graph.body h
  have hnodes : List.zipWith nodeStatement t a = List.zipWith nodeStatement t' a' := by
    have := congrArg (List.filter isNode) hbody
    simpa only [List.filter_append, filter_isNode_nodes, filter_isNode_links,
      List.append_nil] using this
  have hlinks : List.zipWith (linkStatement d) u b = List.zipWith (linkStatement d) u' b' := by
    rw [hnodes] at hbody
    exact List.append_cancel_left hbody
  obtain ⟨rfl, rfl⟩ := zipWith_inj nodeStatement_injective ha ha' hnodes
  obtain ⟨rfl, rfl⟩ := zipWith_inj (linkStatement_injective d) hb hb' hlinks
  exact ⟨rfl, rfl, rfl, rfl⟩

/-- The numbers of the nodes at both ends of each edge. -/
def ends (w : Network ν ε) : List (Nat × Nat) :=
  w.links.map (fun l => (l.source.val, l.target.val))

/-- The texts at the ends of the edges are the texts of the nodes with the numbers at the ends. -/
theorem map_texts_links (text : ν → Text) (w : Network ν ε) :
    w.links.map (Link.texts text) =
      w.ends.map (fun p => ((w.nodes.map text).getD p.1 [], (w.nodes.map text).getD p.2 [])) := by
  rw [ends, List.map_map]
  refine List.map_congr_left fun l _ => ?_
  simp [Link.texts]

/-- If the texts of the nodes differ, the numbers can be read off the texts. -/
theorem ends_eq {text : ν → Text} {w : Network ν ε} (h : (w.nodes.map text).Nodup) :
    w.ends = (w.links.map (Link.texts text)).map
      (fun p => ((w.nodes.map text).idxOf p.1, (w.nodes.map text).idxOf p.2)) := by
  have hn : ∀ i : Fin w.nodes.length,
      (w.nodes.map text).idxOf (text (w.nodes.get i)) = i.val := by
    intro i
    have hi : i.val < (w.nodes.map text).length := by simp
    simpa using h.idxOf_getElem i.val hi
  rw [ends, List.map_map]
  refine List.map_congr_left fun l _ => ?_
  simp only [Function.comp_apply, Link.texts, hn]

variable {ν' ε' σ' : Type}

/-- **A drawing keeps the whole network.** Drawing never fails. The graph has the flag of the
network, one node statement for each node in the order of the numbers, with the whole text as its
name, and after them one edge statement for each edge in order, each with the attributes that were
given for it. If the texts of the nodes differ, two drawings with one flag are equal exactly if
their networks have the same texts, edges and attribute lists. -/
theorem network_kept (text : ν → Text) (nodeAttrs : ν → StateM σ Attrs)
    (edgeAttrs : ε → StateM σ Attrs) (w : Network ν ε) (s : σ) (text' : ν' → Text)
    (nodeAttrs' : ν' → StateM σ' Attrs) (edgeAttrs' : ε' → StateM σ' Attrs) (w' : Network ν' ε')
    (s' : σ') :
    ((w.draw text nodeAttrs edgeAttrs).run s).1 = .ok ⟨false, w.directed, none,
      List.zipWith (fun v a => .node ⟨text v, none⟩ [a]) w.nodes (w.nodeLists nodeAttrs s) ++
      List.zipWith (fun l a => .edge ⟨w.directed, .node ⟨text (w.nodes.get l.source), none⟩,
          [.node ⟨text (w.nodes.get l.target), none⟩], [a]⟩) w.links
        (w.linkLists nodeAttrs edgeAttrs s)⟩ ∧
    (w.nodeLists nodeAttrs s).length = w.nodes.length ∧
    (w.linkLists nodeAttrs edgeAttrs s).length = w.links.length ∧
    ((w.nodes.map text).Nodup → (w'.nodes.map text').Nodup → w.directed = w'.directed →
      (((w.draw text nodeAttrs edgeAttrs).run s).1 =
          ((w'.draw text' nodeAttrs' edgeAttrs').run s').1 ↔
        w.nodes.map text = w'.nodes.map text' ∧ w.ends = w'.ends ∧
        w.nodeLists nodeAttrs s = w'.nodeLists nodeAttrs' s' ∧
        w.linkLists nodeAttrs edgeAttrs s = w'.linkLists nodeAttrs' edgeAttrs' s')) := by
  refine ⟨?_, length_answers _ _ _, length_answers _ _ _, fun h h' hd => ?_⟩
  · rw [run_draw, drawing, List.zipWith_map_left, List.zipWith_map_left]
    rfl
  · rw [run_draw, run_draw, hd]
    constructor
    · intro k
      obtain ⟨ht, hu, ha, hb⟩ := drawing_inj (by simp [nodeLists, length_answers])
        (by simp [linkLists, length_answers]) (by simp [nodeLists, length_answers])
        (by simp [linkLists, length_answers]) (Except.ok.inj k)
      refine ⟨ht, ?_, ha, hb⟩
      rw [ends_eq h, ends_eq h', ht, hu]
    · rintro ⟨ht, hu, ha, hb⟩
      rw [map_texts_links, map_texts_links, ht, hu, ha, hb]

/-- Two networks with the same edges in another order, and attributes that count the questions. -/
theorem network_kept_order :
    let count : Text → StateM Nat Attrs := fun t k => (.ofList [(t, .ofInt k)], k + 1)
    let nodes : List Text := ["a:1".toList, "b".toList]
    let w : Network Text Text := ⟨true, nodes, [⟨0, 1, "x".toList⟩, ⟨1, 1, "y".toList⟩]⟩
    let w' : Network Text Text := ⟨true, nodes, [⟨1, 1, "x".toList⟩, ⟨0, 1, "y".toList⟩]⟩
    (w.nodes.map id).Nodup ∧ (w'.nodes.map id).Nodup ∧ w.directed = w'.directed ∧
      (((w.draw id count count).run 0).1 = ((w'.draw id count count).run 0).1 ↔
        w.nodes.map id = w'.nodes.map id ∧ w.ends = w'.ends ∧
        w.nodeLists count 0 = w'.nodeLists count 0 ∧
        w.linkLists count count 0 = w'.linkLists count count 0) ∧
      w.linkLists count count 0 = w'.linkLists count count 0 ∧
      ((w.draw id count count).run 0).1 ≠ ((w'.draw id count count).run 0).1 := by
  intro count nodes w w'
  have hn : (w.nodes.map id).Nodup := by decide
  have hiff := (network_kept id count count w 0 id count count w' 0).2.2.2 hn hn rfl
  refine ⟨hn, hn, rfl, hiff, rfl, fun h => ?_⟩
  exact absurd (hiff.mp h).2.1 (by decide)

/-- **A drawing with attributes that depend on the weights alone.** -/
theorem toGraph_eq (text : ν → Text) (nodeAttrs : ν → Attrs) (edgeAttrs : ε → Attrs)
    (w : Network ν ε) :
    w.toGraph text nodeAttrs edgeAttrs = .ok ⟨false, w.directed, none,
      w.nodes.map (fun v => .node ⟨text v, none⟩ [nodeAttrs v]) ++
      w.links.map (fun l => .edge ⟨w.directed, .node ⟨text (w.nodes.get l.source), none⟩,
        [.node ⟨text (w.nodes.get l.target), none⟩], [edgeAttrs l.weight]⟩)⟩ := by
  have hpure : ∀ {κ : Type} (f : κ → Attrs) (l : List κ),
      answers (fun x => (pure (f x) : StateM Unit Attrs)) l () = (l.map f, ()) := by
    intro κ f l
    induction l with
    | nil => rfl
    | cons x l ih =>
      rw [answers_cons, List.map_cons]
      exact Prod.ext (congrArg (f x :: ·) (congrArg Prod.fst ih)) rfl
  rw [toGraph, run_draw, drawing, nodeLists, linkLists, hpure, hpure, List.zipWith_map,
    List.zipWith_map, List.zipWith_self, List.zipWith_self]
  rfl

end DotGraph.Network
