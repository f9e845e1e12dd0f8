import Mathlib.Logic.Relation
import DotGraph.Proofs.Formats
import DotGraph.Proofs.OuterMembers
import DotGraph.Proofs.Shorthand

/-!
# Rewriting descriptions

A description may be rewritten from short forms to long ones and back, at any depth and in any
combination, without a change to the graph that is read from it.

- `Schema.Rewrites.bodyNamed_iff`: rewriting keeps what JSON asks of the statements of a graph.
- `parseJson_rewrites`: texts whose descriptions are rewritten into each other are read alike.
-/

set_option autoImplicit false

namespace DotGraph

/-! ## Members of one key -/

namespace Member

variable {p : Datum → Prop} {k key : Text}

theorem forall_mem_perm {l m : List Member} (h : l.Perm m) :
    (∀ e, ⟨k, e⟩ ∈ l → p e) ↔ ∀ e, ⟨k, e⟩ ∈ m → p e := by
  simp only [h.mem_iff]

theorem forall_mem_cons_of_ne (h : key ≠ k) {d : Datum} {l : List Member} :
    (∀ e, ⟨k, e⟩ ∈ (⟨key, d⟩ :: l : List Member) → p e) ↔ ∀ e, ⟨k, e⟩ ∈ l → p e :=
  forall_mem_cons.trans (and_iff_right (fun e => absurd e h))

/-- Of what holds of all members of a key, nothing changes if it holds of two values alike. -/
theorem forall_mem_exchange {front back : List Member} {v w : Datum} (h : key = k → (p v ↔ p w)) :
    (∀ e, ⟨k, e⟩ ∈ front ++ ⟨key, v⟩ :: back → p e) ↔
      ∀ e, ⟨k, e⟩ ∈ front ++ ⟨key, w⟩ :: back → p e := by
  have split : ∀ x, (∀ e, ⟨k, e⟩ ∈ front ++ ⟨key, x⟩ :: back → p e) ↔
      (∀ e, ⟨k, e⟩ ∈ front → p e) ∧ (key = k → p x) ∧ ∀ e, ⟨k, e⟩ ∈ back → p e := by
    intro x
    rw [← forall_mem_cons]
    simp only [List.mem_append, or_imp, forall_and]
  rw [split, split]
  exact and_congr_right' (and_congr_left' (imp_congr_right h))

end Member

theorem getElem?_exchange {α : Type} {front back : List α} {v w : α} {i : Nat}
    (h : i ≠ front.length) : (front ++ v :: back)[i]? = (front ++ w :: back)[i]? := by
  rcases Nat.lt_or_gt_of_ne h with h | h
  · rw [List.getElem?_append_left h, List.getElem?_append_left h]
  · obtain ⟨j, hj⟩ := Nat.exists_eq_add_of_lt h
    rw [List.getElem?_append_right (Nat.le_of_lt h), List.getElem?_append_right (Nat.le_of_lt h),
      hj, Nat.add_assoc, Nat.add_sub_cancel_left]
    rfl

namespace Schema

/-! ## Kinds by number -/

/-- No statement of the graph itself has its kind by number. -/
def Site.Named : Site → Datum → Prop
  | .graph => Graph.BodyNamed
  | .body => Head.BodyNamed
  | .statement => Source.KindNamed
  | .subgraph | .endpoint | .targets | .lists | .attributes | .value => fun _ => True

/-- The members of a graph or subgraph but its attributes and statements have one form. -/
theorem Abbreviates.forall_mem_iff {outermost : Prop} {l m : List Member}
    (h : Abbreviates outermost l m) {p : Datum → Prop} {k : Text} (ha : "attributes".toList ≠ k)
    (hs : "statements".toList ≠ k) : (∀ e, ⟨k, e⟩ ∈ l → p e) ↔ ∀ e, ⟨k, e⟩ ∈ m → p e := by
  cases h with
  | attributes _ hm => rw [Member.forall_mem_perm hm, Member.forall_mem_cons_of_ne ha]
  | statements _ hm => rw [Member.forall_mem_perm hm, Member.forall_mem_cons_of_ne hs]
  | moved _ _ _ _ _ hl hm =>
    rw [Member.forall_mem_perm hl, Member.forall_mem_perm hm, Member.forall_mem_cons_of_ne ha,
      Member.forall_mem_cons_of_ne hs, Member.forall_mem_cons_of_ne hs]

theorem Abbreviates.bodyNamed_iff {l m : List Member} (h : Abbreviates True l m) :
    Graph.BodyNamed (.map l) ↔ Graph.BodyNamed (.map m) := by
  have other : "attributes".toList ≠ "statements".toList := by decide
  rw [Graph.bodyNamed_map, Graph.bodyNamed_map]
  cases h with
  | attributes _ hm => rw [Member.forall_mem_perm hm, Member.forall_mem_cons_of_ne other]
  | statements _ hm =>
    have nothing : Head.BodyNamed (.list []) := Head.bodyNamed_list.mpr nofun
    rw [Member.forall_mem_perm hm, Member.forall_mem_cons, and_iff_right (fun _ => nothing)]
  | moved _ _ named _ _ hl hm =>
    rw [Member.forall_mem_perm hl, Member.forall_mem_perm hm, Member.forall_mem_cons_of_ne other,
      Member.forall_mem_cons, Member.forall_mem_cons, Head.bodyNamed_list, Head.bodyNamed_list,
      List.forall_mem_cons, and_iff_right (named trivial).kindNamed]

theorem Shorthand.named_iff {s : Site} {d e : Datum} (h : Shorthand s d e) :
    s.Named d ↔ s.Named e := by
  cases h with
  | unsigned | signed | bool | target | attributes | subgraph => exact Iff.rfl
  | strict _ hm | directed _ hm =>
    refine Graph.bodyNamed_map.trans (Iff.trans ?_ Graph.bodyNamed_map.symm)
    rw [Member.forall_mem_perm hm, Member.forall_mem_cons_of_ne (by decide)]
  | graph ha => exact ha.bodyNamed_iff
  | nested _ ha =>
    refine Source.kindNamed_map.trans (Iff.trans ?_ Source.kindNamed_map.symm)
    exact ha.forall_mem_iff (by decide) (by decide)

/-- If a part of a description gives the kinds of statements alike in two forms, so does the
description. -/
theorem Within.named_iff {s t : Site} {p : List Layer} (h : Within s p t) {v w : Datum}
    (hvw : t.Named v ↔ t.Named w) : s.Named (surround p v) ↔ s.Named (surround p w) := by
  induction h with
  | here => exact hvw
  | @graph f s t front back p hs _ ih =>
    refine Graph.bodyNamed_map.trans (Iff.trans ?_ Graph.bodyNamed_map.symm)
    refine Member.forall_mem_exchange (fun hf => ?_)
    cases f with
    | body =>
      cases hs
      exact ih hvw
    | attributes => exact absurd hf (by decide)
    | strict | directed | name => cases hs
  | @graphItem f s t front back p hf hs _ ih =>
    refine Graph.bodyNamed_list.trans (Iff.trans ?_ Graph.bodyNamed_list.symm)
    refine forall_congr' (fun i => imp_congr_right (fun hi => ?_))
    by_cases at_front : i = front.length
    · subst at_front
      obtain rfl := Option.some.inj (hi.symm.trans hf)
      cases hs
      have here : ∀ d : Datum, (front ++ d :: back)[front.length]? = some d := by simp
      change (∀ e, (front ++ surround p v :: back)[front.length]? = some e → _) ↔
        ∀ e, (front ++ surround p w :: back)[front.length]? = some e → _
      have inside : Head.BodyNamed (surround p v) ↔ Head.BodyNamed (surround p w) := ih hvw
      rw [here, here]
      simpa only [Option.some.injEq, forall_eq'] using inside
    · change (∀ e, (front ++ surround p v :: back)[i]? = some e → _) ↔
        ∀ e, (front ++ surround p w :: back)[i]? = some e → _
      rw [getElem?_exchange at_front]
  | @body t front back p _ ih =>
    refine Head.bodyNamed_list.trans (Iff.trans ?_ Head.bodyNamed_list.symm)
    simp only [List.forall_mem_append, List.forall_mem_cons]
    exact and_congr_right' (and_congr_left' (ih hvw))
  | @statement k f s t front back p _ _ _ _ _ =>
    refine Source.kindNamed_map.trans (Iff.trans ?_ Source.kindNamed_map.symm)
    exact Member.forall_mem_exchange (fun hf => absurd hf f.text_ne_kind)
  | statementItem => exact Source.kindNamed_list.trans Source.kindNamed_list.symm
  | subgraph | subgraphItem | endpoint | target | targets | single | lists | attributes =>
    exact Iff.rfl

theorem Rewrites.bodyNamed_iff {d e : Datum} (h : Rewrites d e) :
    Graph.BodyNamed d ↔ Graph.BodyNamed e := by
  cases h with
  | mk hp hs => exact hp.named_iff hs.named_iff

/-- Rewriting parts again and again, in either direction, keeps what is read. -/
theorem rewrites_closure {d e : Datum} (h : Relation.EqvGen Rewrites d e) :
    (Graph.BodyNamed d ↔ Graph.BodyNamed e) ∧ Graph.ofDatum? d = Graph.ofDatum? e := by
  induction h with
  | rel d e h => exact ⟨h.bodyNamed_iff, h.ofDatum?_eq⟩
  | refl d => exact ⟨Iff.rfl, rfl⟩
  | symm d e _ ih => exact ⟨ih.1.symm, ih.2.symm⟩
  | trans d e f _ _ ih ih' => exact ⟨ih.1.trans ih'.1, ih.2.trans ih'.2⟩

end Schema

open Schema

/-! ## Texts -/

/-- **Shorthand means its long form.** What is read as a graph from a JSON text is told by the datum
that the text describes, and that is what the text denotes, as far as it consists of fields of
graphs. If of the data that two texts describe one becomes the other by rewriting parts of it, at
any depth, in either direction and any number of times, then both texts are read as one graph, or
both are refused. -/
theorem parseJson_rewrites :
    (∀ t g, parseJson t = .ok g → ∃ d, Json.Describes t d) ∧
    (∀ t d, Json.Denotes t d → d.depth ≤ 127 → Json.Describes t d.fieldsOnly) ∧
    ∀ t u d e, Json.Describes t d → Json.Describes u e → Relation.EqvGen Rewrites d e →
      ∀ g, parseJson t = .ok g ↔ parseJson u = .ok g := by
  refine ⟨fun _ _ => exists_describes, fun _ _ => Json.Denotes.describes, ?_⟩
  intro t u d e ht hu h g
  obtain ⟨named, read⟩ := rewrites_closure h
  rw [ht.parseJson_iff, hu.parseJson_iff, named, read]

/-- The attributes of a subgraph that is the only target of an edge, one of them a truth value,
become its first statement, and then the target and the attributes of the edge get lists around
them. -/
theorem parseJson_rewrites_target :
    let set : Datum → Datum := fun v => .map [⟨"strict".toList, v⟩]
    let short : Datum → List Member := fun v =>
      [⟨"attributes".toList, set v⟩, ⟨"statements".toList, .list []⟩]
    let default : List Member := [⟨"kind".toList, .text "attr".toList⟩,
      ⟨"component".toList, .text "graph".toList⟩, ⟨"attributes".toList, set (.text "true".toList)⟩]
    let long : List Member := [⟨"statements".toList, .list [.map default]⟩]
    let target : Datum → Datum := fun d => .map [⟨"subgraph".toList, d⟩]
    let document : Datum → Datum → Datum := fun goal lists => .map [⟨"statements".toList, .list
      [.map [⟨"kind".toList, .text "edge".toList⟩, ⟨"from".toList, .text "a".toList⟩,
        ⟨"to".toList, goal⟩, ⟨"attributes".toList, lists⟩]]⟩]
    let d : Datum := document (target (.map (short (.bool true)))) (.map [])
    let e : Datum := document (.list [target (.map long)]) (.list [.map []])
    (Json.Describes (Json.print d) d ∧ Json.Describes (Json.print e) e ∧
      Relation.EqvGen Rewrites d e) ∧
      (∃ g, parseJson (Json.print d) = .ok g) ∧
      ∀ g, parseJson (Json.print d) = .ok g ↔ parseJson (Json.print e) = .ok g := by
  intro set short default long target document d e
  have hd : Json.Describes (Json.print d) d :=
    parseJson_rewrites.2.1 _ _ (Json.denotes_print (by
      simp [d, document, target, short, set, Datum.Plain, Datum.PlainAll, Member.PlainAll]))
      (by decide)
  have he : Json.Describes (Json.print e) e :=
    parseJson_rewrites.2.1 _ _ (Json.denotes_print (by
      simp [e, document, target, long, default, set, Datum.Plain, Datum.PlainAll,
        Member.PlainAll]))
      (by decide)
  have at_edge : ∀ {f : StatementField} {s t : Site} {front back : List Member} {p : List Layer},
      HasKind (front ++ back) .edge → f ∈ Kind.edge.fields → f.site? = some s → Within s p t →
      Within .graph ([.member [] "statements".toList [], .item [] [],
        .member front f.text back] ++ p) t :=
    fun hk hf hs hp => .graph (f := .body) rfl (.body (.statement hk hf hs hp))
  let ends : List Member := [⟨"kind".toList, .text "edge".toList⟩,
    ⟨"from".toList, .text "a".toList⟩]
  have kind : ∀ back, HasKind (ends ++ back) .edge := fun _ => ⟨_, List.mem_cons_self .., rfl⟩
  have at_target := @at_edge .targets .targets
  have value : Rewrites d (document (target (.map (short (.text "true".toList)))) (.map [])) := by
    let p : List Layer := [.member [] "subgraph".toList [], .member [] "attributes".toList
      [⟨"statements".toList, .list []⟩], .member [] "strict".toList []]
    have hp : Within .targets p .value :=
      .target (.endpoint (.subgraph (f := .attributes) (by decide) rfl (.attributes .here)))
    exact .mk (at_target (kind _) (by decide) rfl hp) (.bool (b := true))
  have moved : Rewrites (document (target (.map (short (.text "true".toList)))) (.map []))
      (document (target (.map long)) (.map [])) := by
    have hp : Within .targets [.member [] "subgraph".toList []] .subgraph :=
      .target (.endpoint .here)
    have hs : GraphAttributes [⟨"strict".toList, .text "true".toList⟩] default :=
      .mk (r := []) rfl rfl nofun nofun nofun (.refl _)
    exact .mk (at_target (kind _) (by decide) rfl hp) (.subgraph
      (.moved (r := []) (List.cons_ne_nil _ _) hs nofun nofun nofun (.refl _) (.refl _)))
  have goal : Rewrites (document (target (.map long)) (.map []))
      (document (.list [target (.map long)]) (.map [])) :=
    .mk (at_target (kind _) (by decide) rfl .here) (.target nofun)
  have single : Rewrites (document (.list [target (.map long)]) (.map [])) e := by
    have hk : HasKind ((ends ++ [⟨"to".toList, .list [target (.map long)]⟩]) ++ []) .edge :=
      ⟨_, List.mem_cons_self .., rfl⟩
    exact .mk (at_edge (f := .lists) hk (by decide) rfl .here) .attributes
  have h : Relation.EqvGen Rewrites d e :=
    .trans _ _ _ (.rel _ _ value) (.trans _ _ _ (.rel _ _ moved)
      (.trans _ _ _ (.rel _ _ goal) (.rel _ _ single)))
  have taken : (parseJson (Json.print d)).toOption.isSome := by decide +kernel
  exact ⟨⟨hd, he, h⟩, toOption_isSome_iff.mp taken, parseJson_rewrites.2.2 _ _ _ _ hd he h⟩

end DotGraph
