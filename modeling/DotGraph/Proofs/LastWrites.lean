import DotGraph.Json.Print
import DotGraph.Proofs.OctetOrder
import DotGraph.Proofs.RoundTrip
import DotGraph.Proofs.WholeSources
import Mathlib.Data.Finset.Card

/-!
# Attribute lists as maps

However a list of attributes is written, it is the map of the last values: one write after the
other, all at once, or as the members of a map in a description. So two lists are equal exactly if
the last values are, whatever was written in between and in whichever order, and then nothing that
is made of them differs.

- `Attrs.written_iff`: every way of writing gives the same list.
- `Attrs.get?_ofList`: the value of a key is the one last written.
- `Attrs.written_last_wins`: what is in a list, in which order, and when two lists are equal.
-/

set_option autoImplicit false

namespace DotGraph.Attrs

/-! ## Writing -/

/-- The value last written for a key. -/
def lastWrite? (k : Text) (writes : List (Text × Value)) : Option Value :=
  writes.reverse.lookup k

/-- Members of a map that describe writes, one each, in their order. -/
def Described (l : List Member) (writes : List (Text × Value)) : Prop :=
  List.Forall₂ (fun m w => m.key = w.1 ∧ Value.ofDatum? m.value = some w.2) l writes

/-- The ways of writing an attribute list: by a further write to a list, by all writes at once, and
by a map in a description, whether it has been read as a whole before or is read from its source. -/
inductive Written : List (Text × Value) → Attrs → Prop where
  | empty : Written [] .empty
  | set {w : List (Text × Value)} {a : Attrs} (k : Text) (v : Value) : Written w a →
      Written (w ++ [(k, v)]) (a.set k v)
  | collected (w : List (Text × Value)) : Written w (.ofList w)
  | described {l : List Member} {w : List (Text × Value)} {a : Attrs} : Described l w →
      Attrs.ofDatum (.map l) = .ok a → Written w a
  | streamed {room : Room} {s : Source} {l : List Member} {w : List (Text × Value)} {a : Attrs} :
      s.datum room = .ok (.map l) → Described l w → s.asAttrs room = .ok a → Written w a

theorem ofMembers_described {l : List Member} {w : List (Text × Value)} (h : Described l w)
    (a : Attrs) : ofMembers a l = .ok (a.setAll w) := by
  induction h generalizing a with
  | nil => rfl
  | @cons m p l w hm _ ih =>
    obtain ⟨key, d⟩ := m
    obtain ⟨k, v⟩ := p
    obtain ⟨rfl, hv⟩ := hm
    rw [ofMembers, hv]
    exact ih (a.set key v)

/-- A map whose values can be read is read as the writes it describes. -/
theorem ofDatum_described {l : List Member} {w : List (Text × Value)} (h : Described l w) :
    ofDatum (.map l) = .ok (ofList w) :=
  ofMembers_described h .empty

theorem asAttrs_described {room : Room} {s : Source} {l : List Member} {w : List (Text × Value)}
    (hs : s.datum room = .ok (.map l)) (h : Described l w) : s.asAttrs room = .ok (ofList w) :=
  (Source.asAttrs_iff hs).mpr (ofDatum_described h)

theorem ofList_append_singleton (w : List (Text × Value)) (k : Text) (v : Value) :
    ofList (w ++ [(k, v)]) = (ofList w).set k v := by
  rw [ofList, setAll, List.foldl_append]
  rfl

/-- **Every way of writing gives the same list.** -/
theorem written_iff {w : List (Text × Value)} {a : Attrs} : Written w a ↔ a = ofList w := by
  constructor
  · intro h
    induction h with
    | empty => rfl
    | set k v _ ih => rw [ofList_append_singleton, ih]
    | collected w => rfl
    | described hl ha => exact Except.ok.inj (ha.symm.trans (ofDatum_described hl))
    | streamed hs hl ha => exact Except.ok.inj (ha.symm.trans (asAttrs_described hs hl))
  · rintro rfl
    exact .collected w

/-! ## Reading -/

theorem lastWrite?_cons (k : Text) (p : Text × Value) (w : List (Text × Value)) :
    lastWrite? k (p :: w) = (lastWrite? k w).or (if k = p.1 then some p.2 else none) := by
  obtain ⟨key, v⟩ := p
  rw [lastWrite?, List.reverse_cons, List.lookup_append, List.lookup_cons, List.lookup_nil]
  congr 1
  by_cases h : k = key
  · simp [h]
  · simp [beq_false_of_ne h, h]

theorem lastWrite?_eq_none_iff {k : Text} {w : List (Text × Value)} :
    lastWrite? k w = none ↔ k ∉ w.map Prod.fst := by
  induction w with
  | nil => simp [lastWrite?]
  | cons p w ih =>
    rw [lastWrite?_cons, Option.or_eq_none_iff, ih]
    by_cases h : k = p.1 <;> simp [h]

/-- What is written later hides what was there before. -/
theorem get?_setAll (k : Text) (w : List (Text × Value)) (a : Attrs) :
    (a.setAll w).get? k = (lastWrite? k w).or (a.get? k) := by
  induction w generalizing a with
  | nil => rfl
  | cons p w ih =>
    have rest : (a.setAll (p :: w)).get? k = _ := ih (a.set p.1 p.2)
    rw [rest, get?_set, lastWrite?_cons, Option.or_assoc]
    by_cases h : k = p.1 <;> simp [h]

/-- **The value of a key is the one last written.** -/
theorem get?_ofList (k : Text) (w : List (Text × Value)) : (ofList w).get? k = lastWrite? k w := by
  rw [ofList, get?_setAll]
  exact Option.or_none

theorem ofList_eq_iff {w w' : List (Text × Value)} :
    ofList w = ofList w' ↔ ∀ k, lastWrite? k w = lastWrite? k w' := by
  constructor
  · intro h k
    rw [← get?_ofList, ← get?_ofList, h]
  · intro h
    apply ext_get?
    intro k
    rw [get?_ofList, get?_ofList, h]

/-! ## Keys -/

/-- The keys of a list, in its order. -/
def keys (a : Attrs) : List Text := a.entries.map Prod.fst

theorem mem_keys_iff {a : Attrs} {k : Text} : k ∈ a.keys ↔ a.get? k ≠ none := by
  rw [keys, List.mem_map, Option.ne_none_iff_exists']
  constructor
  · rintro ⟨⟨k, v⟩, h, rfl⟩
    exact ⟨v, mem_entries_iff.mp h⟩
  · rintro ⟨v, h⟩
    exact ⟨(k, v), mem_entries_iff.mpr h, rfl⟩

/-- Entries increase in the octets of their keys. -/
theorem entries_increasing (a : Attrs) :
    a.entries.Pairwise (fun x y => Octets.ofText x.1 < Octets.ofText y.1) :=
  a.increasing.imp Text.cmp_lt_iff.mp

theorem nodup_keys (a : Attrs) : a.keys.Nodup := by
  refine List.pairwise_map.mpr (a.entries_increasing.imp ?_)
  rintro ⟨j, _⟩ ⟨k, _⟩ h rfl
  exact List.lt_irrefl _ h

theorem mem_keys_ofList {w : List (Text × Value)} {k : Text} :
    k ∈ (ofList w).keys ↔ k ∈ w.map Prod.fst := by
  rw [mem_keys_iff, get?_ofList, Ne, lastWrite?_eq_none_iff, not_not]

/-- There are as many entries as distinct keys. -/
theorem size_ofList (w : List (Text × Value)) :
    (ofList w).size = (w.map Prod.fst).toFinset.card := by
  have same : (ofList w).keys.toFinset = (w.map Prod.fst).toFinset := by
    ext k
    rw [List.mem_toFinset, List.mem_toFinset, mem_keys_ofList]
  rw [← same, List.toFinset_card_of_nodup (nodup_keys _), keys, List.length_map, size]

/-! ## Lists as maps -/

/-- **Attribute lists are maps in which the last write wins, in one order.** However a sequence of
writes is made, the list has each written key once and no other key, in the order of the octets of
the keys, and reading a key gives the value last written for it. Two sequences make equal lists
exactly if they end with the same value for every key; then no text of a statement or graph, and no
description of one, tells which of the two lists is in it. -/
theorem written_last_wins {w : List (Text × Value)} {a : Attrs} (h : Written w a) :
    (∀ k, a.keys.count k = if k ∈ w.map Prod.fst then 1 else 0) ∧
    (∀ k, a.get? k = lastWrite? k w) ∧
    a.size = (w.map Prod.fst).toFinset.card ∧
    a.entries.Pairwise (fun x y => Octets.ofText x.1 < Octets.ofText y.1) ∧
    ∀ w' a', Written w' a' →
      (a = a' ↔ ∀ k, lastWrite? k w = lastWrite? k w') ∧
      ((∀ k, lastWrite? k w = lastWrite? k w') →
        (∀ (c : Attrs → Statement) (q : Dot.Quoting) (depth : Nat),
          Dot.statement q depth (c a) = Dot.statement q depth (c a') ∧
          Json.print (c a).toDatum = Json.print (c a').toDatum) ∧
        (∀ (c : Attrs → Graph) (q : Dot.Quoting),
          Dot.render q (c a) = Dot.render q (c a') ∧
          Json.print (c a).toDatum = Json.print (c a').toDatum)) := by
  obtain rfl := written_iff.mp h
  refine ⟨?_, fun k => get?_ofList k w, size_ofList w, entries_increasing _, ?_⟩
  · intro k
    rw [(nodup_keys _).count]
    simp only [mem_keys_ofList]
  · intro w' a' h'
    obtain rfl := written_iff.mp h'
    refine ⟨ofList_eq_iff, ?_⟩
    intro same
    have equal : ofList w = ofList w' := ofList_eq_iff.mpr same
    constructor
    · intro c q depth
      rw [equal]
      exact ⟨rfl, rfl⟩
    · intro c q
      rw [equal]
      exact ⟨rfl, rfl⟩

/-- A key that is written again, once onto all other writes, once as the members of a map. -/
theorem written_last_wins_described :
    let w : List (Text × Value) := [("z".toList, .ofInt 1), ("é".toList, .html "x".toList)]
    let w' : List (Text × Value) := [("z".toList, .ofBool true), ("é".toList, .html "x".toList),
      ("z".toList, .ofInt 2)]
    let l : List Member := [⟨"z".toList, .bool true⟩,
      ⟨"é".toList, .map [⟨"html".toList, .text "x".toList⟩]⟩, ⟨"z".toList, .unsigned 2⟩]
    ∃ a, Attrs.ofDatum (.map l) = .ok a ∧ Written w' a ∧ a = (ofList w).set "z".toList (.ofInt 2) ∧
      a.size = 2 ∧ a.get? "z".toList = some (.ofInt 2) := by
  intro w w' l
  have writes : Described l w' := by
    refine .cons ⟨rfl, rfl⟩ (.cons ⟨rfl, rfl⟩ (.cons ⟨rfl, rfl⟩ .nil))
  have read := ofDatum_described writes
  have described : Written w' (ofList w') := .described writes read
  have set : Written (w ++ [("z".toList, .ofInt 2)]) ((ofList w).set "z".toList (.ofInt 2)) :=
    .set _ _ (.collected w)
  obtain ⟨-, last, size, -, other⟩ := written_last_wins described
  refine ⟨ofList w', read, described, (other _ _ set).1.mpr ?_, size.trans rfl, ?_⟩
  · intro k
    simp only [lastWrite?_cons, w, w', List.cons_append, List.nil_append]
    by_cases hz : k = ['z'] <;> simp [hz]
  · rw [last]
    rfl

end DotGraph.Attrs
