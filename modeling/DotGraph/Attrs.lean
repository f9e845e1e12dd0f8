import DotGraph.Value

/-!
# Attribute lists

An attribute list holds each key once, in the order of the code points of the keys. Setting a key
that is present replaces its value.

- `Attrs.get?_set`: reading after writing gives the written value for that key and the old one for
  every other key.
- `Attrs.ext_get?`: lists with the same value for every key are equal.
-/

set_option autoImplicit false

namespace DotGraph

/-- An attribute list: pairs of a key and a value, strictly increasing in their keys. -/
structure Attrs where
  entries : List (Text × Value)
  increasing : entries.Pairwise (fun a b => Text.cmp a.1 b.1 = .lt)
  deriving DecidableEq

namespace Attrs

/-- The list without entries. -/
def empty : Attrs := ⟨[], .nil⟩

instance : Inhabited Attrs := ⟨empty⟩

/-- The number of keys. -/
def size (a : Attrs) : Nat := a.entries.length

/-- Whether a list has no entries. -/
def isEmpty (a : Attrs) : Bool := a.entries.isEmpty

/-! ## Writing -/

/-- Puts a pair into a list that is ordered by keys, in place of the pair with the same key. -/
def insertEntry (k : Text) (v : Value) : List (Text × Value) → List (Text × Value)
  | [] => [(k, v)]
  | (k', v') :: r => match Text.cmp k k' with
    | .lt => (k, v) :: (k', v') :: r
    | .eq => (k, v) :: r
    | .gt => (k', v') :: insertEntry k v r

theorem mem_insertEntry {k : Text} {v : Value} {l : List (Text × Value)} {x : Text × Value}
    (h : x ∈ insertEntry k v l) : x = (k, v) ∨ x ∈ l := by
  induction l with
  | nil => simpa [insertEntry] using h
  | cons p r ih =>
    obtain ⟨k', v'⟩ := p
    simp only [insertEntry] at h
    split at h
    · simpa using h
    · simp only [List.mem_cons] at h ⊢
      rcases h with h | h
      · exact .inl h
      · exact .inr (.inr h)
    · simp only [List.mem_cons] at h ⊢
      rcases h with h | h
      · exact .inr (.inl h)
      · rcases ih h with h | h
        · exact .inl h
        · exact .inr (.inr h)

theorem insertEntry_increasing (k : Text) (v : Value) {l : List (Text × Value)}
    (h : l.Pairwise (fun a b => Text.cmp a.1 b.1 = .lt)) :
    (insertEntry k v l).Pairwise (fun a b => Text.cmp a.1 b.1 = .lt) := by
  induction l with
  | nil => simp [insertEntry]
  | cons p r ih =>
    obtain ⟨k', v'⟩ := p
    rw [List.pairwise_cons] at h
    obtain ⟨hp, hr⟩ := h
    simp only [insertEntry]
    split
    · rename_i hlt
      refine List.pairwise_cons.mpr ⟨fun x hx => ?_, List.pairwise_cons.mpr ⟨hp, hr⟩⟩
      rcases List.mem_cons.mp hx with rfl | hx
      · exact hlt
      · exact Text.cmp_lt_trans hlt (hp x hx)
    · rename_i heq
      rw [Text.eq_of_cmp_eq heq]
      exact List.pairwise_cons.mpr ⟨hp, hr⟩
    · rename_i hgt
      refine List.pairwise_cons.mpr ⟨fun x hx => ?_, ih hr⟩
      rcases mem_insertEntry hx with rfl | hx
      · exact Text.cmp_gt_iff.mp hgt
      · exact hp x hx

/-- The list with a key set to a value. -/
def set (a : Attrs) (k : Text) (v : Value) : Attrs :=
  ⟨insertEntry k v a.entries, insertEntry_increasing k v a.increasing⟩

/-- The list after a sequence of writes. -/
def setAll (a : Attrs) (writes : List (Text × Value)) : Attrs :=
  writes.foldl (fun a w => a.set w.1 w.2) a

/-- The list that a sequence of writes makes of the empty one. -/
def ofList (writes : List (Text × Value)) : Attrs :=
  empty.setAll writes

/-! ## Reading -/

/-- The value of a key. -/
def get? (a : Attrs) (k : Text) : Option Value :=
  a.entries.lookup k

theorem lookup_cons_eq_if {β : Type} (j k : Text) (v : β) (l : List (Text × β)) :
    List.lookup j ((k, v) :: l) = if j = k then some v else l.lookup j := by
  by_cases h : j = k
  · simp [h]
  · rw [if_neg h, List.lookup_cons, beq_eq_false_iff_ne.mpr h]

theorem lookup_insertEntry (k j : Text) (v : Value) (l : List (Text × Value)) :
    (insertEntry k v l).lookup j = if j = k then some v else l.lookup j := by
  induction l with
  | nil => rw [insertEntry, lookup_cons_eq_if]
  | cons p r ih =>
    obtain ⟨k', v'⟩ := p
    simp only [insertEntry]
    split
    · rw [lookup_cons_eq_if]
    · rename_i heq
      rw [← Text.eq_of_cmp_eq heq, lookup_cons_eq_if, lookup_cons_eq_if]
      split <;> rfl
    · rename_i hgt
      have hne : k ≠ k' := fun h => by simp [h] at hgt
      rw [lookup_cons_eq_if, lookup_cons_eq_if, ih]
      by_cases hj : j = k'
      · subst hj
        simp [Ne.symm hne]
      · simp [hj]

/-- Reading after writing. -/
@[simp]
theorem get?_set (a : Attrs) (k j : Text) (v : Value) :
    (a.set k v).get? j = if j = k then some v else a.get? j :=
  lookup_insertEntry k j v a.entries

theorem lookup_eq_some_iff {k : Text} {v : Value} {l : List (Text × Value)}
    (h : l.Pairwise (fun a b => Text.cmp a.1 b.1 = .lt)) : l.lookup k = some v ↔ (k, v) ∈ l := by
  induction l with
  | nil => simp
  | cons p r ih =>
    obtain ⟨k', v'⟩ := p
    rw [List.pairwise_cons] at h
    obtain ⟨hp, hr⟩ := h
    rw [lookup_cons_eq_if, List.mem_cons, Prod.mk.injEq]
    by_cases hk : k = k'
    · subst hk
      simp only [if_true, Option.some.injEq, true_and]
      refine ⟨fun h => .inl h.symm, fun h => ?_⟩
      rcases h with h | h
      · exact h.symm
      · have := hp _ h
        simp at this
    · simp [hk, ih hr]

theorem mem_entries_iff {a : Attrs} {k : Text} {v : Value} :
    (k, v) ∈ a.entries ↔ a.get? k = some v :=
  (lookup_eq_some_iff a.increasing).symm

theorem entries_eq_of_mem_iff {l m : List (Text × Value)}
    (hl : l.Pairwise (fun a b => Text.cmp a.1 b.1 = .lt))
    (hm : m.Pairwise (fun a b => Text.cmp a.1 b.1 = .lt)) (h : ∀ x, x ∈ l ↔ x ∈ m) : l = m := by
  induction l generalizing m with
  | nil =>
    cases m with
    | nil => rfl
    | cons q s => exact absurd ((h q).mpr (List.mem_cons_self ..)) (by simp)
  | cons p r ih =>
    cases m with
    | nil => exact absurd ((h p).mp (List.mem_cons_self ..)) (by simp)
    | cons q s =>
      rw [List.pairwise_cons] at hl hm
      have irrefl : ∀ t : Text, Text.cmp t t ≠ .lt := fun t => by simp
      have hpq : p = q := by
        rcases List.mem_cons.mp ((h p).mp (List.mem_cons_self ..)) with e | e
        · exact e
        · rcases List.mem_cons.mp ((h q).mpr (List.mem_cons_self ..)) with f | f
          · exact f.symm
          · exact absurd (Text.cmp_lt_trans (hm.1 p e) (hl.1 q f)) (irrefl _)
      subst hpq
      rw [ih hl.2 hm.2]
      intro x
      constructor
      · intro hx
        rcases List.mem_cons.mp ((h x).mp (List.mem_cons_of_mem _ hx)) with e | e
        · exact absurd (e ▸ hl.1 x hx) (irrefl _)
        · exact e
      · intro hx
        rcases List.mem_cons.mp ((h x).mpr (List.mem_cons_of_mem _ hx)) with e | e
        · exact absurd (e ▸ hm.1 x hx) (irrefl _)
        · exact e

theorem ext_entries {a b : Attrs} (h : a.entries = b.entries) : a = b := by
  cases a
  cases b
  cases h
  rfl

/-- Two lists that agree on every key are equal. -/
theorem ext_get? {a b : Attrs} (h : ∀ k, a.get? k = b.get? k) : a = b := by
  apply ext_entries
  apply entries_eq_of_mem_iff a.increasing b.increasing
  rintro ⟨k, v⟩
  rw [mem_entries_iff, mem_entries_iff, h]

/-- Writes of different keys can be made in either order. -/
theorem set_comm (a : Attrs) {j k : Text} (h : j ≠ k) (v w : Value) :
    (a.set j v).set k w = (a.set k w).set j v := by
  refine ext_get? (fun i => ?_)
  simp only [get?_set]
  by_cases hj : i = j
  · subst hj
    simp [h]
  · simp [hj]

theorem isEmpty_set (a : Attrs) (k : Text) (v : Value) : (a.set k v).isEmpty = false := by
  have mem : (k, v) ∈ (a.set k v).entries := by
    rw [mem_entries_iff, get?_set, if_pos rfl]
  rw [isEmpty, List.isEmpty_eq_false_iff]
  exact List.ne_nil_of_mem mem

end Attrs

end DotGraph
