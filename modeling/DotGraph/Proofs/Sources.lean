import DotGraph.Proofs.JsonText
import DotGraph.Proofs.WholeSources

/-!
# Reading the source of a datum

The source of a datum is read as that datum if there is room for the lists and maps in it, and not
at all otherwise. Statements are read as what their data describe, under the same condition.

- `Source.datum_source`: when the source of a datum is read, and as what.
- `Source.asStatements_source`: the same for statements.
-/

set_option autoImplicit false

namespace DotGraph

namespace Source

mutual

/-- **The source of a datum is read as that datum, if there is room for it.** -/
theorem datum_source : ∀ (d : Datum) (n : Nat),
    datum (some n) d.source = if d.depth ≤ n then .ok d else .error .malformed
  | .null, n | .bool _, n | .unsigned _, n | .signed _, n | .float _, n | .text _, n => by
    rw [Datum.depth, if_pos (Nat.zero_le n)]
    rfl
  | .list l, 0 => by
    rw [Datum.depth, if_neg (Nat.not_succ_le_zero _)]
    rfl
  | .list l, n + 1 => by
    rw [Datum.source, datum, Datum.depth]
    simp only [Room.enter, itemData_sources l n, Nat.succ_le_succ_iff]
    by_cases h : Datum.depthAll l ≤ n
    · simp only [if_pos h]
      rfl
    · simp only [if_neg h]
  | .map l, 0 => by
    rw [Datum.depth, if_neg (Nat.not_succ_le_zero _)]
    rfl
  | .map l, n + 1 => by
    rw [Datum.source, datum, Datum.depth]
    simp only [Room.enter, entryData_entries l n, Nat.succ_le_succ_iff]
    by_cases h : Member.depthAll l ≤ n
    · simp only [if_pos h]
      rfl
    · simp only [if_neg h]

theorem itemData_sources : ∀ (l : List Datum) (n : Nat),
    itemData (some n) (Datum.sources l) =
      if Datum.depthAll l ≤ n then .ok l else .error .malformed
  | [], n => by
    rw [Datum.depthAll, if_pos (Nat.zero_le n)]
    rfl
  | d :: r, n => by
    rw [Datum.sources, itemData]
    simp only [datum_source d n, itemData_sources r n, Datum.depthAll, Nat.max_le]
    by_cases hd : d.depth ≤ n
    · by_cases hr : Datum.depthAll r ≤ n <;> simp [hd, hr]
    · simp [hd]

theorem entryData_entries : ∀ (l : List Member) (n : Nat),
    entryData (some n) (Member.entries l) =
      if Member.depthAll l ≤ n then .ok l else .error .malformed
  | [], n => by
    rw [Member.depthAll, if_pos (Nat.zero_le n)]
    rfl
  | ⟨k, d⟩ :: r, n => by
    rw [Member.entries, entryData]
    simp only [datum_source d n, entryData_entries r n, Member.depthAll, Nat.max_le]
    by_cases hd : d.depth ≤ n
    · by_cases hr : Member.depthAll r ≤ n <;> simp [hd, hr]
    · simp [hd]

end

theorem datum_source_eq_ok_iff {d e : Datum} {n : Nat} :
    d.source.datum (some n) = .ok e ↔ d.depth ≤ n ∧ d = e := by
  rw [datum_source]
  by_cases h : d.depth ≤ n <;> simp [h]

/-- **Statements are read as what their data describe, if there is room for them.** -/
theorem asStatements_source {n : Nat} {l : List Datum} {b : List Statement}
    (h : ∀ d ∈ l, KindNamed d) :
    asStatements .json (some n) (Datum.list l).source = .ok b ↔
      (Datum.list l).depth ≤ n ∧ Statement.ofData l = .ok b := by
  constructor
  · intro hb
    obtain ⟨d, hd⟩ := datum_of_asStatements .json hb
    obtain ⟨room, rfl⟩ := datum_source_eq_ok_iff.mp hd
    exact ⟨room, ((asStatements_iff .json hd).mp hb).2⟩
  · rintro ⟨room, hb⟩
    have hd := datum_source_eq_ok_iff.mpr ⟨room, rfl⟩
    exact (asStatements_iff .json hd).mpr ⟨fun _ => Head.bodyNamed_list.mpr h, hb⟩

end Source

theorem Datum.Plain.notNumbered {d : Datum} (h : d.Plain) : Source.NotNumbered d := by
  cases d with
  | unsigned n => exact h
  | null | bool b | signed n | float x | text t | list l | map l => trivial

theorem Datum.PlainAll.of_mem : ∀ {l : List Datum}, Datum.PlainAll l → ∀ d ∈ l, d.Plain
  | e :: r, h, d, hd => by
    rw [Datum.PlainAll] at h
    rcases List.mem_cons.mp hd with rfl | hd
    · exact h.1
    · exact PlainAll.of_mem h.2 d hd

theorem Member.PlainAll.of_mem : ∀ {l : List Member}, Member.PlainAll l → ∀ m ∈ l, m.value.Plain
  | ⟨k, e⟩ :: r, h, m, hm => by
    rw [Member.PlainAll] at h
    rcases List.mem_cons.mp hm with rfl | hm
    · exact h.1
    · exact PlainAll.of_mem h.2 m hm

/-- Without numbers no kind is given by one. -/
theorem Datum.Plain.kindNamed {d : Datum} (h : d.Plain) : Source.KindNamed d where
  map := by
    rintro l rfl e he
    rw [Datum.Plain] at h
    exact (Member.PlainAll.of_mem h _ he).notNumbered
  list := by
    rintro e l rfl
    rw [Datum.Plain, Datum.PlainAll] at h
    exact h.1.notNumbered

end DotGraph
