import DotGraph.NodeId

/-!
# Well-formed node ids

An id is well formed if its name and the segments of its port are neither empty nor hold a colon.

- `NodeId.parse_eq_ok_iff`: reading a text gives exactly the well-formed id that joins to it.
-/

set_option autoImplicit false

namespace DotGraph

/-- No piece between separators holds one. -/
theorem not_mem_of_mem_splitOn {α : Type} [DecidableEq α] {sep : α} :
    ∀ {l p : List α}, p ∈ l.splitOn sep → sep ∉ p
  | [], p, h => by
    rw [List.splitOn_nil, List.mem_singleton] at h
    simp [h]
  | c :: r, p, h => by
    have ih : ∀ {p : List α}, p ∈ r.splitOn sep → sep ∉ p := not_mem_of_mem_splitOn
    rw [List.splitOn_cons_eq_if_modifyHead] at h
    split at h
    · rcases List.mem_cons.mp h with rfl | h
      · simp
      · exact ih h
    · rename_i hc
      cases hs : r.splitOn sep with
      | nil => exact absurd hs (List.splitOn_ne_nil sep r)
      | cons q qs =>
        rw [hs, List.modifyHead_cons] at h
        rcases List.mem_cons.mp h with rfl | h
        · have hq : sep ∉ q := ih (by simp [hs])
          have hne : sep ≠ c := fun e => hc (by simp [e])
          simp [hq, hne]
        · exact ih (by simp [hs, h])

namespace NodeId

/-- A text that can stand between the colons of an id. -/
def IsSegment (s : Text) : Prop := s ≠ [] ∧ ':' ∉ s

/-- A port made of one or more segments. -/
def IsPort (p : Text) : Prop :=
  ∃ segments : List Text, segments ≠ [] ∧ (∀ s ∈ segments, IsSegment s) ∧ p = portOf segments

/-- An id whose name and port segments are neither empty nor hold a colon. -/
structure WellFormed (id : NodeId) : Prop where
  name : IsSegment id.name
  port : ∀ p, id.port = some p → IsPort p

theorem split_portOf : ∀ {segments : List Text} {name : Text}, ':' ∉ name →
    (∀ s ∈ segments, IsSegment s) → List.splitOn ':' (name ++ portOf segments) = name :: segments
  | [], name, hn, _ => by rw [portOf, List.append_nil, List.splitOn_eq_singleton hn]
  | s :: r, name, hn, h => by
    rw [portOf, List.cons_append, List.splitOn_append_cons_self_of_not_mem hn,
      split_portOf (h s (List.mem_cons_self ..)).2 (fun t ht => h t (List.mem_cons_of_mem _ ht))]

/-- Whatever is read is well formed. -/
theorem wellFormed_of_parse {s : Text} {id : NodeId} (h : parse s = .ok id) : id.WellFormed := by
  have hm : ∀ p ∈ List.splitOn ':' s, ':' ∉ p := fun p => not_mem_of_mem_splitOn
  simp only [parse] at h
  split at h
  · cases h
  · rename_i name segments heq
    rw [heq] at hm
    split at h
    · cases h
    · rename_i hname
      split at h
      · cases h
      · rename_i hany
        cases h
        refine ⟨⟨by simpa using hname, hm name (List.mem_cons_self ..)⟩, ?_⟩
        intro p hp
        cases segments with
        | nil => cases hp
        | cons t r =>
          cases hp
          refine ⟨t :: r, by simp, ?_, rfl⟩
          intro x hx
          refine ⟨fun e => hany ?_, hm x (List.mem_cons_of_mem _ hx)⟩
          exact List.any_eq_true.mpr ⟨x, hx, by simp [e]⟩

/-- Reading gives a well-formed id back from its joined text. -/
theorem parse_joined {id : NodeId} (h : id.WellFormed) : parse id.joined = .ok id := by
  obtain ⟨name, port⟩ := id
  obtain ⟨⟨hn, hc⟩, hp⟩ := h
  cases port with
  | none =>
    simp only [joined, parse, List.splitOn_eq_singleton hc]
    simp only at hn
    simp [hn]
  | some p =>
    obtain ⟨segments, hne, hseg, rfl⟩ := hp p rfl
    have hany : ¬ segments.any List.isEmpty = true := by
      rw [List.any_eq_true]
      rintro ⟨s, hs, he⟩
      exact (hseg s hs).1 (by simpa using he)
    simp only [joined, parse, split_portOf hc hseg]
    simp only at hn
    simp [hn, hany, hne]

/-- **Reading a text gives exactly the well-formed id that joins to it.** -/
theorem parse_eq_ok_iff {s : Text} {id : NodeId} :
    parse s = .ok id ↔ id.WellFormed ∧ id.joined = s := by
  constructor
  · exact fun h => ⟨wellFormed_of_parse h, joined_of_parse h⟩
  · rintro ⟨h, rfl⟩
    exact parse_joined h

end NodeId

end DotGraph
