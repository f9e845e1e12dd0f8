import DotGraph.Path
import DotGraph.Proofs.NodeIds

/-!
# Names at the end of paths

The parts of a path are those of its pieces that count, after what its start stands for. A name put
inside a directory is one more part, so that the path of it ends in this name and its parent has the
parts of the directory. This holds in every alphabet.

- `Path.parts_join_pieces`, `Path.parts_join`: the parts of what is put inside a directory, and of a
  name in particular.
- `Path.stemAndExtension_append`: a stem, a dot and an extension are taken apart again.
-/

set_option autoImplicit false

namespace DotGraph

/-- A text in front without a separator belongs to the first piece. -/
theorem splitOn_append_of_not_mem {α : Type} [DecidableEq α] {sep : α} {t q : List α}
    {l : List (List α)} (ht : t.splitOn sep = q :: l) :
    ∀ {s : List α}, sep ∉ s → (s ++ t).splitOn sep = (s ++ q) :: l
  | [], _ => ht
  | c :: r, h => by
    have hc : ¬ (c == sep) = true := fun e => h (by simp [eq_of_beq e])
    have hr : sep ∉ r := fun k => h (List.mem_cons_of_mem _ k)
    rw [List.cons_append, List.splitOn_cons_eq_if_modifyHead, if_neg hc,
      splitOn_append_of_not_mem ht hr]
    rfl

namespace Path

open Alphabet

variable {α : Type} [DecidableEq α] [Alphabet α]

/-! ## Parts -/

/-- A name of a file: a piece that is neither empty nor one or two dots. -/
structure IsName (n : List α) : Prop where
  piece : Part.ofPiece? n = some (.name n)
  slash : slash ∉ n

theorem ofPiece?_eq_some_iff {q n : List α} :
    Part.ofPiece? q = some (.name n) ↔ q = n ∧ n ≠ [] ∧ n ≠ [dot] ∧ n ≠ [dot, dot] := by
  unfold Part.ofPiece?
  split
  · rename_i h
    refine iff_of_false nofun ?_
    rintro ⟨rfl, h0, h1, -⟩
    exact h.elim h0 h1
  · rename_i h
    obtain ⟨h0, h1⟩ := not_or.mp h
    split
    · rename_i h2
      exact iff_of_false nofun (fun k => k.2.2.2 (k.1 ▸ h2))
    · rename_i h2
      simp only [Option.some.injEq, Part.name.injEq]
      constructor
      · rintro rfl
        exact ⟨rfl, h0, h1, h2⟩
      · exact fun h => h.1

theorem piece_of_ofPiece? {s : List α} {a : Part α} (h : Part.ofPiece? s = some a) :
    a.piece = s ∧ s ≠ [] ∧ s ≠ [dot] := by
  unfold Part.ofPiece? at h
  split at h
  · cases h
  · rename_i hs
    refine ⟨?_, not_or.mp hs⟩
    split at h <;> cases h
    · rename_i hup
      exact hup.symm
    · rfl

theorem IsName.ne_nil {n : List α} (h : IsName n) : n ≠ [] :=
  (ofPiece?_eq_some_iff.mp h.piece).2.1

/-- What the start stands for does not hang on what comes after the first of several pieces. -/
theorem lead_append_eq {l : List (List α)} (h : l ≠ []) {m k : List (List α)} (hm : m ≠ [])
    (hk : k ≠ []) : lead (l ++ m) = lead (l ++ k) := by
  cases l with
  | nil => exact absurd rfl h
  | cons p r => simp [lead, hm, hk]

theorem lead_append {l : List (List α)} (h : l ≠ []) (h' : l ≠ [[]]) (m : List (List α)) :
    lead (l ++ m) = lead l := by
  cases l with
  | nil => exact absurd rfl h
  | cons p r =>
    have hr : p = [] → r ≠ [] := by
      rintro rfl rfl
      exact h' rfl
    by_cases hp : p = []
    · simp [lead, hp, hr hp]
    · simp [lead, hp]

/-- **What is put inside a directory adds its pieces**, if its first one is a part of its own. -/
theorem parts_join_pieces (directory : List α) {n q : List α} {l : List (List α)}
    (hn : n.splitOn slash = q :: l) (hq : q ≠ []) (hdot : q ≠ [dot]) :
    parts (join directory n) = parts directory ++ (n.splitOn slash).filterMap Part.ofPiece? := by
  have relative : n.head? ≠ some slash := by
    intro h
    obtain ⟨r, rfl⟩ := List.head?_eq_some_iff.mp h
    rw [List.splitOn_cons_eq_if_modifyHead, if_pos (beq_self_eq_true _)] at hn
    exact hq (List.cons.inj hn).1.symm
  have lead : Path.lead (n.splitOn slash) = [] := by simp [hn, Path.lead, hq, hdot]
  have split_ne : ∀ s : List α, s.splitOn slash ≠ [] := List.splitOn_ne_nil slash
  by_cases hd : directory = []
  · rw [join, if_pos (.inr hd), hd, parts, lead]
    rfl
  · rw [join, if_neg (not_or.mpr ⟨relative, hd⟩)]
    split
    · rename_i hlast
      obtain ⟨d, rfl⟩ := List.getLast?_eq_some_iff.mp hlast
      have hsplit : (d ++ [slash]).splitOn slash = d.splitOn slash ++ [[]] :=
        List.splitOn_append_cons_self d []
      have hjoin : (d ++ [slash] ++ n).splitOn slash = d.splitOn slash ++ n.splitOn slash := by
        rw [List.append_assoc, List.singleton_append, List.splitOn_append_cons_self]
      rw [parts, parts, hjoin, hsplit, List.filterMap_append, List.filterMap_append,
        lead_append_eq (split_ne d) (split_ne n) (List.cons_ne_nil [] [])]
      simp [Part.ofPiece?]
    · have whole : directory.splitOn slash ≠ [[]] := by
        intro e
        have joined : List.intercalate [slash] (directory.splitOn slash) = directory :=
          List.intercalate_splitOn slash
        rw [e] at joined
        exact hd joined.symm
      rw [parts, parts, List.splitOn_append_cons_self, List.filterMap_append,
        lead_append (split_ne directory) whole, List.append_assoc]

/-- **A name inside a directory is one more part.** -/
theorem parts_join (directory : List α) {n : List α} (h : IsName n) :
    parts (join directory n) = parts directory ++ [.name n] := by
  have single : n.splitOn slash = [n] := List.splitOn_eq_singleton h.slash
  obtain ⟨-, h0, h1, -⟩ := ofPiece?_eq_some_iff.mp h.piece
  rw [parts_join_pieces directory single h0 h1, single]
  simp [h.piece]

theorem fileName?_join (directory : List α) {n : List α} (h : IsName n) :
    fileName? (join directory n) = some n := by
  rw [fileName?, parts_join directory h, List.getLast?_append]
  rfl

theorem parent_join (directory : List α) {n : List α} (h : IsName n) :
    parent (join directory n) = ofParts (parts directory) := by
  rw [parent, parts_join directory h, List.dropLast_concat]

theorem lead_cases (l : List (List α)) :
    lead l = [] ∨ lead l = [.root] ∨ lead l = [.here] := by
  cases l with
  | nil => exact .inl rfl
  | cons p r =>
    rw [lead]
    split
    · exact .inr (.inl rfl)
    · split
      · exact .inr (.inr rfl)
      · exact .inl rfl

theorem name_not_mem_lead (l : List (List α)) (n : List α) : Part.name n ∉ lead l := by
  rcases lead_cases l with h | h | h <;> simp [h]

theorem isName_of_fileName? {p n : List α} (h : fileName? p = some n) : IsName n := by
  unfold fileName? at h
  split at h
  · rename_i hm
    cases h
    have mem := List.mem_of_getLast? hm
    rw [parts, List.mem_append, List.mem_filterMap] at mem
    rcases mem with mem | ⟨q, hq, hn⟩
    · exact absurd mem (name_not_mem_lead _ _)
    · have piece := (ofPiece?_eq_some_iff.mp hn).1
      subst piece
      exact ⟨hn, not_mem_of_mem_splitOn hq⟩
  · cases h

/-! ## Stems and extensions -/

theorem cutAtLastDot_eq_none_iff {s : List α} : cutAtLastDot s = none ↔ dot ∉ s := by
  induction s with
  | nil => exact iff_of_true rfl List.not_mem_nil
  | cons c r ih =>
    rw [cutAtLastDot, List.mem_cons, not_or, ← ih]
    cases h : cutAtLastDot r with
    | some p => simp
    | none =>
      by_cases hc : c = dot
      · simp [hc]
      · simp [hc, Ne.symm hc]

theorem cutAtLastDot_append {e : List α} (h : dot ∉ e) : ∀ s : List α,
    cutAtLastDot (s ++ dot :: e) = some (s, e)
  | [] => by
    rw [List.nil_append, cutAtLastDot, cutAtLastDot_eq_none_iff.mpr h]
    exact if_pos rfl
  | c :: r => by
    rw [List.cons_append, cutAtLastDot, cutAtLastDot_append h r]

/-- What is cut is cut at a dot, with none after it. -/
theorem eq_append_of_cutAtLastDot : ∀ {s t e : List α}, cutAtLastDot s = some (t, e) →
    s = t ++ dot :: e ∧ dot ∉ e
  | [], _, _, h => by cases h
  | c :: r, t, e, h => by
    rw [cutAtLastDot] at h
    split at h
    · rename_i t' e' hr
      cases h
      obtain ⟨rfl, he⟩ := eq_append_of_cutAtLastDot hr
      exact ⟨rfl, he⟩
    · rename_i hr
      split at h
      · rename_i hc
        cases h
        exact ⟨by rw [hc, List.nil_append], cutAtLastDot_eq_none_iff.mp hr⟩
      · cases h

/-- A stem, a dot and an extension are taken apart again. -/
theorem stemAndExtension_append {s e : List α} (hs : s ≠ []) (he : dot ∉ e) :
    stemAndExtension (s ++ dot :: e) = (s, some e) := by
  obtain ⟨c, r, rfl⟩ := List.exists_cons_of_ne_nil hs
  rw [stemAndExtension, cutAtLastDot_append he]

theorem stem_ne_nil {n : List α} (h : n ≠ []) : (stemAndExtension n).1 ≠ [] := by
  unfold stemAndExtension
  split
  · simp
  · exact h

theorem not_mem_stem {c : α} {n : List α} (h : c ∉ n) : c ∉ (stemAndExtension n).1 := by
  unfold stemAndExtension
  split
  · rename_i a r e hc
    rw [(eq_append_of_cutAtLastDot hc).1] at h
    exact fun k => h (List.mem_append_left _ k)
  · exact h

end Path

end DotGraph
