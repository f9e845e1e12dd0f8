import DotGraph.Proofs.Lexing

/-!
# The forms of node ids

An id can be read from a text, or be made from a name and a port or from a name, a compartment and a
point of the compass. Texts that are read are those whose pieces between colons all hold something;
the ids that come back from their texts are the well-formed ones; and what is made from the same
pieces is the same, whichever way it is made.

- `Text.pieces_ne_nil_iff`: when all pieces between separators hold something.
- `NodeId.parse_intercalate`: reading a name and the segments of a port.
- `NodeId.parse_inverse`: reading and joining are inverse to each other on the well-formed ids, and
  the ways of making an id agree.
-/

set_option autoImplicit false

namespace DotGraph

namespace Text

/-- The first piece holds something exactly if the text does and does not start with a separator. -/
theorem pieces_ne_nil_cons_iff (sep : Char) (s : Text) : (∀ p ∈ s.splitOn sep, p ≠ []) ↔
    s ≠ [] ∧ s.head? ≠ some sep ∧ ∀ p ∈ (s.splitOn sep).tail, p ≠ [] := by
  cases s with
  | nil => simp [List.splitOn_nil]
  | cons c r =>
    rw [List.splitOn_cons_eq_if_modifyHead]
    by_cases hc : c = sep
    · simp [hc]
    · cases r.splitOn sep <;> simp [hc]

/-- All pieces but the first hold something exactly if the text does not end in a separator and has
no two of them in a row. -/
theorem later_pieces_ne_nil_iff (sep : Char) (s : Text) : (∀ p ∈ (s.splitOn sep).tail, p ≠ []) ↔
    s.getLast? ≠ some sep ∧ ¬ [sep, sep] <:+: s := by
  induction s with
  | nil => simp [List.splitOn_nil]
  | cons c r ih =>
    by_cases hc : c = sep
    · subst hc
      have pieces : ((c :: r).splitOn c).tail = r.splitOn c := by
        simp [List.splitOn_cons_eq_if_modifyHead]
      rw [pieces, pieces_ne_nil_cons_iff, ih]
      cases r with
      | nil => simp
      | cons d t =>
        have next : [c, c] <+: c :: d :: t ↔ d = c := by
          simp [List.cons_prefix_cons, eq_comm]
        have inside : [c, c] <:+: c :: d :: t ↔ d = c ∨ [c, c] <:+: d :: t := by
          rw [List.infix_cons_iff, next]
        rw [inside, List.getLast?_cons_cons]
        simp only [ne_eq, reduceCtorEq, not_false_eq_true, List.head?_cons, Option.some.injEq,
          true_and, not_or]
        tauto
    · have pieces : ((c :: r).splitOn sep).tail = (r.splitOn sep).tail := by
        simp [List.splitOn_cons_eq_if_modifyHead, hc]
      rw [pieces, ih, List.infix_cons_iff]
      have first : ¬ [sep, sep] <+: c :: r := by
        simp [List.cons_prefix_cons, Ne.symm hc]
      cases r with
      | nil => simp [hc, first]
      | cons d t => simp [first]

/-- **All pieces between separators hold something** exactly if the text does, and has no separator
at its start, at its end, or next to another one. -/
theorem pieces_ne_nil_iff (sep : Char) (s : Text) : (∀ p ∈ s.splitOn sep, p ≠ []) ↔
    s ≠ [] ∧ s.head? ≠ some sep ∧ s.getLast? ≠ some sep ∧ ¬ [sep, sep] <:+: s := by
  rw [pieces_ne_nil_cons_iff, later_pieces_ne_nil_iff]

end Text

namespace NodeId

theorem parse_isOk_iff {s : Text} :
    (∃ id, parse s = .ok id) ↔ ∀ p ∈ List.splitOn ':' s, p ≠ [] := by
  rw [parse]
  cases hs : List.splitOn ':' s with
  | nil => exact absurd hs (List.splitOn_ne_nil ':' s)
  | cons name segments =>
    simp only [List.isEmpty_iff, List.any_eq_true, List.forall_mem_cons]
    by_cases hname : name = []
    · simp [hname]
    · by_cases hempty : [] ∈ segments
      · simp [hname, hempty]
      · have filled : ∀ p ∈ segments, p ≠ [] := by
          rintro p hp rfl
          exact hempty hp
        simpa [hname, hempty] using filled

/-- A name and the segments of a port are read as they are. -/
theorem parse_intercalate {name : Text} {segments : List Text} (hn : IsSegment name)
    (hne : segments ≠ []) (hs : ∀ s ∈ segments, IsSegment s) :
    parse (List.intercalate [':'] (name :: segments)) = .ok ⟨name, some (portOf segments)⟩ := by
  have wellFormed : WellFormed ⟨name, some (portOf segments)⟩ := by
    refine ⟨hn, ?_⟩
    rintro p ⟨⟩
    exact ⟨segments, hne, hs, rfl⟩
  rw [intercalate_colon]
  exact parse_joined wellFormed

theorem portOf_append (segments : List Text) (s : Text) :
    portOf (segments ++ [s]) = portOf segments ++ ':' :: s := by
  induction segments with
  | nil => simp [portOf]
  | cons t r ih => simp [portOf, ih]

theorem portOf_eq {segments : List Text} (h : segments ≠ []) :
    portOf segments = ':' :: List.intercalate [':'] segments := by
  obtain ⟨s, r, rfl⟩ := List.exists_cons_of_ne_nil h
  rw [intercalate_colon, portOf]
  rfl

/-- A port may be given with or without its leading colon. -/
theorem withPort_intercalate (name : Text) {segments : List Text} (hne : segments ≠ [])
    (hs : ∀ s ∈ segments, IsSegment s) :
    withPort name (List.intercalate [':'] segments) = ⟨name, some (portOf segments)⟩ ∧
      withPort name (':' :: List.intercalate [':'] segments) = ⟨name, some (portOf segments)⟩ := by
  have port := portOf_eq hne
  refine ⟨?_, by rw [port]; rfl⟩
  rw [port]
  obtain ⟨s, r, rfl⟩ := List.exists_cons_of_ne_nil hne
  obtain ⟨hnil, hcolon⟩ := hs s (List.mem_cons_self ..)
  obtain ⟨c, t, rfl⟩ := List.exists_cons_of_ne_nil hnil
  have hc : c ≠ ':' := fun e => hcolon (by simp [e])
  rw [intercalate_colon, List.cons_append, withPort]
  simpa using hc

/-- A name, the segments of a port and a point of the compass are read as they are. -/
theorem parse_point {name : Text} {segments : List Text} (hn : IsSegment name)
    (hs : ∀ s ∈ segments, IsSegment s) (point : Compass) :
    parse (List.intercalate [':'] (name :: (segments ++ [point.text]))) =
      .ok ⟨name, some (portOf segments ++ ':' :: point.text)⟩ := by
  have all : ∀ s ∈ segments ++ [point.text], IsSegment s := by
    intro s hmem
    rcases List.mem_append.mp hmem with hmem | hmem
    · exact hs s hmem
    · rw [List.mem_singleton.mp hmem]
      exact Dot.isSegment_of_isWord point.isWord_text
  rw [parse_intercalate hn (by simp) all, portOf_append]

/-- **Reading and joining are inverse to each other on exactly the well-formed ids.** A text can be
read if it is not empty and has no colon at its start, at its end, or next to another one, and then
the id joins to the text. An id comes back from its text if its name and the segments of its port,
if it has one, neither are empty nor hold a colon. From a name and such segments the same id is read
from the joined text and made with a port, with or without the leading colon; and with a point of
the compass, too, what is made is what is read. -/
theorem parse_inverse :
    (∀ s : Text,
      ((∃ id, parse s = .ok id) ↔
        s ≠ [] ∧ s.head? ≠ some ':' ∧ s.getLast? ≠ some ':' ∧ ¬ [':', ':'] <:+: s) ∧
      ∀ id, parse s = .ok id → id.joined = s) ∧
    (∀ id : NodeId, parse id.joined = .ok id ↔ id.WellFormed) ∧
    ∀ name segments, IsSegment name → (∀ s ∈ segments, IsSegment s) → ∀ point : Compass,
      parse (List.intercalate [':'] [name, point.text]) = .ok (withCompass name none point) ∧
      (segments ≠ [] →
        parse (List.intercalate [':'] (name :: segments)) =
          .ok (withPort name (List.intercalate [':'] segments)) ∧
        parse (List.intercalate [':'] (name :: segments)) =
          .ok (withPort name (':' :: List.intercalate [':'] segments)) ∧
        parse (List.intercalate [':'] (name :: (segments ++ [point.text]))) =
          .ok (withCompass name (some (List.intercalate [':'] segments)) point)) := by
  refine ⟨fun s => ⟨?_, fun id => joined_of_parse⟩, fun id => ?_,
    fun name segments hn hs point => ⟨?_, fun hne => ?_⟩⟩
  · rw [parse_isOk_iff, Text.pieces_ne_nil_iff]
  · rw [parse_eq_ok_iff, and_iff_left rfl]
  · have none : ∀ s ∈ ([] : List Text), IsSegment s := nofun
    exact parse_point hn none point
  · obtain ⟨bare, colon⟩ := withPort_intercalate name hne hs
    rw [bare, colon]
    have read := parse_intercalate hn hne hs
    refine ⟨read, read, ?_⟩
    rw [parse_point hn hs, portOf_eq hne]
    rfl

/-- A record with two segments, and a port that is a point only. -/
theorem parse_inverse_record :
    let segments := ["f0".toList, "x".toList]
    (∀ s ∈ segments, IsSegment s) ∧
      withPort "rec".toList "f0:x".toList = withPort "rec".toList ":f0:x".toList ∧
      parse "rec:f0:x".toList = .ok (withPort "rec".toList "f0:x".toList) ∧
      parse "rec:f0:x:sw".toList = .ok (withCompass "rec".toList (some "f0:x".toList) .sw) ∧
      parse "rec:_".toList = .ok (withCompass "rec".toList none .any) := by
  intro segments
  have hn : IsSegment "rec".toList := ⟨by decide, by decide⟩
  have hs : ∀ s ∈ segments, IsSegment s := by
    simp only [segments, List.forall_mem_cons]
    exact ⟨⟨by decide, by decide⟩, ⟨by decide, by decide⟩, nofun⟩
  obtain ⟨bare, colon, compass⟩ := (parse_inverse.2.2 _ segments hn hs .sw).2 (by simp [segments])
  have point := (parse_inverse.2.2 _ segments hn hs .any).1
  exact ⟨hs, Except.ok.inj (bare.symm.trans colon), bare, compass, point⟩

end NodeId

end DotGraph
