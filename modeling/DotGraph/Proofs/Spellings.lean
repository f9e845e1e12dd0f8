import DotGraph.Batch.Plan
import DotGraph.Proofs.Encoding
import DotGraph.Proofs.Paths

/-!
# Paths in octets and in characters

A path that is a text is read alike whether it is written in characters or in their octets: it has
the same parts, name and stem, and the same outputs are planned for it. So what holds of octets
holds of texts.

- `Path.parts_ofText`: the parts of a path.
- `Batch.plan_ofText`: plans.
-/

set_option autoImplicit false

namespace DotGraph

open Octets (ofText ofText_injective)

namespace Path

/-! ## Parts -/

theorem ofText_eq_nil_iff {s : Text} : ofText s = [] ↔ s = [] :=
  ofText_injective.eq_iff' rfl

/-- The part in octets. -/
def Part.ofText : Part Char → Part UInt8
  | root => .root
  | here => .here
  | up => .up
  | name n => .name (Octets.ofText n)

theorem Part.ofText_injective : Function.Injective Part.ofText := by
  intro a b h
  cases a with
  | name n =>
    cases b with
    | name m => exact congrArg name (Octets.ofText_injective (name.inj h))
    | root | here | up => cases h
  | root | here | up => cases b <;> first | rfl | cases h

/-- Octets are cut apart at the slashes of a text. -/
theorem splitOn_ofText (p : Text) :
    (ofText p).splitOn (0x2F : UInt8) = (p.splitOn '/').map ofText := by
  induction p with
  | nil => rfl
  | cons c r ih =>
    obtain ⟨q, l, hq⟩ := List.exists_cons_of_ne_nil (List.splitOn_ne_nil '/' r)
    rw [hq, List.map_cons] at ih
    rw [Octets.ofText_cons, List.splitOn_cons_eq_if_modifyHead]
    by_cases hc : c = '/'
    · subst hc
      have one : Octets.ofChar '/' = [0x2F] := rfl
      rw [one, List.singleton_append, List.splitOn_cons_eq_if_modifyHead,
        if_pos (beq_self_eq_true _), if_pos (beq_self_eq_true _), hq, ih]
      rfl
    · have free : (0x2F : UInt8) ∉ Octets.ofChar c :=
        fun h => hc (Octets.eq_of_mem_ofChar (c := '/') (by decide) h).symm
      rw [splitOn_append_of_not_mem ih free, if_neg (by simpa using hc), hq]
      rfl

theorem ofPiece?_ofText (s : Text) :
    Part.ofPiece? (ofText s) = (Part.ofPiece? s).map Part.ofText := by
  have one : ofText s = [Alphabet.dot] ↔ s = [Alphabet.dot] := ofText_injective.eq_iff' rfl
  have two : ofText s = [Alphabet.dot, Alphabet.dot] ↔ s = [Alphabet.dot, Alphabet.dot] :=
    ofText_injective.eq_iff' rfl
  simp only [Part.ofPiece?, ofText_eq_nil_iff, one, two]
  split
  · rfl
  · split <;> rfl

theorem lead_ofText : ∀ l : List Text, lead (l.map ofText) = (lead l).map Part.ofText
  | [] => rfl
  | s :: r => by
    have one : ofText s = [Alphabet.dot] ↔ s = [Alphabet.dot] := ofText_injective.eq_iff' rfl
    simp only [List.map_cons, lead, ofText_eq_nil_iff, one, ne_eq, List.map_eq_nil_iff]
    split
    · rfl
    · split <;> rfl

/-- **The octets of a path have its parts.** -/
theorem parts_ofText (p : Text) : parts (ofText p) = (parts p).map Part.ofText := by
  have pieces : (ofText p).splitOn Alphabet.slash = (p.splitOn Alphabet.slash).map ofText :=
    splitOn_ofText p
  rw [parts, parts, pieces, lead_ofText, List.map_append, List.filterMap_map, List.map_filterMap]
  exact congrArg (fun f => _ ++ List.filterMap f _) (funext ofPiece?_ofText)

theorem same_ofText (p q : Text) : same (ofText p) (ofText q) = same p q := by
  rw [same, same, parts_ofText, parts_ofText]
  exact decide_eq_decide.mpr (List.map_inj_right fun _ _ h => Part.ofText_injective h)

/-! ## Names -/

theorem fileName?_ofText (p : Text) : fileName? (ofText p) = (fileName? p).map ofText := by
  rw [fileName?, fileName?, parts_ofText, List.getLast?_map]
  cases (parts p).getLast? with
  | none => rfl
  | some a => cases a <;> rfl

theorem cutAtLastDot_ofText (s : Text) :
    cutAtLastDot (ofText s) = (cutAtLastDot s).map (Prod.map ofText ofText) := by
  have free : ∀ {t : Text}, '.' ∉ t → (0x2E : UInt8) ∉ ofText t :=
    fun ht h => ht (Octets.mem_of_mem_ofText (by decide) h)
  cases h : cutAtLastDot s with
  | none => exact cutAtLastDot_eq_none_iff.mpr (free (cutAtLastDot_eq_none_iff.mp h))
  | some p =>
    obtain ⟨rfl, he⟩ := eq_append_of_cutAtLastDot h
    refine (congrArg cutAtLastDot (Octets.ofText_append_cons (by decide) _ _)).trans ?_
    exact cutAtLastDot_append (free he) (ofText _)

theorem stemAndExtension_ofText (n : Text) : stemAndExtension (ofText n) =
    Prod.map ofText (Option.map ofText) (stemAndExtension n) := by
  rw [stemAndExtension, stemAndExtension, cutAtLastDot_ofText]
  cases h : cutAtLastDot n with
  | none => rfl
  | some p =>
    obtain ⟨t, e⟩ := p
    cases t with
    | nil => rfl
    | cons c t =>
      obtain ⟨b, l, octets⟩ := List.exists_cons_of_ne_nil
        (mt ofText_eq_nil_iff.mp (List.cons_ne_nil c t))
      simp only [Option.map_some, Prod.map_apply, octets]

theorem stem?_ofText (p : Text) : stem? (ofText p) = (stem? p).map ofText := by
  rw [stem?, stem?, fileName?_ofText, Option.map_map, Option.map_map]
  exact congrArg (fun f => (fileName? p).map f)
    (funext fun n => congrArg Prod.fst (stemAndExtension_ofText n))

/-- The octets of a slash are those of no other character, and only one. -/
theorem mem_ofChar_slash_iff {c : Char} {b : UInt8} (hb : b ∈ Octets.ofChar c) :
    b = 0x2F ↔ c = '/' := by
  constructor
  · rintro rfl
    exact (Octets.eq_of_mem_ofChar (c := '/') (by decide) hb).symm
  · rintro rfl
    exact List.mem_singleton.mp hb

theorem head?_ofText_iff {n : Text} : (ofText n).head? = some 0x2F ↔ n.head? = some '/' := by
  cases n with
  | nil => exact iff_of_false nofun nofun
  | cons c r =>
    obtain ⟨b, l, octets⟩ := List.exists_cons_of_ne_nil (Octets.ofChar_ne_nil c)
    have mem : b ∈ Octets.ofChar c := octets ▸ List.mem_cons_self ..
    rw [Octets.ofText_cons, octets, List.cons_append, List.head?_cons, List.head?_cons,
      Option.some.injEq, Option.some.injEq, mem_ofChar_slash_iff mem]

theorem getLast?_ofText_iff {d : Text} :
    (ofText d).getLast? = some 0x2F ↔ d.getLast? = some '/' := by
  rcases List.eq_nil_or_concat d with rfl | ⟨l, c, rfl⟩
  · exact iff_of_false nofun nofun
  · obtain ⟨m, b, octets⟩ := (List.eq_nil_or_concat _).resolve_left (Octets.ofChar_ne_nil c)
    have mem : b ∈ Octets.ofChar c := by simp [octets]
    have single : ofText [c] = Octets.ofChar c := List.append_nil _
    rw [List.concat_eq_append, Octets.ofText_append, single, octets, List.concat_eq_append,
      ← List.append_assoc, List.getLast?_concat, List.getLast?_concat, Option.some.injEq,
      Option.some.injEq, mem_ofChar_slash_iff mem]

theorem join_ofText (d n : Text) : join (ofText d) (ofText n) = ofText (join d n) := by
  have head : (ofText n).head? = some Alphabet.slash ↔ n.head? = some Alphabet.slash :=
    head?_ofText_iff
  have last : (ofText d).getLast? = some Alphabet.slash ↔ d.getLast? = some Alphabet.slash :=
    getLast?_ofText_iff
  simp only [join, head, last, ofText_eq_nil_iff]
  split
  · rfl
  · split
    · exact (Octets.ofText_append _ _).symm
    · exact (Octets.ofText_append_cons (c := '/') (by decide) d n).symm

end Path

namespace Batch

theorem shownStem?_ofText (p : Text) : shownStem? (ofText p) = shownStem? p := by
  rw [shownStem?, shownStem?, Path.stem?_ofText, Option.map_map]
  exact congrArg (fun f => (Path.stem? p).map f) (funext Octets.decodeLossy_ofText)

theorem outputPath_ofText (directory p e : Text) :
    outputPath (ofText directory) (ofText p) e = ofText (outputPath directory p e) := by
  rw [outputPath, outputPath, shownStem?_ofText]
  exact Path.join_ofText directory _

theorem claimedBy?_ofText (output : Text) (planned : List (Text × Text)) :
    claimedBy? (ofText output) (planned.map (Prod.map ofText ofText)) =
      (claimedBy? output planned).map ofText := by
  have same : (fun t : Octets × Octets => Path.same t.2 (ofText output)) ∘
      Prod.map ofText ofText = fun t : Text × Text => Path.same t.2 output :=
    funext fun t => Path.same_ofText t.2 output
  rw [claimedBy?, claimedBy?, List.find?_map, same, Option.map_map, Option.map_map]
  rfl

theorem planFrom_ofText (directory e : Text) : ∀ (inputs : List Text)
    (planned : List (Text × Text)),
    planFrom (ofText directory) e (planned.map (Prod.map ofText ofText)) (inputs.map ofText) =
      (planFrom directory e planned inputs).map (List.map (Prod.map ofText ofText))
  | [], planned => by
    rw [List.map_nil, planFrom, planFrom, ← List.map_reverse]
    rfl
  | input :: r, planned => by
    rw [List.map_cons, planFrom, planFrom]
    simp only [outputPath_ofText, claimedBy?_ofText]
    cases claimedBy? (outputPath directory input e) planned with
    | some earlier =>
      have shown : ∀ t : Text, Alphabet.toText (ofText t) = Alphabet.toText t :=
        Octets.decodeLossy_ofText
      simp only [Option.map_some, shown]
      rfl
    | none => exact planFrom_ofText directory e r ((input, outputPath directory input e) :: planned)

/-- **Paths that are texts are planned alike in characters and in octets.** -/
theorem plan_ofText (directory e : Text) (inputs : List Text) :
    plan (ofText directory) e (inputs.map ofText) =
      (plan directory e inputs).map (List.map (Prod.map ofText ofText)) :=
  planFrom_ofText directory e inputs []

end Batch

end DotGraph
