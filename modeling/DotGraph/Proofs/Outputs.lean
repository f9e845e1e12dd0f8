import DotGraph.Batch.Plan
import DotGraph.Export.Engine
import DotGraph.Input
import DotGraph.Proofs.Paths
import Mathlib.Data.List.Nodup

/-!
# Outputs of a plan

The name of an output is the stem of its input with the extension of the format. A plan is made only
if no two outputs are the same, hence only if the stems are pairwise different; so the name of an
output is never the name of another input.

- `Batch.plan_eq_ok_iff`: when there is a plan, and which.
- `Batch.eq_of_fileName?_eq`: an output has the name of no input but its own.
-/

set_option autoImplicit false

namespace DotGraph

/-- An extension: neither empty nor with a dot or a slash in it. -/
structure IsExtension (e : Text) : Prop where
  ne_nil : e ≠ []
  dot : '.' ∉ e
  slash : '/' ∉ e

theorem ImageFormat.isExtension (f : ImageFormat) : IsExtension f.extension := by
  cases f <;> exact ⟨by decide, by decide, by decide⟩

namespace Path

theorem extension?_eq_some_iff {p : Path} {n : Text} (hn : fileName? p = some n) {e : Text} :
    extension? p = some e ↔ ∃ s, stemAndExtension n = (s, some e) := by
  rw [extension?, hn, Option.bind_some]
  constructor
  · intro h
    exact ⟨_, Prod.ext rfl h⟩
  · rintro ⟨s, h⟩
    rw [h]

/-- A stem with an extension is a name. -/
theorem isName_append {s e : Text} (hs : s ≠ []) (hslash : '/' ∉ s) (he : IsExtension e) :
    IsName (s ++ '.' :: e) := by
  obtain ⟨c, r, rfl⟩ := List.exists_cons_of_ne_nil hs
  obtain ⟨d, t, rfl⟩ := List.exists_cons_of_ne_nil he.ne_nil
  have length : 3 ≤ (c :: r ++ '.' :: d :: t).length := by
    simp only [List.length_append, List.length_cons]
    omega
  have ne : ∀ n : Text, n.length < 3 → c :: r ++ '.' :: d :: t ≠ n := by
    rintro n hn rfl
    omega
  refine ⟨ofPiece?_eq_some_iff.mpr ⟨rfl, ne _ (by simp), ne _ (by simp), ne _ (by simp)⟩, ?_⟩
  have hd := he.slash
  simp only [List.mem_append, List.mem_cons, not_or] at hslash hd ⊢
  exact ⟨hslash, by decide, hd⟩

end Path

theorem InputKind.supports_eq (p : Path) :
    supports p = (ofExtension? (Text.asciiLower ((Path.extension? p).getD []))).isSome := by
  rw [supports, ofPath]
  cases ofExtension? (Text.asciiLower ((Path.extension? p).getD [])) <;> rfl

/-- An input that is supported has a name. -/
theorem InputKind.fileName?_of_supports {p : Path} (h : supports p = true) :
    ∃ n, Path.fileName? p = some n := by
  cases hn : Path.fileName? p with
  | some n => exact ⟨n, rfl⟩
  | none =>
    rw [supports_eq, Path.extension?, hn] at h
    exact absurd h (by decide)

namespace Batch

section Names

variable {directory input p : Path} {n e : Text}

/-- In characters a stem is shown as it is. -/
theorem outputPath_text (directory input : Path) (e : Text) : outputPath directory input e =
    Path.join directory ((Path.stem? input).getD "graph".toList ++ '.' :: e) := by
  rw [outputPath, shownStem?]
  cases Path.stem? input <;> rfl

/-- The output of an input with a name is its stem with the extension, in the directory. -/
theorem outputPath_of_fileName? (directory : Path) (hn : Path.fileName? input = some n)
    (he : IsExtension e) :
    Path.IsName ((Path.stemAndExtension n).1 ++ '.' :: e) ∧
      outputPath directory input e =
        Path.join directory ((Path.stemAndExtension n).1 ++ '.' :: e) := by
  have hname := Path.isName_of_fileName? hn
  refine ⟨Path.isName_append (Path.stem_ne_nil hname.ne_nil) (Path.not_mem_stem hname.slash) he, ?_⟩
  rw [outputPath_text, Path.stem?, hn]
  rfl

theorem fileName?_outputPath (hn : Path.fileName? input = some n) (he : IsExtension e) :
    Path.fileName? (outputPath directory input e) =
      some ((Path.stemAndExtension n).1 ++ '.' :: e) := by
  obtain ⟨hname, houtput⟩ := outputPath_of_fileName? directory hn he
  rw [houtput]
  exact Path.fileName?_join _ hname

end Names

/-! ## Plans -/

section Plans

variable {α : Type} [DecidableEq α] [Alphabet α] {directory : List α} {e : Text}

/-- The task of an input. -/
def task (directory : List α) (e : Text) (input : List α) : List α × List α :=
  (input, outputPath directory input e)

/-- Two tasks with different outputs. -/
def Apart (s t : List α × List α) : Prop := Path.same s.2 t.2 = false

theorem claimedBy?_eq_none_iff {output : List α} {planned : List (List α × List α)} :
    claimedBy? output planned = none ↔ ∀ t ∈ planned, Path.same t.2 output = false := by
  rw [claimedBy?, Option.map_eq_none_iff, List.find?_eq_none]
  simp

/-- Going on with a plan succeeds if the further outputs differ from each other and from those
before them. -/
theorem planFrom_eq_ok_iff {tasks : List (List α × List α)} : ∀ {inputs : List (List α)}
    {planned : List (List α × List α)}, planFrom directory e planned inputs = .ok tasks ↔
      (∀ s ∈ planned, ∀ t ∈ inputs.map (task directory e), Apart s t) ∧
        (inputs.map (task directory e)).Pairwise Apart ∧
        tasks = planned.reverse ++ inputs.map (task directory e)
  | [], planned => by simp [planFrom, eq_comm]
  | input :: r, planned => by
    rw [planFrom]
    cases hc : claimedBy? (outputPath directory input e) planned with
    | some earlier =>
      refine iff_of_false nofun (fun h => ?_)
      have free : claimedBy? (outputPath directory input e) planned = none :=
        claimedBy?_eq_none_iff.mpr
          (fun s hs => h.1 s hs (task directory e input) (List.mem_cons_self ..))
      rw [hc] at free
      cases free
    | none =>
      have free := claimedBy?_eq_none_iff.mp hc
      have rest : ∀ planned, planFrom directory e planned r = .ok tasks ↔ _ :=
        fun planned => planFrom_eq_ok_iff
      simp only [rest, List.map_cons, List.pairwise_cons,
        List.forall_mem_cons, List.reverse_cons, List.append_assoc, List.singleton_append]
      constructor
      · rintro ⟨⟨h1, h2⟩, h3, rfl⟩
        exact ⟨fun s hs => ⟨free s hs, h2 s hs⟩, ⟨h1, h3⟩, rfl⟩
      · rintro ⟨h1, ⟨h2, h3⟩, rfl⟩
        exact ⟨⟨h2, fun s hs => (h1 s hs).2⟩, h3, rfl⟩

/-- **There is a plan if no two outputs are the same; it pairs each input with its output.** -/
theorem plan_eq_ok_iff {inputs : List (List α)} {tasks : List (List α × List α)} :
    plan directory e inputs = .ok tasks ↔
      (inputs.map (task directory e)).Pairwise Apart ∧ tasks = inputs.map (task directory e) := by
  rw [plan, planFrom_eq_ok_iff]
  simp

/-- The stems of planned inputs are pairwise different. -/
theorem stems_nodup {inputs : List (List α)} {tasks : List (List α × List α)}
    (h : plan directory e inputs = .ok tasks) : (inputs.map Path.stem?).Nodup := by
  have apart := (plan_eq_ok_iff.mp h).1
  rw [List.pairwise_map] at apart
  rw [List.Nodup, List.pairwise_map]
  refine apart.imp (fun {i j} hij hs => ?_)
  simp [Apart, task, outputPath, shownStem?, hs, Path.same] at hij

end Plans

section Names

variable {directory : Path} {e : Text}

/-- **The name of an output is the name of no input but its own.** -/
theorem eq_of_fileName?_eq {inputs : List Path} {tasks : List (Path × Path)} {i j : Path} {n : Text}
    (h : plan directory e inputs = .ok tasks) (he : IsExtension e) (hi : i ∈ inputs)
    (hj : j ∈ inputs) (hin : ∃ m, Path.fileName? i = some m) (hjn : Path.fileName? j = some n)
    (hout : Path.fileName? (outputPath directory i e) = some n) :
    i = j ∧ Path.extension? j = some e := by
  obtain ⟨m, hm⟩ := hin
  have hname := Path.isName_of_fileName? hm
  rw [fileName?_outputPath hm he, Option.some.injEq] at hout
  have taken : Path.stemAndExtension ((Path.stemAndExtension m).1 ++ '.' :: e) =
      ((Path.stemAndExtension m).1, some e) :=
    Path.stemAndExtension_append (Path.stem_ne_nil hname.ne_nil) he.dot
  rw [hout] at taken
  refine ⟨?_, (Path.extension?_eq_some_iff hjn).mpr ⟨_, taken⟩⟩
  have stems : Path.stem? i = Path.stem? j := by
    rw [Path.stem?, Path.stem?, hm, hjn, Option.map_some, Option.map_some, taken]
  exact List.inj_on_of_nodup_map (stems_nodup h) hi hj stems

/-- Different inputs have outputs of different names. -/
theorem eq_of_fileName?_outputPath_eq {inputs : List Path} {tasks : List (Path × Path)}
    {i j : Path} (h : plan directory e inputs = .ok tasks) (he : IsExtension e) (hi : i ∈ inputs)
    (hj : j ∈ inputs) (hin : ∃ m, Path.fileName? i = some m) (hjn : ∃ m, Path.fileName? j = some m)
    (hout : Path.fileName? (outputPath directory i e) = Path.fileName? (outputPath directory j e)) :
    i = j := by
  obtain ⟨m, hm⟩ := hin
  obtain ⟨k, hk⟩ := hjn
  rw [fileName?_outputPath hm he, fileName?_outputPath hk he, Option.some.injEq,
    List.append_left_inj] at hout
  have stems : Path.stem? i = Path.stem? j := by
    rw [Path.stem?, Path.stem?, hm, hk, Option.map_some, Option.map_some, hout]
  exact List.inj_on_of_nodup_map (stems_nodup h) hi hj stems

end Names

end Batch

end DotGraph
