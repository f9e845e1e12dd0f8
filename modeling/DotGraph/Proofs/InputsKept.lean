import DotGraph.Proofs.Interleaving

/-!
# Inputs after a batch

Outputs are written without asking what they replace, so an input is lost if its own output leads to
it. That takes the extension of the format and a directory in which the input lies; the outputs of
other inputs never do any harm, and making the directory does none either.

- `Files.Grows.makeDirectories`: what was there before is there after directories have been made.
- `Batch.input_kept`: the other inputs are as before, however the tasks take turns.
- `Batch.input_overwritten`: an input that is lost.
-/

set_option autoImplicit false

namespace DotGraph

namespace Files

/-! ## Making directories -/

/-- A tree that has all that another one has. -/
structure Grows (f g : Files) : Prop where
  working : g.working = f.working
  item : ∀ p i, f.get? p = some i → g.get? p = some i

namespace Grows

variable {f g h : Files}

theorem refl (f : Files) : Grows f f := ⟨rfl, fun _ _ hi => hi⟩

theorem trans (hfg : Grows f g) (hgh : Grows g h) : Grows f h :=
  ⟨hgh.working.trans hfg.working, fun p i hi => hgh.item p i (hfg.item p i hi)⟩

theorem keeps (hg : Grows f g) : Keeps f g := ⟨hg.working, fun p => hg.item p .directory⟩

theorem read (hg : Grows f g) {path : Path} {c : Octets} (hr : f.read path = .ok c) :
    g.read path = .ok c := by
  obtain ⟨x, hi⟩ := read_eq_ok_iff.mp hr
  refine read_eq_ok_iff.mpr ⟨x, hg.keeps.lookup (fun p n slash ht => ?_) hi⟩
  cases hn : f.get? (n :: p) with
  | some i => exact hg.item _ i hn
  | none => simp [Files.lookup, ht, hn] at hi

theorem makeDirectory {path : Path} (hd : f.makeDirectory path = .ok g) :
    Grows f g ∧ g.isDirectory path = true := by
  rw [Files.makeDirectory] at hd
  cases ht : f.target path with
  | error e =>
    rw [ht] at hd
    cases hd
  | ok t =>
    rw [ht] at hd
    cases t with
    | directory p => cases hd
    | entry p n slash =>
      simp only at hd
      cases hn : f.get? (n :: p) with
      | some i =>
        rw [hn] at hd
        cases hd
      | none =>
        rw [hn] at hd
        cases hd
        have get := f.get?_put (List.cons_ne_nil n p) .directory
        have grows : Grows f (f.put (n :: p) .directory) := by
          refine ⟨rfl, fun q i hi => ?_⟩
          rw [get, if_neg, hi]
          rintro rfl
          rw [hn] at hi
          cases hi
        refine ⟨grows, isDirectory_iff_lookup.mpr ?_⟩
        rw [lookup, grows.keeps.target ht]
        simp only [get, if_true]

/-- Whatever is met on the way, directories are only added, and after success the first of them is
there. -/
theorem makeNested (paths : List Path) : ∀ f : Files, Grows f (f.makeNested paths).2 ∧
    ((f.makeNested paths).1 = .ok () → ∀ p ∈ paths.head?,
      (f.makeNested paths).2.isDirectory p = true) := by
  induction paths with
  | nil => exact fun f => ⟨refl f, fun _ p hp => by cases hp⟩
  | cons path up ih =>
    intro f
    have found : ∀ (g : Files) (e : FileFault),
        (if g.isDirectory path then Except.ok () else Except.error e) = Except.ok () →
          g.isDirectory path = true := by
      intro g e h
      split at h
      · assumption
      · cases h
    rw [Files.makeNested]
    cases hd : f.makeDirectory path with
    | ok g =>
      obtain ⟨grows, there⟩ := makeDirectory hd
      exact ⟨grows, fun _ p hp => Option.some.inj hp ▸ there⟩
    | error e =>
      cases e with
      | notFound =>
        obtain ⟨grows, -⟩ := ih f
        cases hu : f.makeNested up with
        | mk r g =>
          rw [hu] at grows
          cases r with
          | error e => exact ⟨grows, fun h => by cases h⟩
          | ok u =>
            simp only
            cases hd' : g.makeDirectory path with
            | ok h =>
              obtain ⟨grows', there⟩ := makeDirectory hd'
              exact ⟨grows.trans grows', fun _ p hp => Option.some.inj hp ▸ there⟩
            | error e => exact ⟨grows, fun h p hp => Option.some.inj hp ▸ found g e h⟩
      | _ => exact ⟨refl f, fun h p hp => Option.some.inj hp ▸ found f _ h⟩

theorem makeDirectories (f : Files) (path : Path) : Grows f (f.makeDirectories path).2 ∧
    ((f.makeDirectories path).1 = .ok () → (f.makeDirectories path).2.provides path = true) := by
  rw [Files.makeDirectories]
  cases path with
  | nil => exact ⟨refl f, fun _ => rfl⟩
  | cons c r =>
    obtain ⟨grows, there⟩ := makeNested (Path.withAncestors (c :: r)) f
    exact ⟨grows, fun h => there h _ rfl⟩

end Grows

end Files

namespace Batch

variable {make : Text → Engine → ImageFormat → Except Error Octets} {o : BatchOptions}
  {inputs : List Path} {tasks : List (Path × Path)}

/-- A planned output that is one of the inputs is that input's own, and the input is in the format
already. -/
theorem eq_of_same (hs : ∀ p ∈ inputs, InputKind.supports p = true)
    (hp : plan o.directory o.format.extension inputs = .ok tasks) {t : Path × Path} (ht : t ∈ tasks)
    {p : Path} (hin : p ∈ inputs) (h : Path.same t.2 p = true) :
    t.1 = p ∧ Path.extension? p = some o.format.extension := by
  obtain ⟨i, hi, rfl⟩ := exists_of_mem_tasks hp ht
  obtain ⟨n, hn⟩ := InputKind.fileName?_of_supports (hs p hin)
  have name : Path.fileName? (outputPath o.directory i o.format.extension) = some n := by
    have parts : Path.parts (outputPath o.directory i o.format.extension) = Path.parts p :=
      of_decide_eq_true h
    rw [← hn, Path.fileName?, Path.fileName?, parts]
  exact eq_of_fileName?_eq hp o.format.isExtension hi hin
    (InputKind.fileName?_of_supports (hs i hi)) hn name

/-- The formats whose files are inputs. -/
theorem format_of_supports {f : ImageFormat} {p : Path} (hs : InputKind.supports p = true)
    (he : Path.extension? p = some f.extension) : f = .json ∨ f = .dot := by
  rw [InputKind.supports_eq, he, Option.getD_some] at hs
  revert hs
  cases f <;> decide

namespace Sane

variable {f : Files} {s : Progress}

/-- An input is as it was unless its own output leads to it. -/
theorem read_input (h : Sane make o f tasks s) (hs : ∀ p ∈ inputs, InputKind.supports p = true)
    (hp : plan o.directory o.format.extension inputs = .ok tasks) {p : Path} (hin : p ∈ inputs)
    {c : Octets} (hc : f.read p = .ok c) :
    s.files.read p = .ok c ∨ Path.extension? p = some o.format.extension ∧
      f.target (outputPath o.directory p o.format.extension) = f.target p := by
  have ht : task o.directory o.format.extension p ∈ tasks := by
    rw [(plan_eq_ok_iff.mp hp).2]
    exact List.mem_map_of_mem hin
  obtain ⟨x, hi⟩ := Files.read_eq_ok_iff.mp hc
  by_cases hfree : ∀ q n slash, f.target p = .ok (.entry q n slash) →
      s.files.get? (n :: q) = f.get? (n :: q)
  · exact .inl (Files.read_eq_ok_iff.mpr ⟨x, h.keeps.1.lookup hfree hi⟩)
  · -- something has been delivered to the place of the input, and only its own task can do that
    refine .inr ?_
    simp only [not_forall] at hfree
    obtain ⟨q, n, slash, hto, hne⟩ := hfree
    have delivered : ∃ i, Delivered make o f s.threads (n :: q) i := by
      by_contra hno
      exact hne (h.kept _ (fun i hi => hno ⟨i, hi⟩))
    obtain ⟨i, t, hmem, -, hd⟩ := delivered
    have own := eq_of_target_input hs o.format.isExtension hp (h.task_mem hmem) ht hd hto
    rw [own] at hd
    obtain ⟨_, _, -, hslot, -⟩ := delivery?_eq_some_iff.mp hd
    obtain ⟨_, _, ⟨⟩, hout, -⟩ := Files.slot?_eq_some hslot
    have file : slash = false := by
      cases slash with
      | false => rfl
      | true =>
        rw [Files.lookup, hto] at hi
        simp only at hi
        cases hn : f.get? (n :: q) with
        | none => simp [hn] at hi
        | some j => cases j <;> simp [hn] at hi
    subst file
    exact ⟨(eq_of_fileName?_eq hp o.format.isExtension hin hin
      (InputKind.fileName?_of_supports (hs p hin)) (Files.fileName?_of_target hto)
      (Files.fileName?_of_target hout)).2, hout.trans hto.symm⟩

end Sane

/-- **An input is lost only to its own output.** A planned output that is one of the inputs is that
input's own, and the input has the extension of the format, which is JSON or DOT. Making the
directory changes no input; and then, whatever the images are and however the tasks take turns, an
input has its content at all times, unless it has the extension of the format and its output leads
to it. -/
theorem input_kept (hs : ∀ p ∈ inputs, InputKind.supports p = true)
    (hp : plan o.directory o.format.extension inputs = .ok tasks) :
    (∀ t ∈ tasks, ∀ p ∈ inputs, Path.same t.2 p = true →
      t.1 = p ∧ Path.extension? p = some o.format.extension ∧
        (o.format = .json ∨ o.format = .dot)) ∧
    ∀ (f : Files), ∀ p ∈ inputs, ∀ c, f.read p = .ok c →
      ∀ result g, f.makeDirectories o.directory = (result, g) →
        g.read p = .ok c ∧
        (result = .ok () →
          ∀ (make : Text → Engine → ImageFormat → Except Error Octets) (schedule : List Nat),
            ((Progress.start tasks g).play (.ofFunction make) o schedule).files.read p = .ok c ∨
              Path.extension? p = some o.format.extension ∧
                g.target (outputPath o.directory p o.format.extension) = g.target p) := by
  constructor
  · intro t ht p hin h
    obtain ⟨own, extension⟩ := eq_of_same hs hp ht hin h
    exact ⟨own, extension, format_of_supports (hs p hin) extension⟩
  · intro f p hin c hc result g hg
    obtain ⟨grows, there⟩ := Files.Grows.makeDirectories f o.directory
    rw [hg] at grows there
    have kept : g.read p = .ok c := grows.read hc
    refine ⟨kept, fun success make schedule => ?_⟩
    exact ((Sane.start tasks).play hp hs (there success) schedule).read_input hs hp hin kept

/-- In the directory of the inputs, one that is in another format is kept. -/
theorem input_kept_beside :
    let o : BatchOptions := ⟨"in/*".toList, "in".toList, .dot, .dot, "dot".toList, false⟩
    let f : Files := ⟨[], [(["in".toList], .directory),
      (["a.gv".toList, "in".toList], .file [97] false),
      (["b.dot".toList, "in".toList], .file [98] false)]⟩
    let inputs := ["in/a.gv".toList, "in/b.dot".toList]
    let tasks := [("in/a.gv".toList, "in/a.gv".toList), ("in/b.dot".toList, "in/b.gv".toList)]
    (∀ p ∈ inputs, InputKind.supports p = true) ∧
      plan o.directory o.format.extension inputs = .ok tasks ∧
      f.read "in/b.dot".toList = .ok [98] ∧
      ∀ make schedule, ((Progress.start tasks f).play (.ofFunction make) o schedule).files.read
        "in/b.dot".toList = .ok [98] := by
  intro o f inputs tasks
  have hs : ∀ p ∈ inputs, InputKind.supports p = true := by decide
  have hp : plan o.directory o.format.extension inputs = .ok tasks := by decide
  have hin : "in/b.dot".toList ∈ inputs := by decide
  have hc : f.read "in/b.dot".toList = .ok [98] := by decide
  have hmake : f.makeDirectories o.directory = (.ok (), f) := by decide
  refine ⟨hs, hp, hc, fun make schedule => ?_⟩
  have kept := (input_kept hs hp).2 f _ hin _ hc _ _ hmake
  exact (kept.2 rfl make schedule).resolve_right (by decide)

/-- **An input whose own output leads to it is lost.** -/
theorem input_overwritten :
    let o : BatchOptions := ⟨"in/*".toList, "in".toList, .dot, .dot, "dot".toList, false⟩
    let f : Files := ⟨[], [(["in".toList], .directory),
      (["a.gv".toList, "in".toList], .file [97] false)]⟩
    let make := fun (_ : Text) (_ : Engine) (_ : ImageFormat) => Except.ok [98]
    let tasks := [("in/a.gv".toList, "in/a.gv".toList)]
    InputKind.supports "in/a.gv".toList = true ∧
      plan o.directory o.format.extension ["in/a.gv".toList] = .ok tasks ∧
      f.read "in/a.gv".toList = .ok [97] ∧
      ((Progress.start tasks f).play (.ofFunction make) o [0, 0, 0, 0]).files.read
        "in/a.gv".toList = .ok [98] := by
  decide +kernel

end Batch

end DotGraph
