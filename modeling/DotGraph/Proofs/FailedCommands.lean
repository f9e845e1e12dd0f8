import DotGraph.Command.Render
import DotGraph.Proofs.Interleaving

/-!
# Commands that fail

A command that cannot go on because of its input, its pattern or its exporter has not written
anything yet. What it leaves is what it has found, and the exporter has not been run unless it is
what failed. A description that is written to a file changes this file alone.

- `Files.loadDescription_eq_ok_iff`, `Files.loadInput_eq_ok_iff`: what can be loaded.
- `Files.onlyAt_of_write`: what writing a file changes.
- `files_kept`: what the commands leave when they fail, and what writing a description changes.
-/

set_option autoImplicit false

namespace DotGraph

theorem exists_error_of_ne_ok {ε α : Type} {x : Except ε α} (h : ∀ a, x ≠ .ok a) :
    ∃ e, x = .error e := by
  cases x with
  | error e => exact ⟨e, rfl⟩
  | ok a => exact absurd rfl (h a)

namespace Files

/-! ## Loading -/

/-- A graph that can be loaded from a path: the text of the file is a description of it, in JSON or
in TOML as the extension says. -/
def Describes (f : Files) (p : Path) (g : Graph) : Prop :=
  ∃ t, f.readText p = .ok t ∧
    (InputKind.ofPath p = .ok .json ∧ Json.parse t = .ok g ∨
      InputKind.ofPath p = .ok .toml ∧ Toml.parse t = .ok g)

/-- A document that can be loaded from a path: a described graph, or DOT text as it is. -/
def Supplies (f : Files) (p : Path) : Document → Prop
  | .source t => InputKind.ofPath p = .ok .dot ∧ f.readText p = .ok t
  | .graph g => f.Describes p g

variable {f g : Files} {p : Path}

theorem inputText_eq_ok_iff {t : Text} : f.inputText p = .ok t ↔ f.readText p = .ok t := by
  rw [inputText]
  cases f.readText p <;> simp

/-- **A description is loaded** exactly if its extension is one of the two, its file can be read, is
text, and describes a graph. -/
theorem loadDescription_eq_ok_iff {x : Graph} :
    f.loadDescription p = .ok x ↔ f.Describes p x := by
  have text := @inputText_eq_ok_iff f p
  rw [loadDescription, Describes]
  cases hk : InputKind.ofPath p with
  | error e => simp
  | ok k =>
    cases ht : f.inputText p with
    | error e =>
      have none : ∀ t, f.readText p ≠ .ok t := by
        intro t h
        rw [text.mpr h] at ht
        cases ht
      simp [none]
    | ok t =>
      have hread := text.mp ht
      cases k <;> simp only [hread, Except.ok.injEq, exists_eq_left', parseJson, parseToml]
      · simp
      · cases Json.parse t <;> simp
      · cases Toml.parse t <;> simp

/-- A path describes one graph at most. -/
theorem Describes.unique {x y : Graph} (hx : f.Describes p x) (hy : f.Describes p y) : x = y :=
  Except.ok.inj
    ((loadDescription_eq_ok_iff.mpr hx).symm.trans (loadDescription_eq_ok_iff.mpr hy))

theorem loadInput_eq_ok_iff {d : Document} : f.loadInput p = .ok d ↔ f.Supplies p d := by
  rw [loadInput]
  cases hk : InputKind.ofPath p with
  | error e => cases d <;> simp [Supplies, Describes, hk]
  | ok k =>
    cases k with
    | dot =>
      have text := @inputText_eq_ok_iff f p
      cases d with
      | graph x => cases f.inputText p <;> simp [Supplies, Describes, hk]
      | source t =>
        rw [Supplies, ← text]
        cases f.inputText p <;> simp [hk]
    | json | toml =>
      have description := @loadDescription_eq_ok_iff f p
      cases d with
      | source t => cases f.loadDescription p <;> simp [Supplies, hk]
      | graph x =>
        rw [Supplies, ← description]
        cases f.loadDescription p <;> simp

/-! ## Writing -/

/-- Files that differ from others only in what is at the end of a path. -/
structure OnlyAt (p : Path) (f g : Files) : Prop where
  working : g.working = f.working
  /-- every other place -/
  place : ∀ q, (∀ d n slash, f.target p = .ok (.entry d n slash) → q ≠ n :: d) →
    g.get? q = f.get? q
  /-- what every other path leads to -/
  lookup : ∀ path, f.target path ≠ f.target p → ∀ i,
    g.lookup path = .ok i ↔ f.lookup path = .ok i

theorem keeps_put_file {q : Place} {n : Text} (hfree : f.get? (n :: q) ≠ some .directory)
    (c : Octets) (x : Bool) :
    Keeps f (f.put (n :: q) (.file c x)) ∧ Keeps (f.put (n :: q) (.file c x)) f := by
  have get := f.get?_put (List.cons_ne_nil n q) (.file c x)
  refine ⟨⟨rfl, fun r hr => ?_⟩, ⟨rfl, fun r hr => ?_⟩⟩
  · rw [get, if_neg, hr]
    rintro rfl
    exact hfree hr
  · rw [get] at hr
    split at hr
    · cases hr
    · exact hr

/-- The place of a path can be written to exactly if writing succeeds. -/
theorem write_isOk_iff (c : Octets) :
    (∃ g, f.write p c = .ok g) ↔ (f.slot? p).isSome = true := by
  simp only [write_eq_ok_iff]
  cases f.slot? p with
  | none => simp
  | some a => exact iff_of_true ⟨_, a.1, a.2, rfl, rfl⟩ rfl

/-- **Writing a file** gives it its content and changes nothing else. -/
theorem onlyAt_of_write {c : Octets} (h : f.write p c = .ok g) :
    g.read p = .ok c ∧ OnlyAt p f g := by
  obtain ⟨_, x, hslot, rfl⟩ := write_eq_ok_iff.mp h
  obtain ⟨q, n, rfl, target, free⟩ := slot?_eq_some hslot
  obtain ⟨forth, back⟩ := keeps_put_file free c x
  have get := f.get?_put (List.cons_ne_nil n q) (.file c x)
  refine ⟨read_eq_ok_iff.mpr ⟨x, ?_⟩, rfl, fun r hr => ?_, fun path hne i => ?_⟩
  · rw [lookup, forth.target target]
    simp [get]
  · rw [get, if_neg (hr q n false target)]
  · by_cases hslash : f.target path = .ok (.entry q n true)
    · -- with a slash behind it the name of a file leads nowhere, before and after
      have before : f.lookup path ≠ .ok i := by
        rw [lookup, hslash]
        cases hi : f.get? (n :: q) with
        | none => simp [hi]
        | some j =>
          cases j with
          | directory => exact absurd hi free
          | file c' x' => simp [hi]
      have after : (f.put (n :: q) (.file c x)).lookup path ≠ .ok i := by
        rw [lookup, forth.target hslash]
        simp [get]
      exact iff_of_false after before
    · refine forth.lookup_iff back (fun r m slash hr => ?_) i
      rw [get, if_neg]
      rintro ⟨⟩
      cases slash with
      | true => exact hslash hr
      | false => exact hne (hr.trans target.symm)

end Files

/-! ## Failing before anything is written -/

/-- An exporter that changes no files. -/
def Exporter.KeepsFiles (x : Exporter) : Prop :=
  ∀ f dot engine format, (x.render f dot engine format).2 = f

theorem Exporter.keepsFiles_ofFunction
    (make : Text → Engine → ImageFormat → Except Error Octets) : (ofFunction make).KeepsFiles :=
  fun _ _ _ _ => rfl

/-- The text that a description is written as. -/
def BuildOptions.text (o : BuildOptions) (g : Graph) : Text :=
  Dot.render (quotingFor o.escapeQuotes) g ++ ['\n']

/-- What speaks against a batch as a whole: its pattern is malformed, or two of its inputs have the
same output. -/
inductive BatchOptions.Refused (o : BatchOptions) (f : Files) : Prop where
  | pattern {fault : Glob.Fault} : Glob.components o.pattern = .error fault → Refused o f
  | shared {inputs : List Path} {a b : Path} :
    f.inputs o.pattern = .ok inputs → [a, b].Sublist inputs →
    Path.same (Batch.outputPath o.directory a o.format.extension)
      (Batch.outputPath o.directory b o.format.extension) = true → Refused o f

/-- A batch without inputs: no file that its pattern matches is of a supported kind. -/
def BatchOptions.Idle (o : BatchOptions) (f : Files) : Prop :=
  ∃ found, Glob.find f o.pattern = .ok found ∧
    ∀ p ∈ found, f.isFile p = true → InputKind.supports p = false

theorem Files.inputs_of_components {f : Files} {pattern : Text} {fault : Glob.Fault}
    (h : Glob.components pattern = .error fault) : f.inputs pattern = .error fault := by
  rw [inputs, Glob.find, h]

theorem BatchOptions.Idle.inputs_eq_nil {o : BatchOptions} {f : Files} (h : o.Idle f) :
    f.inputs o.pattern = .ok [] := by
  obtain ⟨found, hfind, none⟩ := h
  have kept : found.filter (fun p => f.isFile p && InputKind.supports p) = [] := by
    rw [List.filter_eq_nil_iff]
    intro p hp
    cases hfile : f.isFile p with
    | false => simp
    | true => simp [none p hp hfile]
  rw [Files.inputs, hfind]
  simp only [kept, Path.sort, List.mergeSort_nil]

/-- Two inputs with the same output speak against every plan. -/
theorem Batch.plan_of_shared {directory : Path} {e : Text} {inputs : List Path} {a b : Path}
    (h : [a, b].Sublist inputs)
    (same : Path.same (outputPath directory a e) (outputPath directory b e) = true) :
    ∃ error, plan directory e inputs = .error error := by
  refine exists_error_of_ne_ok fun tasks hp => ?_
  have apart := (plan_eq_ok_iff.mp hp).1
  have both : [task directory e a, task directory e b].Sublist (inputs.map (task directory e)) :=
    h.map (task directory e)
  have differ : Apart (task directory e a) (task directory e b) :=
    List.pairwise_iff_forall_sublist.mp apart both
  rw [Apart, task, task, same] at differ
  cases differ

/-- A batch that is refused leaves everything as it is, whatever the exporter would do. -/
theorem BatchOptions.Refused.run_eq {o : BatchOptions} {s : Session} (h : o.Refused s.files) :
    ∃ r, ∀ x : Exporter, o.run x s = (.error r, s) := by
  cases h with
  | @pattern fault hfault =>
    refine ⟨Batch.malformed o.pattern fault, fun x => ?_⟩
    rw [run, Batch.runAll, Files.inputs_of_components hfault]
  | @shared inputs a b hinputs hab same =>
    obtain ⟨e, he⟩ := Batch.plan_of_shared hab same
    refine ⟨⟨none, .error e⟩, fun x => ?_⟩
    rw [run, Batch.runAll, hinputs]
    cases inputs with
    | nil => cases hab
    | cons p r => simp only [he]

/-- A batch without inputs says so and does nothing else. -/
theorem BatchOptions.Idle.run_eq {o : BatchOptions} {s : Session} (h : o.Idle s.files) :
    ∃ s', (∀ x : Exporter, o.run x s = (.ok (), s')) ∧ s'.files = s.files ∧
      s'.output = s.output := by
  refine ⟨s.say "ℹ" ("No supported files match ".toList ++ o.pattern), fun x => ?_, rfl, rfl⟩
  rw [run, Batch.runAll, h.inputs_eq_nil]
  rfl

/-- A failure of the exporter comes before anything is written. -/
theorem RenderOptions.run_of_render_error {o : RenderOptions} {s : Session} {x : Exporter}
    {d : Document} {e : Error} (hx : x.KeepsFiles) (hd : s.files.Supplies o.input d)
    (he : (x.render s.files (d.toDot (quotingFor o.escapeQuotes)) o.engine o.format).1 =
      .error e) :
    ∃ r s', o.run x s = (.error r, s') ∧ s'.files = s.files ∧ s'.output = s.output := by
  have kept := hx s.files (d.toDot (quotingFor o.escapeQuotes)) o.engine o.format
  have failed : x.render s.files (d.toDot (quotingFor o.escapeQuotes)) o.engine o.format =
      (.error e, s.files) := Prod.ext he kept
  rw [run, Files.loadInput_eq_ok_iff.mpr hd]
  simp only [Exporter.renderToFile, Session.note, failed]
  exact ⟨_, _, rfl, rfl, rfl⟩

/-- A description is written to a file exactly if it can be loaded and the file can be written, and
then nothing else changes. -/
theorem BuildOptions.run_of_output {o : BuildOptions} {p : Path} (s : Session)
    (ho : o.output = some p) :
    ((o.run s).1 = .ok () ↔
      (∃ g, s.files.Describes o.input g) ∧ (s.files.slot? p).isSome = true) ∧
    ∀ s', o.run s = (.ok (), s') → ∃ g, s.files.Describes o.input g ∧
      s'.files.read p = .ok (Octets.ofText (o.text g)) ∧ s.files.OnlyAt p s'.files ∧
      s'.output = s.output := by
  cases hl : s.files.loadDescription o.input with
  | error e =>
    have undescribed : ∀ g, ¬ s.files.Describes o.input g := by
      intro g hg
      rw [Files.loadDescription_eq_ok_iff.mpr hg] at hl
      cases hl
    have failed : o.run s = (.error (e.during "Failed to load " o.input), s) := by rw [run, hl]
    rw [failed]
    exact ⟨iff_of_false nofun (fun h => undescribed _ h.1.choose_spec), nofun⟩
  | ok g =>
    have described := Files.loadDescription_eq_ok_iff.mp hl
    rw [← Files.write_isOk_iff (Octets.ofText (o.text g)), run, hl]
    simp only [ho, Session.writeDot, Session.note, Session.noteLoaded, ← text.eq_def]
    cases hw : s.files.write p (Octets.ofText (o.text g)) with
    | error e => simp
    | ok f =>
      obtain ⟨content, only⟩ := Files.onlyAt_of_write hw
      refine ⟨iff_of_true rfl ⟨⟨g, described⟩, f, rfl⟩, ?_⟩
      rintro s' ⟨⟩
      exact ⟨g, described, content, only, rfl⟩

/-- Without an output a description that can be loaded is printed, and no file changes. -/
theorem BuildOptions.run_of_no_output {o : BuildOptions} {s : Session} {g : Graph}
    (ho : o.output = none) (hg : s.files.Describes o.input g) :
    ∃ s', o.run s = (.ok (), s') ∧ s'.files = s.files ∧ s'.output = s.output ++ o.text g := by
  rw [run, Files.loadDescription_eq_ok_iff.mpr hg]
  simp only [ho]
  exact ⟨_, rfl, rfl, rfl⟩

/-- **Commands that fail before they write leave everything as it is.** A description that cannot be
loaded, an input that cannot be loaded, and a batch that is refused leave the whole session as it
was, whatever the exporter would do, so that it is not run; a batch without inputs changes no file,
either. An exporter that fails and changes no files itself leaves the files as they were. Writing a
description to a file succeeds exactly if the description can be loaded and the file be written;
then the file holds the text of the graph and a line end, and nothing else has changed. Without a
file the same text is printed and no file changes. -/
theorem files_kept (s : Session) :
    (∀ o : BuildOptions, (∀ g, ¬ s.files.Describes o.input g) → ∃ r, o.run s = (.error r, s)) ∧
    (∀ o : RenderOptions, (∀ d, ¬ s.files.Supplies o.input d) →
      ∃ r, ∀ x : Exporter, o.run x s = (.error r, s)) ∧
    (∀ (o : RenderOptions) (x : Exporter) d e, x.KeepsFiles → s.files.Supplies o.input d →
      (x.render s.files (d.toDot (quotingFor o.escapeQuotes)) o.engine o.format).1 = .error e →
      ∃ r s', o.run x s = (.error r, s') ∧ s'.files = s.files ∧ s'.output = s.output) ∧
    (∀ o : BatchOptions, o.Refused s.files → ∃ r, ∀ x : Exporter, o.run x s = (.error r, s)) ∧
    (∀ o : BatchOptions, o.Idle s.files → ∃ s', (∀ x : Exporter, o.run x s = (.ok (), s')) ∧
      s'.files = s.files ∧ s'.output = s.output) ∧
    (∀ (o : BuildOptions) p, o.output = some p →
      ((o.run s).1 = .ok () ↔
        (∃ g, s.files.Describes o.input g) ∧ (s.files.slot? p).isSome = true) ∧
      ∀ s', o.run s = (.ok (), s') → ∃ g, s.files.Describes o.input g ∧
        s'.files.read p = .ok (Octets.ofText (o.text g)) ∧ s.files.OnlyAt p s'.files ∧
        s'.output = s.output) ∧
    (∀ (o : BuildOptions) g, o.output = none → s.files.Describes o.input g →
      ∃ s', o.run s = (.ok (), s') ∧ s'.files = s.files ∧ s'.output = s.output ++ o.text g) := by
  refine ⟨fun o h => ?_, fun o h => ?_, fun o x d e => RenderOptions.run_of_render_error,
    fun o => BatchOptions.Refused.run_eq, fun o => BatchOptions.Idle.run_eq,
    fun o p => BuildOptions.run_of_output s, fun o g => BuildOptions.run_of_no_output⟩
  · obtain ⟨e, he⟩ := exists_error_of_ne_ok fun g hg => h g (Files.loadDescription_eq_ok_iff.mp hg)
    exact ⟨_, by rw [BuildOptions.run, he]⟩
  · obtain ⟨e, he⟩ := exists_error_of_ne_ok fun d hd => h d (Files.loadInput_eq_ok_iff.mp hd)
    exact ⟨_, fun x => by rw [RenderOptions.run, he]⟩

/-- A description with a drawing beside it, and another description that is cut off. -/
theorem files_kept_sources :
    let f : Files := ⟨[], [(["in".toList], .directory),
      (["a.dot".toList, "in".toList], .file (Octets.ofText "graph \x7b\x7d".toList) false),
      (["a.json".toList, "in".toList], .file (Octets.ofText "\x7b\x7d".toList) false),
      (["b.json".toList], .file (Octets.ofText "\x7b".toList) false)]⟩
    let s := Session.start f
    let unable : Exporter := .ofFunction fun _ _ _ => .error (.engineNotFound "dot".toList)
    let build (input : Text) (output : Option Path) : BuildOptions := ⟨input, output, true⟩
    let render (input : Text) : RenderOptions :=
      ⟨input, "in/a.dot".toList, .dot, .svg, "dot".toList, false⟩
    let batch (pattern : Text) : BatchOptions :=
      ⟨pattern, "in".toList, .dot, .svg, "dot".toList, false⟩
    (∃ r, (build "b.json".toList (some "in/a.dot".toList)).run s = (.error r, s)) ∧
      (∃ r, ∀ x, (render "b.json".toList).run x s = (.error r, s)) ∧
      (∃ r s', (render "in/a.json".toList).run unable s = (.error r, s') ∧ s'.files = f ∧
        s'.output = []) ∧
      (∃ r, ∀ x, (batch "in/[".toList).run x s = (.error r, s)) ∧
      (∃ r, ∀ x, (batch "in/*".toList).run x s = (.error r, s)) ∧
      (∃ s', (∀ x, (batch "out/*".toList).run x s = (.ok (), s')) ∧ s'.files = f ∧
        s'.output = []) ∧
      (∃ s', (build "in/a.json".toList (some "in/a.dot".toList)).run s = (.ok (), s') ∧
        s'.files.read "in/a.dot".toList = .ok (Octets.ofText "graph \x7b\n\x7d\n".toList) ∧
        f.OnlyAt "in/a.dot".toList s'.files) ∧
      ∃ s', (build "in/a.json".toList none).run s = (.ok (), s') ∧ s'.files = f ∧
        s'.output = "graph \x7b\n\x7d\n".toList := by
  intro f s unable build render batch
  have hcut : (f.loadDescription "b.json".toList).isOk = false := by decide +kernel
  have cut : ∀ g, ¬ f.Describes "b.json".toList g := by
    intro g hg
    rw [Files.loadDescription_eq_ok_iff.mpr hg] at hcut
    cases hcut
  have unsupplied : ∀ d, ¬ f.Supplies "b.json".toList d := by
    rintro (t | g) hd
    · cases hd.1
    · exact cut g hd
  have described : f.Describes "in/a.json".toList (.empty none false) :=
    Files.loadDescription_eq_ok_iff.mp (by decide +kernel)
  -- a sort of what is in order already is not computed
  have listed : f.names "in".toList = ["a.dot".toList, "a.json".toList] :=
    List.mergeSort_of_pairwise (by decide)
  have searched : Glob.find f "in/*".toList = .ok ((f.names "in".toList).flatMap (fun n =>
      if Glob.accepts [.anySequence] n then [Glob.below "in".toList n] else [])) := rfl
  have matched : f.inputs "in/*".toList = .ok ["in/a.dot".toList, "in/a.json".toList] := by
    rw [Files.inputs, searched, listed]
    exact congrArg Except.ok (List.mergeSort_of_pairwise (by decide))
  have unmatched : Glob.find f "out/*".toList = .ok [] := by decide +kernel
  obtain ⟨unloaded, unrendered, unexported, refused, idle, written, printed⟩ := files_kept s
  refine ⟨unloaded _ cut, unrendered _ unsupplied, ?_, ?_, ?_, ?_, ?_, ?_⟩
  · exact unexported _ unable (.graph (.empty none false)) _ (Exporter.keepsFiles_ofFunction _)
      described rfl
  · have unclosed : Glob.components "in/[".toList = .error ⟨3, .brackets⟩ := by decide +kernel
    exact refused _ (.pattern unclosed)
  · exact refused _ (.shared matched (List.Sublist.refl _) (by decide +kernel))
  · exact idle (batch "out/*".toList) ⟨[], unmatched, nofun⟩
  · obtain ⟨succeeds, gives⟩ := written (build "in/a.json".toList (some "in/a.dot".toList)) _ rfl
    have ok := succeeds.mpr ⟨⟨_, described⟩, by decide +kernel⟩
    obtain ⟨g, hg, content, only, -⟩ := gives _ (Prod.ext ok rfl)
    obtain rfl := hg.unique described
    exact ⟨_, Prod.ext ok rfl, content, only⟩
  · exact printed (build "in/a.json".toList none) _ rfl described

end DotGraph
