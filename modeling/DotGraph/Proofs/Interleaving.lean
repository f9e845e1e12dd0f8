import DotGraph.Batch.Schedule
import DotGraph.Proofs.Outputs
import DotGraph.Proofs.Places

/-!
# Interleaved tasks

The outputs of a plan are in pairwise different places, and no input is in the place of another
task's output. So whatever the tasks do in between, each of them reads and writes what it would on
its own, and the files at the end do not depend on the schedule.

- `Batch.renderOne_eq`: what a task does on its own.
- `Batch.Sane.advance`: one step keeps the files as the finished tasks have left them.
- `Batch.Progress.play_delivers`: what every schedule ends with.
- `Batch.Progress.play_turns`: one task after the other is one of the schedules.
-/

set_option autoImplicit false

namespace DotGraph

namespace Files

theorem readText_congr {f g : Files} {p : Path} (h : ∀ c, g.read p = .ok c ↔ f.read p = .ok c)
    (t : Text) : g.readText p = .ok t ↔ f.readText p = .ok t := by
  unfold readText
  cases hf : f.read p with
  | ok c => rw [(h c).mpr hf]
  | error e =>
    cases hg : g.read p with
    | ok c =>
      rw [(h c).mp hg] at hf
      cases hf
    | error e' => simp

/-- What is loaded hangs only on what can be read. -/
theorem loadInput_congr {f g : Files} {p : Path} (h : ∀ c, g.read p = .ok c ↔ f.read p = .ok c)
    (d : Document) : g.loadInput p = .ok d ↔ f.loadInput p = .ok d := by
  have text := readText_congr h
  unfold loadInput loadDescription inputText
  cases hf : f.readText p with
  | ok t => rw [(text t).mpr hf]
  | error e =>
    cases hg : g.readText p with
    | ok t =>
      rw [(text t).mp hg] at hf
      cases hf
    | error e' => cases InputKind.ofPath p with
      | error e => simp
      | ok k => cases k <;> simp

theorem slot?_eq_some {f : Files} {path : Path} {p : Place} {x : Bool}
    (h : f.slot? path = some (p, x)) : ∃ q n, p = n :: q ∧
      f.target path = .ok (.entry q n false) ∧ f.get? p ≠ some .directory := by
  unfold slot? at h
  split at h
  · rename_i q n ht
    split at h
    · rename_i hi
      cases h
      exact ⟨q, n, rfl, ht, by simp [hi]⟩
    · rename_i hi
      cases h
      exact ⟨q, n, rfl, ht, by simp [hi]⟩
    · cases h
  · cases h

/-- What can be written at the end of a path hangs on the directories and on what is there. -/
theorem slot?_congr {f g : Files} (h : Keeps f g) (h' : Keeps g f) {path : Path}
    (hp : ∀ p n, f.target path = .ok (.entry p n false) → g.get? (n :: p) = f.get? (n :: p)) :
    g.slot? path = f.slot? path := by
  unfold slot?
  cases hf : f.target path with
  | ok t =>
    rw [h.target hf]
    cases t with
    | directory p => rfl
    | entry p n slash =>
      cases slash with
      | true => rfl
      | false => simp only [hp p n hf]
  | error e =>
    cases hg : g.target path with
    | ok t =>
      rw [h'.target hg] at hf
      cases hf
    | error e' => rfl

end Files

namespace Batch

/-! ## One task on its own -/

section

variable (make : Text → Engine → ImageFormat → Except Error Octets) (o : BatchOptions) (f : Files)

/-- The image of an input, made of what is in the files. -/
def image (input : Path) : Except Error Octets :=
  match f.loadInput input with
  | .error e => .error e
  | .ok d => make (d.toDot (quotingFor o.escapeQuotes)) o.engine o.format

/-- What a task puts where: the image of its input in the place of its output, if there are both. -/
def delivery? (task : Path × Path) : Option (Place × Item) :=
  match image make o f task.1, f.slot? task.2 with
  | .ok c, some (p, x) => some (p, .file c x)
  | _, _ => none

end

variable {make : Text → Engine → ImageFormat → Except Error Octets} {o : BatchOptions} {f : Files}

theorem delivery?_eq_some_iff {task : Path × Path} {p : Place} {i : Item} :
    delivery? make o f task = some (p, i) ↔
      ∃ c x, image make o f task.1 = .ok c ∧ f.slot? task.2 = some (p, x) ∧ i = .file c x := by
  unfold delivery?
  cases image make o f task.1 with
  | error e => simp
  | ok c =>
    cases f.slot? task.2 with
    | none => simp
    | some s =>
      obtain ⟨q, x⟩ := s
      constructor
      · rintro ⟨⟩
        exact ⟨c, x, rfl, rfl, rfl⟩
      · rintro ⟨_, _, ⟨⟩, ⟨⟩, rfl⟩
        rfl

/-- A task on its own does what it delivers, and if that is nothing, it fails and leaves the files
alone. -/
theorem renderOne_eq {task : Path × Path} (hd : f.provides (Path.parent task.2) = true) :
    match delivery? make o f task with
    | some (p, i) => renderOne (.ofFunction make) o f task = (.ok (), f.put p i)
    | none => ∃ e, renderOne (.ofFunction make) o f task = (.error e, f) := by
  unfold delivery? image renderOne
  cases f.loadInput task.1 with
  | error e => exact ⟨e, rfl⟩
  | ok d =>
    simp only [Exporter.renderToFile, Exporter.ofFunction]
    cases make (d.toDot (quotingFor o.escapeQuotes)) o.engine o.format with
    | error e => exact ⟨e, rfl⟩
    | ok c =>
      simp only [Files.makeDirectories_of_provides hd]
      cases hw : f.write task.2 c with
      | ok g =>
        obtain ⟨p, x, hs, rfl⟩ := Files.write_eq_ok_iff.mp hw
        simp only [hs]
      | error e =>
        cases hs : f.slot? task.2 with
        | none => exact ⟨_, rfl⟩
        | some s =>
          rw [Files.write_eq_ok_iff.mpr ⟨s.1, s.2, hs, rfl⟩] at hw
          cases hw

/-- A task that waits and has four turns is rendered as it is on its own. -/
theorem next_four (x : Exporter) (o : BatchOptions) (f : Files) (task : Path × Path) :
    let turn := fun s : Phase × Files => s.1.next x o task s.2
    turn (turn (turn (turn (.waiting, f)))) = match renderOne x o f task with
      | (.ok (), g) => (.rendered, g)
      | (.error e, g) => (.failed e, g) := by
  intro turn
  simp only [turn, Phase.next, renderOne, Exporter.renderToFile]
  cases f.loadInput task.1 with
  | error e => rfl
  | ok d =>
    simp only
    cases hx : x.render f (d.toDot (quotingFor o.escapeQuotes)) o.engine o.format with
    | mk r g =>
      cases r with
      | error e => rfl
      | ok c =>
        simp only
        cases hm : g.makeDirectories (Path.parent task.2) with
        | mk r h =>
          cases r with
          | error e => rfl
          | ok u =>
            simp only
            cases h.write task.2 c <;> rfl

/-! ## Planned tasks -/

section Planned

variable {inputs : List Path} {tasks : List (Path × Path)} {directory : Path} {e : Text}

/-- The tasks of a plan are pairwise different. -/
theorem tasks_nodup (hp : plan directory e inputs = .ok tasks) : tasks.Nodup := by
  rw [(plan_eq_ok_iff.mp hp).2]
  exact List.Nodup.map (fun i j h => congrArg Prod.fst h) (stems_nodup hp).of_map

theorem exists_of_mem_tasks (hp : plan directory e inputs = .ok tasks) {t : Path × Path}
    (ht : t ∈ tasks) : ∃ i ∈ inputs, t = task directory e i := by
  rw [(plan_eq_ok_iff.mp hp).2] at ht
  obtain ⟨i, hi, rfl⟩ := List.mem_map.mp ht
  exact ⟨i, hi, rfl⟩

variable (hs : ∀ p ∈ inputs, InputKind.supports p = true) (he : IsExtension e)
  (hp : plan directory e inputs = .ok tasks)

include hs he hp

/-- Where one task delivers, no other one has its output. -/
theorem eq_of_target_output {t u : Path × Path} (ht : t ∈ tasks) (hu : u ∈ tasks) {p : Place}
    {n : Text} {slash : Bool} {i : Item} (hi : delivery? make o f t = some (n :: p, i))
    (hout : f.target u.2 = .ok (.entry p n slash)) : t = u := by
  obtain ⟨a, ha, rfl⟩ := exists_of_mem_tasks hp ht
  obtain ⟨b, hb, rfl⟩ := exists_of_mem_tasks hp hu
  obtain ⟨_, _, _, hslot, -⟩ := delivery?_eq_some_iff.mp hi
  obtain ⟨_, _, ⟨⟩, hout', -⟩ := Files.slot?_eq_some hslot
  have same : a = b := eq_of_fileName?_outputPath_eq hp he ha hb
    (InputKind.fileName?_of_supports (hs a ha)) (InputKind.fileName?_of_supports (hs b hb))
    ((Files.fileName?_of_target hout').trans (Files.fileName?_of_target hout).symm)
  rw [same]

/-- Where one task delivers, no other one has its input. -/
theorem eq_of_target_input {t u : Path × Path} (ht : t ∈ tasks) (hu : u ∈ tasks) {p : Place}
    {n : Text} {slash : Bool} {i : Item} (hi : delivery? make o f t = some (n :: p, i))
    (hin : f.target u.1 = .ok (.entry p n slash)) : t = u := by
  obtain ⟨a, ha, rfl⟩ := exists_of_mem_tasks hp ht
  obtain ⟨b, hb, rfl⟩ := exists_of_mem_tasks hp hu
  obtain ⟨_, _, _, hslot, -⟩ := delivery?_eq_some_iff.mp hi
  obtain ⟨_, _, ⟨⟩, hout, -⟩ := Files.slot?_eq_some hslot
  have same := (eq_of_fileName?_eq hp he ha hb (InputKind.fileName?_of_supports (hs a ha))
    (Files.fileName?_of_target hin) (Files.fileName?_of_target hout)).1
  rw [same]

/-- The outputs lie in the directory. -/
theorem provides_of_mem_tasks (hd : f.provides directory = true) {t : Path × Path}
    (ht : t ∈ tasks) : f.provides (Path.parent t.2) = true := by
  obtain ⟨a, ha, rfl⟩ := exists_of_mem_tasks hp ht
  obtain ⟨n, hn⟩ := InputKind.fileName?_of_supports (hs a ha)
  obtain ⟨hname, houtput⟩ := outputPath_of_fileName? directory hn he
  rw [task, houtput]
  exact Files.provides_parent hname hd

end Planned

/-! ## Invariant -/

section

variable (make : Text → Engine → ImageFormat → Except Error Octets) (o : BatchOptions) (f : Files)

/-- A thread that has come as far as its task would on its own. -/
def Agrees (t : Thread) : Prop :=
  match t.phase with
  | .waiting => True
  | .loaded d => f.loadInput t.task.1 = .ok d
  | .made c => image make o f t.task.1 = .ok c
  | .placed c => image make o f t.task.1 = .ok c
  | .rendered => (delivery? make o f t.task).isSome = true
  | .failed _ => delivery? make o f t.task = none

/-- What the rendered ones among some threads have put where. -/
def Delivered (threads : List Thread) (p : Place) (i : Item) : Prop :=
  ∃ t ∈ threads, t.phase.isRendered = true ∧ delivery? make o f t.task = some (p, i)

/-- What holds of the tasks and the files all the time: every task is where it would be on its own,
and the files are as they were but for what has been delivered. -/
structure Sane (tasks : List (Path × Path)) (s : Progress) : Prop where
  tasks : s.threads.map Thread.task = tasks
  agrees : ∀ t ∈ s.threads, Agrees make o f t
  working : s.files.working = f.working
  written : ∀ p i, Delivered make o f s.threads p i → s.files.get? p = some i
  kept : ∀ p, (∀ i, ¬ Delivered make o f s.threads p i) → s.files.get? p = f.get? p

end

theorem map_task_set {threads : List Thread} {k : Nat} {t : Thread} (ht : threads[k]? = some t)
    (phase : Phase) :
    (threads.set k ⟨t.task, phase⟩).map Thread.task = threads.map Thread.task := by
  obtain ⟨hk, rfl⟩ := List.getElem?_eq_some_iff.mp ht
  have self : (threads.map Thread.task).set k _ = _ :=
    List.set_getElem_self (by simpa using hk)
  rw [List.getElem_map] at self
  rw [List.map_set, self]

/-- When a thread goes on, nothing is delivered but by this thread. -/
theorem delivered_set_iff {threads : List Thread} {k : Nat} {t : Thread} {phase : Phase}
    (ht : threads[k]? = some t) (hr : t.phase.isRendered = false) {p : Place} {i : Item} :
    Delivered make o f (threads.set k ⟨t.task, phase⟩) p i ↔ Delivered make o f threads p i ∨
      phase.isRendered = true ∧ delivery? make o f t.task = some (p, i) := by
  have hk : k < threads.length := (List.getElem?_eq_some_iff.mp ht).1
  constructor
  · rintro ⟨u, hu, hphase, hdelivery⟩
    rcases List.mem_or_eq_of_mem_set hu with hu | rfl
    · exact .inl ⟨u, hu, hphase, hdelivery⟩
    · exact .inr ⟨hphase, hdelivery⟩
  · rintro (⟨u, hu, hphase, hdelivery⟩ | ⟨hphase, hdelivery⟩)
    · obtain ⟨j, hj⟩ := List.mem_iff_getElem?.mp hu
      have hjk : k ≠ j := by
        rintro rfl
        rw [ht, Option.some.injEq] at hj
        rw [hj, hphase] at hr
        cases hr
      refine ⟨u, List.mem_iff_getElem?.mpr ⟨j, ?_⟩, hphase, hdelivery⟩
      rw [List.getElem?_set_ne hjk, hj]
    · exact ⟨_, List.mem_set hk _, hphase, hdelivery⟩

namespace Sane

variable {inputs : List Path} {tasks : List (Path × Path)} {s : Progress}

theorem start (tasks : List (Path × Path)) : Sane make o f tasks (Progress.start tasks f) := by
  have nothing : ∀ p i, ¬ Delivered make o f (Progress.start tasks f).threads p i := by
    rintro p i ⟨t, ht, hr, -⟩
    obtain ⟨u, -, rfl⟩ := List.mem_map.mp ht
    cases hr
  refine ⟨?_, ?_, rfl, fun p i h => absurd h (nothing p i), fun p _ => rfl⟩
  · simp [Progress.start, Function.comp_def]
  · intro t ht
    obtain ⟨u, -, rfl⟩ := List.mem_map.mp ht
    trivial

theorem task_mem (h : Sane make o f tasks s) {t : Thread} (ht : t ∈ s.threads) :
    t.task ∈ tasks := by
  rw [← h.tasks]
  exact List.mem_map_of_mem ht

/-- No directory has been lost, and none has been added. -/
theorem keeps (h : Sane make o f tasks s) : f.Keeps s.files ∧ s.files.Keeps f := by
  have apart : ∀ p i, Delivered make o f s.threads p i →
      i ≠ .directory ∧ f.get? p ≠ some .directory := by
    rintro p i ⟨t, -, -, hd⟩
    obtain ⟨c, x, -, hslot, rfl⟩ := delivery?_eq_some_iff.mp hd
    obtain ⟨q, n, rfl, -, hf⟩ := Files.slot?_eq_some hslot
    exact ⟨nofun, hf⟩
  refine ⟨⟨h.working, fun p hp => ?_⟩, ⟨h.working.symm, fun p hp => ?_⟩⟩
  · rw [h.kept p (fun i hi => (apart p i hi).2 hp), hp]
  · rw [← h.kept p (fun i hi => ?_), hp]
    have put := h.written p i hi
    rw [hp, Option.some.injEq] at put
    exact (apart p i hi).1 put.symm

/-- A thread that goes on without having rendered anything. -/
theorem set (h : Sane make o f tasks s) {k : Nat} {t : Thread} {phase : Phase}
    (ht : s.threads[k]? = some t) (hr : t.phase.isRendered = false)
    (hphase : phase.isRendered = false) (ha : Agrees make o f ⟨t.task, phase⟩) :
    Sane make o f tasks ⟨s.threads.set k ⟨t.task, phase⟩, s.files⟩ := by
  have same : ∀ p i, Delivered make o f (s.threads.set k ⟨t.task, phase⟩) p i ↔
      Delivered make o f s.threads p i := by
    intro p i
    rw [delivered_set_iff ht hr, hphase]
    simp
  refine ⟨?_, ?_, h.working, fun p i hi => h.written p i ((same p i).mp hi),
    fun p hp => h.kept p (fun i hi => hp i ((same p i).mpr hi))⟩
  · exact (map_task_set ht phase).trans h.tasks
  · intro u hu
    rcases List.mem_or_eq_of_mem_set hu with hu | rfl
    · exact h.agrees u hu
    · exact ha

section Step

variable (hp : plan o.directory o.format.extension inputs = .ok tasks)

include hp

/-- Until its own output is written, a thread finds what it delivers to and its input as they were
at the beginning. -/
theorem untouched (h : Sane make o f tasks s) {t : Thread} (ht : t ∈ s.threads)
    (hr : t.phase.isRendered = false) {p : Place}
    (hu : ∀ u ∈ tasks, ∀ i, delivery? make o f u = some (p, i) → u = t.task) :
    s.files.get? p = f.get? p := by
  refine h.kept p ?_
  rintro i ⟨v, hv, hphase, hi⟩
  have hvt : v = t := List.inj_on_of_nodup_map (h.tasks ▸ tasks_nodup hp) hv ht
    (hu v.task (h.task_mem hv) i hi)
  rw [← hvt, hphase] at hr
  cases hr

variable (hs : ∀ p ∈ inputs, InputKind.supports p = true)

include hs

theorem loadInput_iff (h : Sane make o f tasks s) {t : Thread} (ht : t ∈ s.threads)
    (hr : t.phase.isRendered = false) (d : Document) :
    s.files.loadInput t.task.1 = .ok d ↔ f.loadInput t.task.1 = .ok d := by
  have same : ∀ q n slash, f.target t.task.1 = .ok (.entry q n slash) →
      s.files.get? (n :: q) = f.get? (n :: q) := fun q n slash hin =>
    h.untouched hp ht hr (fun u hu i hi =>
      eq_of_target_input hs o.format.isExtension hp hu (h.task_mem ht) hi hin)
  obtain ⟨forth, back⟩ := h.keeps
  refine Files.loadInput_congr (fun c => ?_) d
  rw [Files.read_eq_ok_iff, Files.read_eq_ok_iff]
  exact exists_congr (fun x => forth.lookup_iff back same _)

theorem slot?_eq (h : Sane make o f tasks s) {t : Thread} (ht : t ∈ s.threads)
    (hr : t.phase.isRendered = false) : s.files.slot? t.task.2 = f.slot? t.task.2 := by
  refine Files.slot?_congr h.keeps.1 h.keeps.2 (fun q n hout => ?_)
  exact h.untouched hp ht hr (fun u hu i hi =>
    eq_of_target_output hs o.format.isExtension hp hu (h.task_mem ht) hi hout)

/-- A thread that puts its output where its task delivers it. -/
theorem deliver (h : Sane make o f tasks s) {k : Nat} {t : Thread} (ht : s.threads[k]? = some t)
    (hr : t.phase.isRendered = false) {p : Place} {i : Item}
    (hd : delivery? make o f t.task = some (p, i)) :
    Sane make o f tasks ⟨s.threads.set k ⟨t.task, .rendered⟩, s.files.put p i⟩ := by
  have ht' := List.mem_of_getElem? ht
  obtain ⟨_, _, -, hslot, -⟩ := delivery?_eq_some_iff.mp hd
  obtain ⟨q, n, rfl, hout, -⟩ := Files.slot?_eq_some hslot
  have get : ∀ r, (s.files.put (n :: q) i).get? r = if r = n :: q then some i else s.files.get? r :=
    s.files.get?_put (List.cons_ne_nil n q) i
  have delivered : ∀ r j, Delivered make o f (s.threads.set k ⟨t.task, .rendered⟩) r j ↔
      Delivered make o f s.threads r j ∨ r = n :: q ∧ j = i := by
    intro r j
    rw [delivered_set_iff ht hr, hd]
    simp [Phase.isRendered, eq_comm]
  refine ⟨(map_task_set ht .rendered).trans h.tasks, ?_, h.working, ?_, ?_⟩
  · intro u hu
    rcases List.mem_or_eq_of_mem_set hu with hu | rfl
    · exact h.agrees u hu
    · simp [Agrees, hd]
  · intro r j hj
    rw [get]
    rcases (delivered r j).mp hj with hj | ⟨rfl, rfl⟩
    · -- another task cannot have delivered to this place
      have hne : r ≠ n :: q := by
        rintro rfl
        obtain ⟨v, hv, hphase, hdv⟩ := hj
        have same := eq_of_target_output hs o.format.isExtension hp (h.task_mem hv)
          (h.task_mem ht') hdv hout
        have hvt : v = t := List.inj_on_of_nodup_map (h.tasks ▸ tasks_nodup hp) hv ht' same
        rw [← hvt, hphase] at hr
        cases hr
      rw [if_neg hne]
      exact h.written r j hj
    · rw [if_pos rfl]
  · intro r hfree
    have hne : r ≠ n :: q := fun e => hfree i ((delivered r i).mpr (.inr ⟨e, rfl⟩))
    rw [get, if_neg hne]
    exact h.kept r (fun j hj => hfree j ((delivered r j).mpr (.inl hj)))

/-- **A step of any thread keeps the invariant.** -/
theorem advance (hdir : f.provides o.directory = true) (h : Sane make o f tasks s) (k : Nat) :
    Sane make o f tasks (s.advance (.ofFunction make) o k) := by
  rw [Progress.advance]
  cases ht : s.threads[k]? with
  | none => exact h
  | some t =>
    have ht' := List.mem_of_getElem? ht
    have ha := h.agrees t ht'
    obtain ⟨task, phase⟩ := t
    simp only
    cases phase with
    | waiting =>
      rw [Phase.next]
      have input := h.loadInput_iff hp hs ht' rfl
      cases hl : s.files.loadInput task.1 with
      | ok d => exact h.set ht rfl rfl ((input d).mp hl)
      | error e =>
        refine h.set ht rfl rfl ?_
        rw [Agrees, delivery?, image]
        cases hf : f.loadInput task.1 with
        | ok d =>
          rw [(input d).mpr hf] at hl
          cases hl
        | error e' => rfl
    | loaded d =>
      simp only [Phase.next, Exporter.ofFunction]
      replace ha : f.loadInput task.1 = .ok d := ha
      have himage : image make o f task.1 =
          make (d.toDot (quotingFor o.escapeQuotes)) o.engine o.format := by rw [image, ha]
      cases hm : make (d.toDot (quotingFor o.escapeQuotes)) o.engine o.format with
      | ok c => exact h.set ht rfl rfl (himage.trans hm)
      | error e => exact h.set ht rfl rfl (by rw [Agrees, delivery?, himage, hm])
    | made c =>
      have parent := provides_of_mem_tasks hs o.format.isExtension hp hdir (h.task_mem ht')
      rw [Phase.next, Files.makeDirectories_of_provides (h.keeps.1.provides parent)]
      exact h.set ht rfl rfl ha
    | placed c =>
      rw [Phase.next]
      replace ha : image make o f task.1 = .ok c := ha
      have slot := h.slot?_eq hp hs ht' rfl
      cases hw : s.files.write task.2 c with
      | ok g =>
        obtain ⟨p, x, hslot, rfl⟩ := Files.write_eq_ok_iff.mp hw
        exact h.deliver hp hs ht rfl
          (delivery?_eq_some_iff.mpr ⟨c, x, ha, slot ▸ hslot, rfl⟩)
      | error e =>
        refine h.set ht rfl rfl ?_
        rw [Agrees, delivery?, ha]
        cases hslot : f.slot? task.2 with
        | none => rfl
        | some a =>
          rw [Files.write_eq_ok_iff.mpr ⟨a.1, a.2, slot.trans hslot, rfl⟩] at hw
          cases hw
    | rendered =>
      obtain ⟨hk, hself⟩ := List.getElem?_eq_some_iff.mp ht
      rw [Phase.next, ← hself, List.set_getElem_self]
      exact h
    | failed e =>
      obtain ⟨hk, hself⟩ := List.getElem?_eq_some_iff.mp ht
      rw [Phase.next, ← hself, List.set_getElem_self]
      exact h

/-- Every schedule keeps the invariant. -/
theorem play (hdir : f.provides o.directory = true) (schedule : List Nat) :
    ∀ {s : Progress}, Sane make o f tasks s →
      Sane make o f tasks (s.play (.ofFunction make) o schedule) := by
  induction schedule with
  | nil => exact fun h => h
  | cons k r ih => exact fun h => ih (h.advance hp hs hdir k)

end Step

/-! ## The end -/

/-- A thread that is over has rendered its output if there was one to deliver. -/
theorem isRendered_eq (h : Sane make o f tasks s) {t : Thread} (ht : t ∈ s.threads)
    (ho : t.phase.isOver = true) : t.phase.isRendered = (delivery? make o f t.task).isSome := by
  have ha := h.agrees t ht
  rw [Agrees] at ha
  cases hphase : t.phase with
  | rendered =>
    rw [hphase] at ha
    exact ha.symm
  | failed e =>
    rw [hphase] at ha
    replace ha : delivery? make o f t.task = none := ha
    rw [ha]
    rfl
  | waiting => simp [hphase, Phase.isOver, Phase.isRendered, Phase.isFailed] at ho
  | loaded d => simp [hphase, Phase.isOver, Phase.isRendered, Phase.isFailed] at ho
  | made c => simp [hphase, Phase.isOver, Phase.isRendered, Phase.isFailed] at ho
  | placed c => simp [hphase, Phase.isOver, Phase.isRendered, Phase.isFailed] at ho

/-- When all threads are over, the files are what the tasks deliver, over what was there. -/
theorem get?_of_isOver (h : Sane make o f tasks s) (ho : s.isOver = true) (p : Place) :
    s.files.get? p = ((tasks.filterMap (delivery? make o f)).lookup p).or (f.get? p) := by
  have ended := List.all_eq_true.mp ho
  have delivered : ∀ i, Delivered make o f s.threads p i ↔
      (p, i) ∈ tasks.filterMap (delivery? make o f) := by
    intro i
    rw [← h.tasks, List.mem_filterMap]
    constructor
    · rintro ⟨t, ht, -, hi⟩
      exact ⟨t.task, List.mem_map_of_mem ht, hi⟩
    · rintro ⟨_, hu, hi⟩
      obtain ⟨t, ht, rfl⟩ := List.mem_map.mp hu
      exact ⟨t, ht, by rw [h.isRendered_eq ht (ended t ht), hi]; rfl, hi⟩
  cases hf : (tasks.filterMap (delivery? make o f)).lookup p with
  | some i =>
    obtain ⟨before, after, split, -⟩ := List.lookup_eq_some_iff.mp hf
    have mem : (p, i) ∈ tasks.filterMap (delivery? make o f) := by
      rw [split]
      exact List.mem_append_right _ (List.mem_cons_self ..)
    exact h.written p i ((delivered i).mpr mem)
  | none =>
    refine h.kept p (fun i hi => ?_)
    have other := List.lookup_eq_none_iff.mp hf _ ((delivered i).mp hi)
    simp at other

/-- When all threads are over, those have rendered that had an output to deliver. -/
theorem summary_of_isOver (h : Sane make o f tasks s) (ho : s.isOver = true) :
    s.summary.rendered = (tasks.filterMap (delivery? make o f)).length ∧
      s.summary.rendered + s.summary.failed = tasks.length := by
  have ended := List.all_eq_true.mp ho
  constructor
  · rw [Progress.summary, List.length_filterMap_eq_countP, ← h.tasks, List.countP_map]
    exact List.countP_congr
      (fun t ht => by rw [h.isRendered_eq ht (ended t ht), Function.comp_apply])
  · rw [Progress.summary, ← h.tasks, List.length_map,
      List.length_eq_countP_add_countP (fun t : Thread => t.phase.isRendered)]
    congr 1
    refine List.countP_congr (fun t ht => ?_)
    have hover := ended t ht
    cases hphase : t.phase <;> simp_all [Phase.isOver, Phase.isRendered, Phase.isFailed]

end Sane

/-! ## Schedules -/

namespace Phase

theorem stepsLeft_eq_zero_iff {phase : Phase} : phase.stepsLeft = 0 ↔ phase.isOver = true := by
  cases phase <;> simp [stepsLeft, isOver, isRendered, isFailed]

/-- A step brings a task closer to its end. -/
theorem stepsLeft_next (x : Exporter) (o : BatchOptions) (task : Path × Path) (f : Files)
    (phase : Phase) : (phase.next x o task f).1.stepsLeft ≤ phase.stepsLeft - 1 := by
  cases phase with
  | waiting => rw [next]; split <;> simp [stepsLeft]
  | loaded d => rw [next]; split <;> simp [stepsLeft]
  | made c => rw [next]; split <;> simp [stepsLeft]
  | placed c => rw [next]; split <;> simp [stepsLeft]
  | rendered => exact Nat.le_refl 0
  | failed e => exact Nat.le_refl 0

end Phase

namespace Progress

variable {x : Exporter}

/-- How many steps the task with a number takes at most. -/
def stepsLeft (s : Progress) (i : Nat) : Nat :=
  (s.threads[i]?.map (fun t => t.phase.stepsLeft)).getD 0

theorem stepsLeft_advance (s : Progress) (k i : Nat) :
    (s.advance x o k).stepsLeft i ≤ s.stepsLeft i - [k].count i := by
  rw [advance]
  cases ht : s.threads[k]? with
  | none =>
    by_cases hk : k = i
    · subst hk
      simp [stepsLeft, ht]
    · simp [hk]
  | some t =>
    by_cases hk : k = i
    · subst hk
      obtain ⟨hlt, rfl⟩ := List.getElem?_eq_some_iff.mp ht
      simpa [stepsLeft, hlt] using
        Phase.stepsLeft_next x o s.threads[k].task s.files s.threads[k].phase
    · simp [stepsLeft, List.getElem?_set_ne hk, hk]

theorem stepsLeft_play (schedule : List Nat) (i : Nat) : ∀ s : Progress,
    (s.play x o schedule).stepsLeft i ≤ s.stepsLeft i - schedule.count i := by
  induction schedule with
  | nil => exact fun s => Nat.le_refl _
  | cons k r ih =>
    intro s
    have first := stepsLeft_advance (x := x) (o := o) s k i
    have rest := ih (s.advance x o k)
    rw [play, List.foldl_cons, ← play, List.count_cons]
    rw [List.count_cons, List.count_nil] at first
    omega

/-- A schedule with four turns for each task ends. -/
theorem isOver_play {tasks : List (Path × Path)} {schedule : List Nat}
    (h : ∀ i < tasks.length, 4 ≤ schedule.count i) :
    ((start tasks f).play x o schedule).isOver = true := by
  rw [isOver, List.all_eq_true]
  intro t ht
  obtain ⟨i, hi⟩ := List.mem_iff_getElem?.mp ht
  have left := stepsLeft_play (x := x) (o := o) schedule i (start tasks f)
  have none : ((start tasks f).play x o schedule).stepsLeft i = 0 := by
    by_cases hlt : i < tasks.length
    · have begin : (start tasks f).stepsLeft i = 4 := by
        simp [stepsLeft, start, hlt, Phase.stepsLeft]
      have four := h i hlt
      omega
    · have begin : (start tasks f).stepsLeft i = 0 := by
        simp [stepsLeft, start, hlt]
      omega
  rw [stepsLeft, hi] at none
  exact Phase.stepsLeft_eq_zero_iff.mp none

/-! ### One after the other -/

theorem advance_append (done r : List Thread) (task : Path × Path) (phase : Phase) (g : Files) :
    advance x o ⟨done ++ ⟨task, phase⟩ :: r, g⟩ done.length =
      ⟨done ++ ⟨task, (phase.next x o task g).1⟩ :: r, (phase.next x o task g).2⟩ := by
  rw [advance]
  simp

/-- Four steps of a waiting task render its input. -/
theorem play_four (done r : List Thread) (task : Path × Path) (g : Files) :
    play x o ⟨done ++ ⟨task, .waiting⟩ :: r, g⟩ (List.replicate 4 done.length) =
      match renderOne x o g task with
      | (.ok (), h) => ⟨done ++ ⟨task, .rendered⟩ :: r, h⟩
      | (.error e, h) => ⟨done ++ ⟨task, .failed e⟩ :: r, h⟩ := by
  have four := next_four x o g task
  simp only [play, List.replicate, List.foldl_cons, List.foldl_nil, advance_append]
  simp only at four
  rw [four]
  cases renderOne x o g task with
  | mk result h => cases result <;> rfl

theorem play_turns_from (tasks : List (Path × Path)) : ∀ (done : List Thread) (g : Files),
    let s := play x o ⟨done ++ tasks.map (fun t => ⟨t, .waiting⟩), g⟩
      (turns done.length tasks.length)
    s.files = (renderAll x o g tasks).2 ∧
      s.failures = failures ⟨done, g⟩ ++ (renderAll x o g tasks).1 := by
  induction tasks with
  | nil =>
    intro done g
    simp [turns, play, renderAll, failures]
  | cons t r ih =>
    intro done g
    have schedule : turns done.length (t :: r).length =
        List.replicate 4 done.length ++ turns (done.length + 1) r.length := by
      simp [turns, List.range'_succ]
    rw [schedule, play, List.foldl_append, ← play, ← play, List.map_cons, play_four, renderAll]
    cases renderOne x o g t with
    | mk result h =>
      cases result with
      | ok u =>
        have rest := ih (done ++ [⟨t, .rendered⟩]) h
        simp only [List.length_append, List.length_singleton, List.append_assoc,
          List.singleton_append] at rest
        simpa [failures, Phase.error?] using rest
      | error e =>
        have rest := ih (done ++ [⟨t, .failed e⟩]) h
        simp only [List.length_append, List.length_singleton, List.append_assoc,
          List.singleton_append] at rest
        simpa [failures, Phase.error?] using rest

/-- **Rendering the inputs of a plan one after the other is one of the schedules.** -/
theorem play_turns (x : Exporter) (o : BatchOptions) (f : Files) (tasks : List (Path × Path)) :
    let s := (start tasks f).play x o (turns 0 tasks.length)
    (s.failures, s.files) = renderAll x o f tasks := by
  obtain ⟨hfiles, hfailures⟩ := play_turns_from (x := x) (o := o) tasks [] f
  exact Prod.ext hfailures hfiles

/-! ### Any schedule -/

/-- **Every schedule that gives each task its turns ends, and every one that ends leaves the same
files.** Where a task delivers, there is what it delivers on the files of the beginning, and all
other places are as they were. Exactly the tasks that deliver something have been rendered. -/
theorem play_delivers {inputs : List Path} {tasks : List (Path × Path)}
    (hs : ∀ p ∈ inputs, InputKind.supports p = true)
    (hp : plan o.directory o.format.extension inputs = .ok tasks)
    (hdir : f.provides o.directory = true) :
    (∀ schedule : List Nat, (∀ i < inputs.length, 4 ≤ schedule.count i) →
      ((start tasks f).play (.ofFunction make) o schedule).isOver = true) ∧
    ∀ schedule s, (start tasks f).play (.ofFunction make) o schedule = s →
      s.isOver = true →
        s.files.working = f.working ∧
        (∀ p, s.files.get? p =
          ((tasks.filterMap (delivery? make o f)).lookup p).or (f.get? p)) ∧
        s.threads.map Thread.task = tasks ∧
        (∀ t ∈ s.threads, t.phase.isRendered = (delivery? make o f t.task).isSome) ∧
        s.summary.rendered = (tasks.filterMap (delivery? make o f)).length ∧
        s.summary.rendered + s.summary.failed = inputs.length := by
  have length : tasks.length = inputs.length := by
    rw [(plan_eq_ok_iff.mp hp).2, List.length_map]
  refine ⟨fun schedule fair => isOver_play (by rwa [length]), ?_⟩
  rintro schedule s rfl ended
  have sane := (@Sane.start make o f tasks).play hp hs hdir schedule
  obtain ⟨rendered, all⟩ := sane.summary_of_isOver ended
  exact ⟨sane.working, sane.get?_of_isOver ended, sane.tasks,
    fun t ht => sane.isRendered_eq ht (List.all_eq_true.mp ended t ht), rendered, length ▸ all⟩

/-- The outputs may lie beside the inputs: here one of three inputs is its own output, one makes a
new file, and one is missing. -/
theorem play_delivers_beside :
    let make := fun dot (_ : Engine) (_ : ImageFormat) => Except.ok (Octets.ofText ('/' :: dot))
    let o : BatchOptions := ⟨"in/*".toList, "in".toList, .dot, .dot, "dot".toList, false⟩
    let f : Files := ⟨[], [(["in".toList], .directory),
      (["a.gv".toList, "in".toList], .file [97] false),
      (["b.dot".toList, "in".toList], .file [98] false)]⟩
    let inputs := ["in/a.gv".toList, "in/b.dot".toList, "in/c.dot".toList]
    let tasks := [("in/a.gv".toList, "in/a.gv".toList), ("in/b.dot".toList, "in/b.gv".toList),
      ("in/c.dot".toList, "in/c.gv".toList)]
    let s := (start tasks f).play (.ofFunction make) o [1, 0, 2, 0, 1, 1, 0, 1, 0]
    (∀ p ∈ inputs, InputKind.supports p = true) ∧
      plan o.directory o.format.extension inputs = .ok tasks ∧
      f.provides o.directory = true ∧ s.isOver = true ∧
      s.files.get? ["a.gv".toList, "in".toList] = some (.file [47, 97] false) ∧
      s.files.get? ["b.gv".toList, "in".toList] = some (.file [47, 98] false) ∧
      s.files.get? ["b.dot".toList, "in".toList] = some (.file [98] false) ∧
      s.summary.rendered = 2 ∧ s.summary.rendered + s.summary.failed = 3 := by
  intro make o f inputs tasks s
  have hs : ∀ p ∈ inputs, InputKind.supports p = true := by decide
  have hp : plan o.directory o.format.extension inputs = .ok tasks := by decide
  have hdir : f.provides o.directory = true := by decide
  have ended : s.isOver = true := by decide +kernel
  obtain ⟨-, files, -, -, rendered, all⟩ :=
    (@play_delivers make o f inputs tasks hs hp hdir).2 _ s rfl ended
  refine ⟨hs, hp, hdir, ended, ?_, ?_, ?_, ?_, all⟩
  · rw [files]
    decide +kernel
  · rw [files]
    decide +kernel
  · rw [files]
    decide +kernel
  · rw [rendered]
    decide +kernel

end Progress

end Batch

end DotGraph
