import DotGraph.Files
import DotGraph.Proofs.Paths

/-!
# Where paths lead

A path leads somewhere by way of directories, so what it leads to does not change as long as these
are kept. What is at the end of a path is in a place named by the last part of the path.

- `Files.Keeps.target`: a tree that keeps the directories of another one leads paths to the same.
- `Files.fileName?_of_target`: a path leads to an entry of its own name.
- `Files.isDirectory_ofParts`: a path written with its parts alone leads to the same directory.
-/

set_option autoImplicit false

namespace DotGraph

/-- The parts of a path in characters. -/
theorem Path.parts_text (p : Path) : parts p =
    lead (List.splitOn '/' p) ++ (List.splitOn '/' p).filterMap Part.ofPiece? :=
  rfl

namespace Files

/-! ## Walking -/

theorem walk_append (f : Files) (p : Place) (l m : List Text) :
    f.walk p (l ++ m) = (f.walk p l).bind (fun q => f.walk q m) := by
  induction l generalizing p with
  | nil => rfl
  | cons s r ih =>
    rw [List.cons_append, walk, walk]
    cases f.enter p s with
    | error e => rfl
    | ok q => exact ih q

theorem walk_empty (f : Files) (p : Place) {l : List Text} (h : ∀ s ∈ l, s = []) :
    f.walk p l = .ok p := by
  induction l with
  | nil => rfl
  | cons s r ih =>
    rw [h s (List.mem_cons_self ..), walk, enter]
    exact ih (fun t ht => h t (List.mem_cons_of_mem _ ht))

/-- A piece that stands for no part moves nowhere, and every other one as its part does. -/
theorem enter_ofPiece? (f : Files) (p : Place) (s : Text) : f.enter p s =
    match Path.Part.ofPiece? s with
    | none => .ok p
    | some a => f.enter p a.piece := by
  unfold enter
  split
  · rfl
  · rfl
  · rfl
  · rename_i h0 h1 h2
    rw [Path.ofPiece?_eq_some_iff.mpr ⟨rfl, h0, h1, h2⟩]
    simp [Path.Part.piece]

/-- Only the pieces that stand for parts move anywhere. -/
theorem walk_pieces (f : Files) (p : Place) (l : List Text) :
    f.walk p ((l.filterMap Path.Part.ofPiece?).map Path.Part.piece) = f.walk p l := by
  induction l generalizing p with
  | nil => rfl
  | cons s r ih =>
    rw [walk, enter_ofPiece?, List.filterMap_cons]
    cases Path.Part.ofPiece? s with
    | none => exact ih p
    | some a =>
      rw [List.map_cons, walk]
      simp only [ih]

/-- The place where a path starts. -/
def origin (f : Files) (path : Path) : Place :=
  if path.head? = some '/' then [] else f.working

/-- Pieces are all empty, or there is a last one that is not. -/
theorem last_piece (l : List Text) : (∀ s ∈ l, s = []) ∨ ∃ before last empties,
    l = before ++ last :: empties ∧ last ≠ [] ∧ ∀ s ∈ empties, s = [] := by
  induction l with
  | nil => exact .inl (by simp)
  | cons s r ih =>
    rcases ih with ih | ⟨before, last, empties, rfl, hl, he⟩
    · by_cases hs : s = []
      · exact .inl (List.forall_mem_cons.mpr ⟨hs, ih⟩)
      · exact .inr ⟨[], s, r, rfl, hs, ih⟩
    · exact .inr ⟨s :: before, last, empties, rfl, hl, he⟩

theorem target_of_empty (f : Files) {path : Path} (hne : path ≠ [])
    (h : ∀ s ∈ List.splitOn '/' path, s = []) : f.target path = .ok (.directory []) := by
  have none : ((List.splitOn '/' path).reverse).dropWhile List.isEmpty = [] := by
    have empty : ∀ s ∈ (List.splitOn '/' path).reverse, List.isEmpty s = true := by
      simpa using h
    rw [← List.append_nil ((List.splitOn '/' path).reverse), List.dropWhile_append_of_pos empty,
      List.dropWhile_nil]
  unfold target
  simp only [none]

/-- What a path leads to is told by its last piece that is not empty. -/
theorem target_of_last (f : Files) {path : Path} {before empties : List Text} {last : Text}
    (h : List.splitOn '/' path = before ++ last :: empties) (hl : last ≠ [])
    (he : ∀ s ∈ empties, s = []) : f.target path = (f.walk (f.origin path) before).map
      (fun p => Target.ofLast p (empties != []) last) := by
  have rev : (List.splitOn '/' path).reverse = empties.reverse ++ last :: before.reverse := by
    rw [h]
    simp
  have kept : ((List.splitOn '/' path).reverse).dropWhile List.isEmpty =
      last :: before.reverse := by
    rw [rev, List.dropWhile_append_of_pos (by simpa using he),
      List.dropWhile_cons_of_neg (by simpa using hl)]
  have slash : decide ((List.splitOn '/' path).reverse.head? = some []) = (empties != []) := by
    rw [rev]
    cases hr : empties.reverse with
    | nil => simp_all
    | cons s r =>
      have mem : s ∈ empties := List.mem_reverse.mp (hr ▸ List.mem_cons_self ..)
      have hs : s = [] := he s mem
      have hne : empties ≠ [] := by
        rintro rfl
        cases hr
      simp [hs, hne]
  have path_ne : path ≠ [] := by
    rintro rfl
    have length := congrArg List.length h
    cases before <;> simp_all [List.splitOn_nil]
  unfold target
  simp only [kept, List.reverse_reverse, slash]
  unfold origin
  cases f.walk (if path.head? = some '/' then [] else f.working) before <;> rfl

/-- A path leads to an entry of its own name. -/
theorem fileName?_of_target {f : Files} {path : Path} {p : Place} {n : Text} {slash : Bool}
    (h : f.target path = .ok (.entry p n slash)) : Path.fileName? path = some n := by
  have hne : path ≠ [] := by
    rintro rfl
    cases h
  rcases last_piece (List.splitOn '/' path) with hall | ⟨before, last, empties, hs, hl, he⟩
  · rw [target_of_empty f hne hall] at h
    cases h
  · rw [target_of_last f hs hl he] at h
    cases hw : f.walk (f.origin path) before with
    | error e =>
      rw [hw] at h
      cases h
    | ok q =>
      rw [hw] at h
      have hlast : Target.ofLast q (empties != []) last = .entry p n slash := Except.ok.inj h
      have piece : Path.Part.ofPiece? last = some (.name n) := by
        unfold Target.ofLast at hlast
        split at hlast
        · cases hlast
        · cases hlast
        · rename_i h1 h2
          cases hlast
          exact Path.ofPiece?_eq_some_iff.mpr ⟨rfl, hl, h1, h2⟩
      have rest : empties.filterMap Path.Part.ofPiece? = [] := by
        rw [List.filterMap_eq_nil_iff]
        intro s hs
        rw [he s hs]
        rfl
      rw [Path.fileName?, Path.parts_text, hs, List.filterMap_append, List.filterMap_cons, piece]
      simp [rest]

/-! ## Directories -/

/-- A tree that has the directories of another one. -/
structure Keeps (f g : Files) : Prop where
  working : g.working = f.working
  directory : ∀ p, f.get? p = some .directory → g.get? p = some .directory

namespace Keeps

variable {f g : Files}

theorem refl (f : Files) : Keeps f f := ⟨rfl, fun _ h => h⟩

theorem enter (h : Keeps f g) {p q : Place} {s : Text} (hs : f.enter p s = .ok q) :
    g.enter p s = .ok q := by
  unfold Files.enter at hs ⊢
  split at hs
  · exact hs
  · exact hs
  · exact hs
  · split at hs
    · cases hs
    · cases hs
    · rename_i hd
      rw [h.directory _ hd]
      exact hs

theorem walk (h : Keeps f g) {l : List Text} : ∀ {p q : Place}, f.walk p l = .ok q →
    g.walk p l = .ok q := by
  induction l with
  | nil => exact fun hp => hp
  | cons s r ih =>
    intro p q hp
    rw [Files.walk] at hp ⊢
    cases hs : f.enter p s with
    | error e =>
      rw [hs] at hp
      cases hp
    | ok m =>
      rw [hs] at hp
      rw [h.enter hs]
      exact ih hp

/-- **Where directories are kept, a path leads to the same.** -/
theorem target (h : Keeps f g) {path : Path} {t : Target} (ht : f.target path = .ok t) :
    g.target path = .ok t := by
  have origin : g.origin path = f.origin path := by rw [origin, origin, h.working]
  have hne : path ≠ [] := by
    rintro rfl
    cases ht
  rcases last_piece (List.splitOn '/' path) with hall | ⟨before, last, empties, hs, hl, he⟩
  · rw [target_of_empty f hne hall] at ht
    rw [target_of_empty g hne hall, ht]
  · rw [target_of_last f hs hl he] at ht
    rw [target_of_last g hs hl he, origin]
    cases hw : f.walk (f.origin path) before with
    | error e =>
      rw [hw] at ht
      cases ht
    | ok q =>
      rw [hw] at ht
      rw [h.walk hw]
      exact ht

end Keeps

theorem lookup_of_target {f : Files} {path : Path} {i : Item} (h : f.lookup path = .ok i) :
    ∃ t, f.target path = .ok t := by
  rw [lookup] at h
  cases ht : f.target path with
  | error e =>
    rw [ht] at h
    cases h
  | ok t => exact ⟨t, rfl⟩

/-- Where directories are kept, and the item at the end of a path, too, the path leads to it. -/
theorem Keeps.lookup {f g : Files} (h : Keeps f g) {path : Path} {i : Item}
    (hp : ∀ p n slash, f.target path = .ok (.entry p n slash) → g.get? (n :: p) = f.get? (n :: p))
    (hi : f.lookup path = .ok i) : g.lookup path = .ok i := by
  obtain ⟨t, ht⟩ := lookup_of_target hi
  rw [Files.lookup, ht] at hi
  rw [Files.lookup, h.target ht]
  cases t with
  | directory p => exact hi
  | entry p n slash =>
    simp only [hp p n slash ht]
    exact hi

/-- Where two trees have the same directories, and the same item at the end of a path, the path
leads to the same in both. -/
theorem Keeps.lookup_iff {f g : Files} (h : Keeps f g) (h' : Keeps g f) {path : Path}
    (hp : ∀ p n slash, f.target path = .ok (.entry p n slash) → g.get? (n :: p) = f.get? (n :: p))
    (i : Item) : g.lookup path = .ok i ↔ f.lookup path = .ok i := by
  refine ⟨h'.lookup (fun p n slash hg => ?_), h.lookup hp⟩
  have hf : f.target path = .ok (.entry p n slash) := h'.target hg
  exact (hp p n slash hf).symm

theorem read_eq_ok_iff {f : Files} {path : Path} {c : Octets} :
    f.read path = .ok c ↔ ∃ x, f.lookup path = .ok (.file c x) := by
  rw [read]
  cases f.lookup path with
  | error e => simp
  | ok i => cases i <;> simp

theorem isDirectory_iff_lookup {f : Files} {path : Path} :
    f.isDirectory path = true ↔ f.lookup path = .ok .directory := by
  rw [isDirectory]
  split <;> simp_all

/-- The last piece of a path leads to a directory if one can go on from there. -/
theorem enter_isOk_iff {f : Files} {p : Place} {s : Text} (slash : Bool) (hs : s ≠ []) :
    (∃ q, f.enter p s = .ok q) ↔ match Target.ofLast p slash s with
      | .directory _ => True
      | .entry p n _ => f.get? (n :: p) = some .directory := by
  unfold enter Target.ofLast
  split
  · exact absurd rfl hs
  · simp
  · simp
  · rename_i h0 h1 h2
    cases hi : f.get? (s :: p) with
    | none => simp [hi]
    | some i => cases i <;> simp [hi]

/-- A path leads to a directory if one can walk along all of it. -/
theorem isDirectory_iff {f : Files} {path : Path} : f.isDirectory path = true ↔
    path ≠ [] ∧ ∃ q, f.walk (f.origin path) (List.splitOn '/' path) = .ok q := by
  rw [isDirectory_iff_lookup]
  by_cases hne : path = []
  · subst hne
    exact iff_of_false nofun (fun h => h.1 rfl)
  · simp only [ne_eq, hne, not_false_eq_true, true_and]
    rcases last_piece (List.splitOn '/' path) with hall | ⟨before, last, empties, hs, hl, he⟩
    · rw [lookup, target_of_empty f hne hall, walk_empty f _ hall]
      simp
    · have walk_last : ∀ q, (∃ r, f.walk q (last :: empties) = .ok r) ↔
          ∃ r, f.enter q last = .ok r := by
        intro q
        rw [walk]
        cases f.enter q last with
        | error e => simp
        | ok r => simp [walk_empty f r he]
      rw [lookup, target_of_last f hs hl he, hs, walk_append]
      cases f.walk (f.origin path) before with
      | error e => simp [Except.map, Except.bind]
      | ok q =>
        simp only [Except.map, Except.bind, walk_last, enter_isOk_iff (empties != []) hl]
        cases Target.ofLast q (empties != []) last with
        | directory p => simp
        | entry p n slash =>
          cases hi : f.get? (n :: p) with
          | none => simp [hi]
          | some i =>
            cases i with
            | directory => simp [hi]
            | file c x => cases slash <;> simp [hi]

/-! ## Paths made of parts -/

/-- A path starts at the root if its first piece is empty and others follow. -/
theorem head?_eq_slash_iff (path : Path) :
    path.head? = some '/' ↔ Path.lead (List.splitOn '/' path) = [.root] := by
  have other : ∀ p : Text, (if p = ['.'] then [Path.Part.here] else []) ≠
      [(.root : Path.Part Char)] := by
    intro p
    split <;> simp
  cases path with
  | nil => decide
  | cons c r =>
    by_cases hc : c = '/'
    · subst hc
      rw [List.splitOn_cons_eq_if_modifyHead, if_pos (beq_self_eq_true _), Path.lead,
        if_pos ⟨rfl, List.splitOn_ne_nil '/' r⟩]
      simp
    · have head : (c :: r).head? ≠ some '/' := by simpa using hc
      refine iff_of_false head ?_
      rw [List.splitOn_cons_eq_if_modifyHead, if_neg (by simpa using hc)]
      cases hs : List.splitOn '/' r with
      | nil => exact absurd hs (List.splitOn_ne_nil '/' r)
      | cons q qs =>
        rw [List.modifyHead_cons, Path.lead, if_neg (by simp)]
        exact other _

end Files

namespace Path

/-- The piece of a part of a path holds no slash. -/
theorem slash_not_mem_piece {p : Path} {a : Part Char} (h : a ∈ parts p) : '/' ∉ a.piece := by
  rw [parts_text, List.mem_append, List.mem_filterMap] at h
  rcases h with h | ⟨s, hs, ha⟩
  · have lead : a = .root ∨ a = .here := by
      rcases lead_cases (List.splitOn '/' p) with hl | hl | hl <;> simp_all
    rcases lead with rfl | rfl <;> decide
  · rw [(piece_of_ofPiece? ha).1]
    exact not_mem_of_mem_splitOn hs

theorem parts_ne_nil {p : Path} (h : p ≠ []) : parts p ≠ [] := by
  rw [parts_text]
  cases hs : List.splitOn '/' p with
  | nil => exact absurd hs (List.splitOn_ne_nil '/' p)
  | cons q r =>
    have joined : List.intercalate ['/'] (List.splitOn '/' p) = p := List.intercalate_splitOn '/'
    rw [hs] at joined
    rw [lead]
    split
    · simp
    · split
      · simp
      · rename_i h0 h1
        have hq : q ≠ [] := by
          rintro rfl
          have hr : r = [] := by simpa using h0
          subst hr
          exact h joined.symm
        cases hp : Part.ofPiece? q with
        | some a => simp [hp]
        | none =>
          have part : Part.ofPiece? q ≠ none := by
            rw [Part.ofPiece?, if_neg (not_or.mpr ⟨hq, h1⟩)]
            split <;> simp
          exact absurd hp part

/-- The pieces of the parts start as the pieces do. -/
theorem lead_pieces {l : List Text} (h : lead l ++ l.filterMap Part.ofPiece? ≠ [.root]) :
    lead ((lead l ++ l.filterMap Part.ofPiece?).map Part.piece) = lead l := by
  rcases lead_cases l with hl | hl | hl
  · rw [hl, List.nil_append]
    cases hf : l.filterMap Part.ofPiece? with
    | nil => rfl
    | cons a r =>
      have ha : a ∈ l.filterMap Part.ofPiece? := by simp [hf]
      obtain ⟨s, -, hs⟩ := List.mem_filterMap.mp ha
      obtain ⟨e, h0, h1⟩ := piece_of_ofPiece? hs
      rw [List.map_cons, e, lead, if_neg (fun h => h0 h.1), if_neg h1]
  · rw [hl] at h ⊢
    cases hf : l.filterMap Part.ofPiece? with
    | nil => simp [hf] at h
    | cons a r => rfl
  · rw [hl]
    rfl

end Path

namespace Files

/-- Walking along the parts of a path is walking along the path. -/
theorem walk_parts (f : Files) (p : Place) (path : Path) :
    f.walk p ((Path.parts path).map Path.Part.piece) = f.walk p (List.splitOn '/' path) := by
  rw [Path.parts_text, List.map_append, walk_append]
  have start : f.walk p ((Path.lead (List.splitOn '/' path)).map Path.Part.piece) = .ok p := by
    rcases Path.lead_cases (List.splitOn '/' path) with h | h | h <;> rw [h] <;> rfl
  rw [start]
  exact walk_pieces f p _

/-- A path written with its parts alone leads to the same directory. -/
theorem isDirectory_ofParts {f : Files} {path : Path} (h : f.isDirectory path = true) :
    f.isDirectory (Path.ofParts (Path.parts path)) = true := by
  obtain ⟨hne, q, hq⟩ := isDirectory_iff.mp h
  by_cases hroot : Path.parts path = [.root]
  · rw [hroot]
    exact isDirectory_iff.mpr ⟨by simp [Path.ofParts], [], rfl⟩
  · have whole : Path.ofParts (Path.parts path) =
        List.intercalate ['/'] ((Path.parts path).map Path.Part.piece) := by
      unfold Path.ofParts
      split
      · exact absurd ‹_› hroot
      · rfl
    have pieces : List.splitOn '/' (Path.ofParts (Path.parts path)) =
        (Path.parts path).map Path.Part.piece := by
      rw [whole]
      refine List.splitOn_intercalate '/' ?_ (by simpa using Path.parts_ne_nil hne)
      intro s hs
      obtain ⟨a, ha, rfl⟩ := List.mem_map.mp hs
      exact Path.slash_not_mem_piece ha
    have lead : Path.lead (List.splitOn '/' (Path.ofParts (Path.parts path))) =
        Path.lead (List.splitOn '/' path) := by
      rw [pieces, Path.parts_text]
      exact Path.lead_pieces (by rwa [← Path.parts_text])
    have origin : f.origin (Path.ofParts (Path.parts path)) = f.origin path := by
      unfold Files.origin
      simp only [head?_eq_slash_iff, lead]
    refine isDirectory_iff.mpr ⟨?_, q, by rw [origin, pieces, walk_parts, hq]⟩
    intro e
    have start : Path.lead (List.splitOn '/' path) = [] := by
      rw [← lead, e]
      rfl
    have empty : [] ∈ (Path.parts path).map Path.Part.piece := by
      rw [← pieces, e]
      exact List.mem_cons_self ..
    rw [Path.parts_text, start, List.nil_append] at empty
    obtain ⟨a, ha, hnil⟩ := List.mem_map.mp empty
    obtain ⟨s, -, hs⟩ := List.mem_filterMap.mp ha
    obtain ⟨rfl, hs, -⟩ := Path.piece_of_ofPiece? hs
    exact hs hnil

/-! ## Making directories and writing -/

/-- Whether names can be looked up in a directory. The empty path stands for the working
directory. -/
def provides (f : Files) (directory : Path) : Bool :=
  directory.isEmpty || f.isDirectory directory

theorem makeDirectory_of_isDirectory {f : Files} {path : Path} (h : f.isDirectory path = true) :
    f.makeDirectory path = .error .alreadyExists := by
  have hi := isDirectory_iff_lookup.mp h
  obtain ⟨t, ht⟩ := lookup_of_target hi
  rw [lookup, ht] at hi
  rw [makeDirectory, ht]
  cases t with
  | directory p => rfl
  | entry p n slash =>
    simp only at hi ⊢
    cases hx : f.get? (n :: p) with
    | none =>
      rw [hx] at hi
      cases hi
    | some i => rfl

/-- Nothing is made where there is a directory. -/
theorem makeDirectories_of_provides {f : Files} {path : Path} (h : f.provides path = true) :
    f.makeDirectories path = (.ok (), f) := by
  rw [provides, Bool.or_eq_true] at h
  rw [makeDirectories]
  split
  · rfl
  · rename_i hne
    have hd := h.resolve_left hne
    rw [Path.withAncestors, makeNested, makeDirectory_of_isDirectory hd]
    simp [hd]

/-- The parent of a name inside a directory is that directory. -/
theorem provides_parent {f : Files} {directory : Path} {n : Text} (hn : Path.IsName n)
    (h : f.provides directory = true) :
    f.provides (Path.parent (Path.join directory n)) = true := by
  rw [Path.parent_join _ hn]
  rw [provides, Bool.or_eq_true, List.isEmpty_iff] at h
  rcases h with rfl | h
  · rfl
  · rw [provides, isDirectory_ofParts h, Bool.or_true]

theorem Keeps.isDirectory {f g : Files} (h : Keeps f g) {path : Path}
    (hd : f.isDirectory path = true) : g.isDirectory path = true := by
  obtain ⟨hne, q, hq⟩ := isDirectory_iff.mp hd
  have origin : g.origin path = f.origin path := by rw [origin, origin, h.working]
  exact isDirectory_iff.mpr ⟨hne, q, by rw [origin, h.walk hq]⟩

theorem Keeps.provides {f g : Files} (h : Keeps f g) {directory : Path}
    (hd : f.provides directory = true) : g.provides directory = true := by
  rw [Files.provides, Bool.or_eq_true] at hd ⊢
  exact hd.imp_right h.isDirectory

/-- The place of the file that can be written at the end of a path, and whether it is executable. -/
def slot? (f : Files) (path : Path) : Option (Place × Bool) :=
  match f.target path with
  | .ok (.entry p n false) => match f.get? (n :: p) with
    | none => some (n :: p, false)
    | some (.file _ x) => some (n :: p, x)
    | some .directory => none
  | _ => none

theorem write_eq_ok_iff {f g : Files} {path : Path} {c : Octets} :
    f.write path c = .ok g ↔ ∃ p x, f.slot? path = some (p, x) ∧ g = f.put p (.file c x) := by
  rw [write, slot?]
  cases f.target path with
  | error e => simp
  | ok t =>
    cases t with
    | directory p => simp
    | entry p n slash =>
      cases slash with
      | true => simp
      | false =>
        simp only [Bool.false_eq_true, if_false]
        cases f.get? (n :: p) with
        | none => simp [eq_comm]
        | some i =>
          cases i with
          | directory => simp
          | file c' x =>
            constructor
            · rintro ⟨⟩
              exact ⟨_, _, rfl, rfl⟩
            · rintro ⟨_, _, ⟨⟩, rfl⟩
              rfl

end Files

end DotGraph
