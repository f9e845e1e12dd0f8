import DotGraph.Error
import DotGraph.Path
import DotGraph.Text.Octets

/-!
# Files

A tree of directories and files as a value, with a directory in which paths without a leading slash
start. Reading leaves the tree alone; writing and making directories give a new one.

- `Files.get?_put`: after something is put at a place, it is there, and all other places are as
  before.
-/

set_option autoImplicit false

namespace DotGraph

/-- What a tree can hold at a place. -/
inductive Item where
  | file (content : Octets) (executable : Bool)
  | directory
  deriving DecidableEq, Repr

/-- A place in the tree: the names of the directories on the way, the last one first. The root has
no names. -/
abbrev Place := List Text

/-- A tree of files: what is at each place, the newest entry first, and the working directory. -/
structure Files where
  working : Place
  entries : List (Place × Item)
  deriving DecidableEq, Repr

namespace Files

/-- The item at a place. The root is always a directory. -/
def get? (f : Files) (p : Place) : Option Item :=
  if p = [] then some .directory else f.entries.lookup p

/-- The entries without those of a place. -/
def without (p : Place) (l : List (Place × Item)) : List (Place × Item) :=
  l.filter (fun e => e.1 ≠ p)

/-- The tree with an item put at a place. -/
def put (f : Files) (p : Place) (i : Item) : Files :=
  { f with entries := (p, i) :: without p f.entries }

theorem lookup_without {p q : Place} (h : q ≠ p) (l : List (Place × Item)) :
    (without p l).lookup q = l.lookup q := by
  induction l with
  | nil => rfl
  | cons e r ih =>
    obtain ⟨k, i⟩ := e
    by_cases hk : k = p
    · subst hk
      rw [show without k ((k, i) :: r) = without k r by simp [without], ih]
      simp [List.lookup_cons, beq_eq_false_iff_ne.mpr h]
    · rw [show without p ((k, i) :: r) = (k, i) :: without p r by simp [without, hk]]
      simp only [List.lookup_cons, ih]

theorem get?_put (f : Files) {p : Place} (h : p ≠ []) (i : Item) (q : Place) :
    (f.put p i).get? q = if q = p then some i else f.get? q := by
  by_cases hq : q = p
  · subst hq
    simp [get?, put, h]
  · simp [get?, put, List.lookup_cons, hq, beq_eq_false_iff_ne.mpr hq, lookup_without hq]

/-- The names in a directory and what they lead to. -/
def children (f : Files) (p : Place) : List (Text × Item) :=
  f.entries.filterMap (fun e => match e.1 with
    | n :: q => if q = p then some (n, e.2) else none
    | [] => none)

/-! ## Following paths -/

/-- Goes from a directory to one inside it, above it, or to itself. -/
def enter (f : Files) (p : Place) (piece : Text) : Except FileFault Place :=
  match piece with
  | [] => .ok p
  | ['.'] => .ok p
  | ['.', '.'] => .ok p.tail
  | n => match f.get? (n :: p) with
    | none => .error .notFound
    | some (.file _ _) => .error .notDirectory
    | some .directory => .ok (n :: p)

/-- Goes from a directory along several pieces of a path. -/
def walk (f : Files) (p : Place) : List Text → Except FileFault Place
  | [] => .ok p
  | s :: r => match f.enter p s with
    | .error e => .error e
    | .ok q => walk f q r

/-- What a path leads to: a directory that is there, or a name in one, after which a slash may
stand. -/
inductive Target where
  | directory (place : Place)
  | entry (place : Place) (name : Text) (slash : Bool)
  deriving DecidableEq, Repr

/-- What the last piece of a path leads to. -/
def Target.ofLast (p : Place) (slash : Bool) : Text → Target
  | ['.'] => .directory p
  | ['.', '.'] => .directory p.tail
  | n => .entry p n slash

/-- What a path leads to. All but its last piece have to be directories that are there. -/
def target (f : Files) (path : Path) : Except FileFault Target :=
  let start := if path.head? = some '/' then [] else f.working
  let pieces := (List.splitOn '/' path).reverse
  match path, pieces.dropWhile List.isEmpty with
  | [], _ => .error .notFound
  | _, [] => .ok (.directory [])
  | _, last :: before => match f.walk start before.reverse with
    | .error e => .error e
    | .ok p => .ok (Target.ofLast p (pieces.head? = some []) last)

/-- The item at the end of a path. -/
def lookup (f : Files) (path : Path) : Except FileFault Item :=
  match f.target path with
  | .error e => .error e
  | .ok (.directory _) => .ok .directory
  | .ok (.entry p n slash) => match f.get? (n :: p) with
    | none => .error .notFound
    | some (.file c x) => if slash then .error .notDirectory else .ok (.file c x)
    | some .directory => .ok .directory

/-- Whether a path leads to a file. -/
def isFile (f : Files) (path : Path) : Bool :=
  match f.lookup path with
  | .ok (.file _ _) => true
  | _ => false

/-- Whether a path leads to a directory. -/
def isDirectory (f : Files) (path : Path) : Bool :=
  match f.lookup path with
  | .ok .directory => true
  | _ => false

/-- Whether a path leads to anything. -/
def holds (f : Files) (path : Path) : Bool :=
  match f.lookup path with
  | .ok _ => true
  | .error _ => false

/-- The names in the directory at the end of a path, in order. -/
def names (f : Files) (path : Path) : List Text :=
  match f.target path with
  | .error _ => []
  | .ok (.directory p) => sorted p
  | .ok (.entry p n _) => sorted (n :: p)
where
  /-- The names in a directory, in order. -/
  sorted (p : Place) : List Text :=
    ((f.children p).map Prod.fst).mergeSort (fun a b => (Text.cmp a b).isLE)

/-! ## Reading and writing -/

/-- The content of the file at the end of a path. -/
def read (f : Files) (path : Path) : Except FileFault Octets :=
  match f.lookup path with
  | .error e => .error e
  | .ok .directory => .error .isDirectory
  | .ok (.file c _) => .ok c

/-- The text in the file at the end of a path. -/
def readText (f : Files) (path : Path) : Except FileFault Text :=
  match f.read path with
  | .error e => .error e
  | .ok c => match Octets.decode? c with
    | some t => .ok t
    | none => .error .notText

/-- Writes the file at the end of a path; one that is there is replaced and stays executable if it
was. -/
def write (f : Files) (path : Path) (content : Octets) : Except FileFault Files :=
  match f.target path with
  | .error e => .error e
  | .ok (.directory _) => .error .isDirectory
  | .ok (.entry p n slash) =>
    if slash then .error .isDirectory
    else match f.get? (n :: p) with
      | none => .ok (f.put (n :: p) (.file content false))
      | some (.file _ x) => .ok (f.put (n :: p) (.file content x))
      | some .directory => .error .isDirectory

/-- Makes the directory at the end of a path, inside one that is there. -/
def makeDirectory (f : Files) (path : Path) : Except FileFault Files :=
  match f.target path with
  | .error e => .error e
  | .ok (.directory _) => .error .alreadyExists
  | .ok (.entry p n _) => match f.get? (n :: p) with
    | none => .ok (f.put (n :: p) .directory)
    | some _ => .error .alreadyExists

/-- Makes the first of several directories, each of which holds the one before; those that are
missing are made from the outermost inward. Directories made before a fault stay. -/
def makeNested (f : Files) : List Path → Except FileFault Unit × Files
  | [] => (.ok (), f)
  | p :: up => match f.makeDirectory p with
    | .ok g => (.ok (), g)
    | .error .notFound => match makeNested f up with
      | (.error e, g) => (.error e, g)
      | (.ok (), g) => match g.makeDirectory p with
        | .ok h => (.ok (), h)
        | .error e => (if g.isDirectory p then .ok () else .error e, g)
    | .error e => (if f.isDirectory p then .ok () else .error e, f)

/-- Makes a directory and those it lies in, as far as they are missing. Nothing is made for the
empty path. -/
def makeDirectories (f : Files) (path : Path) : Except FileFault Unit × Files :=
  if path.isEmpty then (.ok (), f) else f.makeNested (Path.withAncestors path)

end Files

end DotGraph
