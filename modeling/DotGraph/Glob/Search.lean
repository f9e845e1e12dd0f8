import DotGraph.Glob.Pattern
import DotGraph.Input

/-!
# Finding files by a pattern

A pattern is matched against paths component by component. Components without wildcards are followed
as they are, so that `.`, `..` and doubled slashes stay in the paths that are found; others are
matched against the names in a directory.
-/

set_option autoImplicit false

namespace DotGraph.Glob

/-- A component of a pattern. -/
inductive Component where
  | exact (name : Text)
  | matching (tokens : List Token)
  | anyDepth
  deriving DecidableEq, Repr

namespace Component

/-- The component of tokens. -/
def ofTokens (ts : List Token) : Component :=
  if ts.contains .anyDirectories then .anyDepth
  else match literal? ts with
    | some s => .exact s
    | none => .matching ts

/-- Whether a component matches a name in a directory. -/
def accepts (name : Text) : Component → Bool
  | exact s => s = name
  | matching ts => Glob.accepts ts name
  | anyDepth => true

/-- Components in which those for any depth do not follow each other. -/
def collapse : List Component → List Component
  | .anyDepth :: .anyDepth :: r => collapse (.anyDepth :: r)
  | c :: r => c :: collapse r
  | [] => []

end Component

/-! ## Reading -/

/-- The pieces of a text that end in a slash or at the end of the text. -/
def pieces (s : Text) : List Text :=
  match s, (List.splitOn '/' s).reverse with
  | _ :: _, [] :: l => l.reverse
  | _, l => l.reverse

/-- The components of several pieces. -/
def componentsOf : List Text → Except Fault (List Component)
  | [] => .ok []
  | s :: r => match tokens s with
    | .error f => .error f
    | .ok ts => match componentsOf r with
      | .error f => .error f
      | .ok l => .ok (.ofTokens ts :: l)

/-- Where the search for a pattern starts, and the pattern without that. -/
def start : Text → Path × Text
  | '/' :: r => (['/'], r)
  | s => (['.'], s)

/-- The components of a pattern. It is read as a whole first, then piece by piece. -/
def components (pattern : Text) : Except Fault (List Component) :=
  match tokens pattern with
  | .error f => .error f
  | .ok _ => match componentsOf (pieces (start pattern).2) with
    | .error f => .error f
    | .ok l => .ok (Component.collapse l)

/-! ## Searching -/

/-- The path of a name in a directory. The place where a search starts is not named. -/
def below (directory : Path) (name : Text) : Path :=
  if Path.parts directory = [.here] then name else Path.join directory name

/-- The paths of all that is below a directory, each directory before what it holds. The fuel bounds
the depth. -/
def descendants (f : Files) : Nat → Path → List Path
  | 0, _ => []
  | fuel + 1, p =>
    (f.names p).flatMap (fun n =>
      let q := below p n
      q :: if f.isDirectory q then descendants f fuel q else [])

/-- The names of a directory itself and of the one above it, as far as tokens match them. Only a
pattern that starts with a dot does. -/
def dotNames (ts : List Token) : List Text :=
  if ts.head? = some (.char '.') then
    [['.', '.'], ['.']].filter (fun n => Glob.accepts ts n)
  else []

/-- The paths that match components, from a path that has been reached. -/
def search (f : Files) : List Component → Path → List Path
  | [], p => [p]
  | .exact s :: r, p =>
    let q := below p s
    let reached := if s = ['.'] ∨ s = ['.', '.'] then f.isDirectory p else f.holds q
    if reached then search f r q else []
  | .matching ts :: r, p =>
    if f.isDirectory p then
      (dotNames ts).flatMap (fun n => search f r (Path.join p n)) ++
        (f.names p).flatMap (fun n => if Glob.accepts ts n then search f r (below p n) else [])
    else []
  | [.anyDepth], p => (descendants f (f.entries.length + 1) p).filter f.isDirectory
  | .anyDepth :: c :: r, p =>
    (descendants f (f.entries.length + 1) p).flatMap (fun q =>
      if c.accepts ((Path.fileName? q).getD []) then search f r q else [])

/-- The paths that match a pattern. One that ends in a slash matches directories only. -/
def find (f : Files) (pattern : Text) : Except Fault (List Path) :=
  match components pattern with
  | .error e => .error e
  | .ok l =>
    let found := search f l (start pattern).1
    .ok (if pattern.getLast? = some '/' then found.filter f.isDirectory else found)

end DotGraph.Glob

namespace DotGraph

/-- The inputs that match a pattern: files of a supported kind, in the order of their paths. -/
def Files.inputs (f : Files) (pattern : Text) : Except Glob.Fault (List Path) :=
  match Glob.find f pattern with
  | .error e => .error e
  | .ok l => .ok (Path.sort (l.filter (fun p => f.isFile p && InputKind.supports p)))

end DotGraph
