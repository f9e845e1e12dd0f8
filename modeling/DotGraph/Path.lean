import DotGraph.Text.Octets

/-!
# Paths

A path is kept as it is written. Its parts are the names between slashes; empty names, and dots that
stand for the place one is at, do not count, except that a dot at the very start does.

What a path is written in is an alphabet: characters, where all of a path can be shown, or octets,
which need not encode a text.
-/

set_option autoImplicit false

namespace DotGraph

/-- What paths are written in: its slash and its dot, how a text is written in it, and as which text
a name is shown. -/
class Alphabet (α : Type) where
  slash : α
  dot : α
  ofText : Text → List α
  toText : List α → Text

namespace Alphabet

/-- Characters stand for themselves. -/
instance : Alphabet Char where
  slash := '/'
  dot := '.'
  ofText := id
  toText := id

/-- Octets are UTF-8, and are shown with a replacement character for each faulty piece. -/
instance : Alphabet UInt8 where
  slash := 0x2F
  dot := 0x2E
  ofText := Octets.ofText
  toText := Octets.decodeLossy

end Alphabet

/-- A path as it is written, in characters. -/
abbrev Path := Text

namespace Path

open Alphabet

variable {α : Type} [Alphabet α]

/-- A part of a path. -/
inductive Part (α : Type) where
  | root
  | here
  | up
  | name (name : List α)
  deriving DecidableEq, Repr

/-- The piece of a part. -/
def Part.piece : Part α → List α
  | root => []
  | here => [dot]
  | up => [dot, dot]
  | name n => n

variable [DecidableEq α]

/-- The part that a piece between slashes stands for. -/
def Part.ofPiece? (s : List α) : Option (Part α) :=
  if s = [] ∨ s = [dot] then none
  else if s = [dot, dot] then some .up
  else some (.name s)

/-- The part that the start of a path stands for, from its pieces between slashes. -/
def lead : List (List α) → List (Part α)
  | [] => []
  | s :: r => if s = [] ∧ r ≠ [] then [.root] else if s = [dot] then [.here] else []

/-- The parts of a path: what its start stands for, and those of its pieces. -/
def parts (p : List α) : List (Part α) :=
  lead (p.splitOn slash) ++ (p.splitOn slash).filterMap Part.ofPiece?

/-- Whether two paths have the same parts. -/
def same (p q : List α) : Bool :=
  parts p = parts q

/-! ## Last names -/

/-- The name of what a path leads to. -/
def fileName? (p : List α) : Option (List α) :=
  match (parts p).getLast? with
  | some (.name n) => some n
  | _ => none

/-- What stands in front of the last dot, and what after it. -/
def cutAtLastDot : List α → Option (List α × List α)
  | [] => none
  | c :: r => match cutAtLastDot r with
    | some (s, e) => some (c :: s, e)
    | none => if c = dot then some ([], r) else none

/-- A name without and its extension. A dot at the very start begins no extension. -/
def stemAndExtension (n : List α) : List α × Option (List α) :=
  match cutAtLastDot n with
  | some (c :: s, e) => (c :: s, some e)
  | _ => (n, none)

/-- The name of what a path leads to, without its extension. -/
def stem? (p : List α) : Option (List α) :=
  (fileName? p).map (fun n => (stemAndExtension n).1)

/-- The extension of what a path leads to. -/
def extension? (p : List α) : Option (List α) :=
  (fileName? p).bind (fun n => (stemAndExtension n).2)

/-! ## Joining and parents -/

/-- The path of a name inside a directory. The directory stays as it is written. -/
def join (directory name : List α) : List α :=
  if name.head? = some slash ∨ directory = [] then name
  else if directory.getLast? = some slash then directory ++ name
  else directory ++ slash :: name

/-- A path with given parts. -/
def ofParts : List (Part α) → List α
  | [.root] => [slash]
  | l => List.intercalate [slash] (l.map Part.piece)

/-- The path of the directory that holds what a path leads to. -/
def parent (p : List α) : List α :=
  ofParts (parts p).dropLast

/-- The paths above a list of parts, from the nearest outward. -/
def ancestorsOf : List (Part α) → List (List α)
  | [] => []
  | a :: l => (ancestorsOf l).map (join (ofParts [a])) ++ [ofParts [a]]

/-- A path and the paths of the directories above it, from the nearest outward. -/
def withAncestors (p : List α) : List (List α) :=
  p :: ancestorsOf (parts p).dropLast

/-! ## Order -/

/-- The rank of the kinds of parts. -/
def Part.rank : Part Char → Nat
  | root => 0
  | here => 1
  | up => 2
  | name _ => 3

/-- The order of parts: by kind, and names by their characters. -/
def Part.cmp : Part Char → Part Char → Ordering
  | name s, name t => Text.cmp s t
  | a, b => compare a.rank b.rank

/-- The order of lists of parts; a list comes before each of its continuations. -/
def cmpParts : List (Part Char) → List (Part Char) → Ordering
  | [], [] => .eq
  | [], _ :: _ => .lt
  | _ :: _, [] => .gt
  | a :: p, b :: q => match a.cmp b with
    | .eq => cmpParts p q
    | o => o

/-- The order of paths by their parts. -/
def cmp (p q : Path) : Ordering :=
  cmpParts (parts p) (parts q)

/-- Paths in order; those with the same parts keep their places. -/
def sort (l : List Path) : List Path :=
  l.mergeSort (fun p q => (cmp p q).isLE)

end Path

end DotGraph
