import DotGraph.Description.Statement

/-!
# Sources

A source is a description as its text shows it: the tree of values with their places, as far as the
text is well formed. Where it is not, the tree ends in a broken value or in a list or map that is
not closed, so that whoever reads the tree in the order of the text meets the problems in that
order.

Some scalars can be passed over but not read, such as a number too large for any type.

- `Source.datum` reads a whole value, `Source.skip` passes over one.
-/

set_option autoImplicit false

namespace DotGraph

/-- A value that holds no other values. `wide` is an integer beyond 64 bits, `unreadable` a scalar
whose reading is a problem. -/
inductive Scalar where
  | null
  | bool (b : Bool)
  | unsigned (n : Nat)
  | signed (n : Int)
  | wide (n : Int)
  | float (x : Binary)
  | text (t : Text)
  | unreadable (problem : Problem)
  deriving DecidableEq, Repr

mutual

/-- A value of a description with its place. -/
inductive Source where
  | scalar (place : Option Span) (value : Scalar)
  | list (place : Option Span) (items : List Source) (closed : Bool)
  | map (place : Option Span) (entries : List Entry) (closed : Bool)
  | broken

/-- An entry of a map; a key that cannot be read is none. -/
structure Entry where
  key : Option Text
  value : Source

end

instance : Inhabited Source := ⟨.broken⟩

/-- How many more lists and maps may be opened inside each other; none stands for no limit. -/
abbrev Room := Option Nat

/-- The room inside a list or map, if one may be opened. -/
def Room.enter : Room → Except Problem Room
  | none => .ok none
  | some 0 => .error .malformed
  | some (n + 1) => .ok (some n)

namespace Scalar

/-- The datum of a scalar. -/
def datum : Scalar → Except Problem Datum
  | null => .ok .null
  | bool b => .ok (.bool b)
  | unsigned n => .ok (.unsigned n)
  | signed n => .ok (.signed n)
  | wide n => .error (.mismatch (.wrongType (.wide n) .anyValue) none)
  | float x => .ok (.float x)
  | text t => .ok (.text t)
  | unreadable p => .error p

/-- What a scalar is, for a message. -/
def found : Scalar → Except Problem Found
  | null => .ok .null
  | bool b => .ok (.bool b)
  | unsigned n => .ok (.integer n)
  | signed n => .ok (.integer n)
  | wide n => .ok (.wide n)
  | float x => .ok (.float x)
  | text t => .ok (.text t)
  | unreadable p => .error p

/-- The problem that a scalar stands where something else belongs. -/
def unexpected (s : Scalar) (e : Expected) : Problem :=
  match s.found with
  | .ok f => .mismatch (.wrongType f e) none
  | .error p => p

end Scalar

namespace Source

/-- The place of a value. -/
def place : Source → Option Span
  | scalar p _ => p
  | list p _ _ => p
  | map p _ _ => p
  | broken => none

/-- The problem that a value stands where something else belongs. -/
def unexpected (s : Source) (e : Expected) : Problem :=
  match s with
  | scalar p v => (v.unexpected e).locate p
  | list p _ _ => .mismatch (.wrongType .list e) p
  | map p _ _ => .mismatch (.wrongType .map e) p
  | broken => .malformed

mutual

/-- Reads a whole value. -/
def datum (room : Room) : Source → Except Problem Datum
  | broken => .error .malformed
  | scalar p v => match v.datum with
    | .ok d => .ok d
    | .error e => .error (e.locate p)
  | list _ items closed => match room.enter with
    | .error e => .error e
    | .ok inner => match itemData inner items with
      | .error e => .error e
      | .ok l => if closed then .ok (.list l) else .error .malformed
  | map _ entries closed => match room.enter with
    | .error e => .error e
    | .ok inner => match entryData inner entries with
      | .error e => .error e
      | .ok l => if closed then .ok (.map l) else .error .malformed

/-- Reads the items of a list. -/
def itemData (room : Room) : List Source → Except Problem (List Datum)
  | [] => .ok []
  | s :: r => match datum room s with
    | .error e => .error e
    | .ok d => match itemData room r with
      | .error e => .error e
      | .ok l => .ok (d :: l)

/-- Reads the entries of a map. -/
def entryData (room : Room) : List Entry → Except Problem (List Member)
  | [] => .ok []
  | ⟨key, s⟩ :: r => match key with
    | none => .error .malformed
    | some k => match datum room s with
      | .error e => .error e
      | .ok d => match entryData room r with
        | .error e => .error e
        | .ok l => .ok (⟨k, d⟩ :: l)

end

mutual

/-- Passes over a value. In TOML the numbers in it are read all the same. -/
def skip (dialect : Dialect) : Source → Except Problem Unit
  | broken => .error .malformed
  | scalar p v => match dialect, v with
    | .toml, .unreadable e => .error (e.locate p)
    | _, _ => .ok ()
  | list _ items closed => match skipItems dialect items with
    | .error e => .error e
    | .ok () => if closed then .ok () else .error .malformed
  | map _ entries closed => match skipEntries dialect entries with
    | .error e => .error e
    | .ok () => if closed then .ok () else .error .malformed

/-- Passes over the items of a list. -/
def skipItems (dialect : Dialect) : List Source → Except Problem Unit
  | [] => .ok ()
  | s :: r => match skip dialect s with
    | .error e => .error e
    | .ok () => skipItems dialect r

/-- Passes over the entries of a map. -/
def skipEntries (dialect : Dialect) : List Entry → Except Problem Unit
  | [] => .ok ()
  | ⟨_, s⟩ :: r => match skip dialect s with
    | .error e => .error e
    | .ok () => skipEntries dialect r

end

end Source

end DotGraph
