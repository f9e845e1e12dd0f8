import DotGraph.Text

/-!
# Node ids

A node id is a name and possibly a port. A port is kept as it is written, with its leading colon.
`NodeId.parse` splits a text at its colons; `NodeId.joined` puts name and port together again.

- `NodeId.joined_of_parse`: whatever is parsed joins to the text it was parsed from.
- `Compass.ofText_text`: the text of a compass point names that point.
-/

set_option autoImplicit false

namespace DotGraph

/-- What is wrong with an argument of an operation on graphs. -/
inductive ArgumentFault where
  | noDestination
  | emptyName (id : Text)
  | emptyPortSegment (id : Text)
  | unknownCompass (text : Text)
  | unknownComponent (text : Text)
  deriving DecidableEq, Repr

/-- A point of the compass, the last segment of a port. -/
inductive Compass where
  | n | ne | e | se | s | sw | w | nw | center | any
  deriving DecidableEq, Repr

namespace Compass

/-- All points in their order of declaration. -/
def all : List Compass := [.n, .ne, .e, .se, .s, .sw, .w, .nw, .center, .any]

/-- The text of a point. -/
def text : Compass → Text
  | n => "n".toList
  | ne => "ne".toList
  | e => "e".toList
  | se => "se".toList
  | s => "s".toList
  | sw => "sw".toList
  | w => "w".toList
  | nw => "nw".toList
  | center => "c".toList
  | any => "_".toList

/-- The point with a text. -/
def ofText? (t : Text) : Option Compass :=
  all.find? (fun c => c.text = t)

/-- The point with a text, or the fault that there is none. -/
def parse (t : Text) : Except ArgumentFault Compass :=
  match ofText? t with
  | some c => .ok c
  | none => .error (.unknownCompass t)

theorem ofText_text (c : Compass) : ofText? c.text = some c := by
  cases c <;> decide

end Compass

/-- A reference to a node: a name and, in front of which stands a colon, a port. -/
structure NodeId where
  name : Text
  port : Option Text
  deriving DecidableEq, Repr

namespace NodeId

/-- The id of a name without a port; the name is not taken apart. -/
def ofName (name : Text) : NodeId := ⟨name, none⟩

/-- The id of a name and a port. A missing colon in front of the port is added, and an empty port is
no port. -/
def withPort (name port : Text) : NodeId :=
  match port with
  | [] => ⟨name, none⟩
  | ':' :: r => ⟨name, some (':' :: r)⟩
  | c :: r => ⟨name, some (':' :: c :: r)⟩

/-- The id of a name, a compartment if there is one, and a compass point. -/
def withCompass (name : Text) (compartment : Option Text) (point : Compass) : NodeId :=
  match compartment with
  | some c => ⟨name, some (':' :: c ++ ':' :: point.text)⟩
  | none => ⟨name, some (':' :: point.text)⟩

/-- The segments of a port, each with a colon in front. -/
def portOf : List Text → Text
  | [] => []
  | s :: r => ':' :: s ++ portOf r

/-- Reads `name:segment:…`; neither the name nor a segment may be empty. -/
def parse (s : Text) : Except ArgumentFault NodeId :=
  match List.splitOn ':' s with
  | [] => .error (.emptyName s)
  | name :: segments =>
    if name.isEmpty then .error (.emptyName s)
    else if segments.any List.isEmpty then .error (.emptyPortSegment s)
    else .ok ⟨name, if segments.isEmpty then none else some (portOf segments)⟩

/-- Name and port in one text. -/
def joined (id : NodeId) : Text :=
  match id.port with
  | some p => id.name ++ p
  | none => id.name

theorem intercalate_colon (name : Text) (segments : List Text) :
    List.intercalate [':'] (name :: segments) = name ++ portOf segments := by
  induction segments generalizing name with
  | nil => simp [portOf]
  | cons s r ih => simp [List.intercalate_cons_cons, portOf, ih]

/-- Joining gives the parsed text back. -/
theorem joined_of_parse {s : Text} {id : NodeId} (h : parse s = .ok id) : id.joined = s := by
  have hs : List.intercalate [':'] (List.splitOn ':' s) = s := List.intercalate_splitOn ':'
  simp only [parse] at h
  split at h
  · cases h
  · rename_i name segments heq
    rw [heq, intercalate_colon] at hs
    split at h
    · cases h
    · split at h
      · cases h
      · cases h
        cases segments with
        | nil => simpa [joined, portOf] using hs
        | cons t r => simpa [joined] using hs

end NodeId

end DotGraph
