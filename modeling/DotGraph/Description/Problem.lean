import DotGraph.NodeId
import DotGraph.Decimal.Shortest
import DotGraph.Text.Printable

/-!
# Problems of descriptions

A description is refused because its text is malformed, or because its value does not have the shape
of a graph. `Mismatch` lists the second kind by cause, `Mismatch.message` words it.
-/

set_option autoImplicit false

namespace DotGraph

/-- A stretch of a text: the offset of its first octet and of the octet after its last. -/
structure Span where
  start : Nat
  stop : Nat
  deriving DecidableEq, Repr

/-- The two ways in which descriptions are written. -/
inductive Dialect where
  | json
  | toml
  deriving DecidableEq, Repr

/-- What was found in a place where something else belongs. -/
inductive Found where
  | null
  | bool (b : Bool)
  | integer (n : Int)
  | wide (n : Int)
  | float (x : Binary)
  | text (t : Text)
  | list
  | map
  deriving DecidableEq, Repr

/-- The kinds of statements. -/
inductive Kind where
  | node | edge | attr | subgraph | assign
  deriving DecidableEq, Repr

namespace Kind

/-- All kinds in their order of declaration. -/
def all : List Kind := [.node, .edge, .attr, .subgraph, .assign]

/-- The name of a kind. -/
def name : Kind → Text
  | node => "node".toList
  | edge => "edge".toList
  | attr => "attr".toList
  | subgraph => "subgraph".toList
  | assign => "identity".toList

/-- The kind with a name. -/
def ofName? (t : Text) : Option Kind :=
  all.find? (fun k => k.name = t)

/-- What the fields of a kind are called in messages. -/
def recordName : Kind → Text
  | node => "NodeStmt".toList
  | edge => "EdgeRepr".toList
  | attr => "AttrStmt".toList
  | subgraph => "SubgraphRepr".toList
  | assign => "IdentityStmt".toList

/-- How many fields a kind has. -/
def fieldCount : Kind → Nat
  | node => 2
  | edge => 3
  | attr => 2
  | subgraph => 3
  | assign => 2

end Kind

/-- What belongs in a place. -/
inductive Expected where
  | boolean | string | map | list | null
  | graph | subgraph | statement
  | kind | kindIndex
  | variant | singleKey
  | anyValue
  | fields (kind : Kind)
  | items (count : Nat)
  deriving DecidableEq, Repr

/-- A choice between several forms. -/
inductive Choice where
  | value | endpoint | oneOrMany
  deriving DecidableEq, Repr

/-- Why a value does not describe a graph. -/
inductive Mismatch where
  | wrongType (found : Found) (expected : Expected)
  | wrongValue (found : Found) (expected : Expected)
  | wrongLength (length : Nat) (expected : Expected)
  | unknownName (name : Text) (known : List Text)
  | missingField (field : Text)
  | duplicateField (field : Text)
  | noForm (choice : Choice)
  | argument (fault : ArgumentFault)
  | integerOverflow
  | floatOverflow
  deriving DecidableEq, Repr

/-- Why a description is refused: malformed text, or a mismatch and the place of the value at which
it was noticed. -/
inductive Problem where
  | malformed
  | mismatch (cause : Mismatch) (place : Option Span)
  deriving DecidableEq, Repr

/-- A mismatch that has no place yet gets one. -/
def Problem.locate (place : Option Span) : Problem → Problem
  | .mismatch c none => .mismatch c place
  | p => p

/-! ## Wording -/

/-- The wording of an argument's fault. -/
def ArgumentFault.message : ArgumentFault → Text
  | noDestination => "edge requires at least one destination".toList
  | emptyName id => "node id '".toList ++ id ++ "' has an empty name".toList
  | emptyPortSegment id => "node id '".toList ++ id ++ "' has an empty port segment".toList
  | unknownCompass t => "unknown compass point '".toList ++ t ++ "'".toList
  | unknownComponent t =>
    "unknown attribute component '".toList ++ t ++ "', expected graph, node or edge".toList

/-- The full sentence about an argument's fault. -/
def ArgumentFault.sentence (f : ArgumentFault) : Text :=
  "Invalid argument: ".toList ++ f.message

/-- A text between backticks. -/
def ticked (s : Text) : Text :=
  '`' :: s ++ ['`']

/-- What was found, in words. Integers beyond 64 bits name the width that holds them. -/
def Found.phrase (n : Dialect) : Found → Text
  | null => "null".toList
  | bool b => "boolean ".toList ++ ticked (if b then "true".toList else "false".toList)
  | integer i => "integer ".toList ++ ticked (Decimal.ofInt i)
  | wide i => "integer ".toList ++ ticked (Decimal.ofInt i) ++
      (if i < Nat.pow 2 127 then " as i128".toList else " as u128".toList)
  | float x => "floating point ".toList ++ ticked (match n with
      | .json => Shortest.scientific Binary.binary64 x
      | .toml => Shortest.pointed Binary.binary64 x)
  | text t => "string ".toList ++ Text.visible t
  | list => "sequence".toList
  | map => "map".toList

/-- What was expected, in words. -/
def Expected.phrase : Expected → Text
  | boolean => "a boolean".toList
  | string => "a string".toList
  | map => "a map".toList
  | list => "a sequence".toList
  | null => "unit".toList
  | graph => "struct GraphRepr".toList
  | subgraph => "struct SubgraphRepr".toList
  | statement => "internally tagged enum Statement".toList
  | kind => "variant identifier".toList
  | kindIndex => "variant index 0 <= i < 5".toList
  | variant => "string or map".toList
  | singleKey => "map with a single key".toList
  | anyValue => "any value".toList
  | fields k => "struct ".toList ++ k.recordName ++ " with ".toList ++
      Decimal.digits k.fieldCount ++ " elements".toList
  | items n => Decimal.digits n ++
      (if n = 1 then " element in sequence".toList else " elements in sequence".toList)

/-- The name of a choice in messages. -/
def Choice.name : Choice → Text
  | value => "AttrValueRepr".toList
  | endpoint => "EndpointRepr".toList
  | oneOrMany => "OneOrMany".toList

/-- The wording of a mismatch. -/
def Mismatch.message (n : Dialect) : Mismatch → Text
  | wrongType f e => "invalid type: ".toList ++ f.phrase n ++ ", expected ".toList ++ e.phrase
  | wrongValue f e => "invalid value: ".toList ++ f.phrase n ++ ", expected ".toList ++ e.phrase
  | wrongLength k e =>
    "invalid length ".toList ++ Decimal.digits k ++ ", expected ".toList ++ e.phrase
  | unknownName t known => "unknown variant ".toList ++ ticked t ++ ", expected one of ".toList ++
      List.intercalate ", ".toList (known.map ticked)
  | missingField f => "missing field ".toList ++ ticked f
  | duplicateField f => "duplicate field ".toList ++ ticked f
  | noForm c => "data did not match any variant of untagged enum ".toList ++ c.name
  | argument f => f.sentence
  | integerOverflow => "integer number overflowed".toList
  | floatOverflow => "floating-point number overflowed".toList

end DotGraph
