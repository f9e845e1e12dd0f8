import DotGraph.Decimal.Shortest

/-!
# Attribute values

A value is plain text, which is written between quotes, or markup, which is written between angle
brackets. Numbers and truth values become plain text: integers in canonical decimal, floating-point
numbers with the fewest digits that read back.
-/

set_option autoImplicit false

namespace DotGraph

/-- The value of an attribute. -/
inductive Value where
  | plain (text : Text)
  | html (markup : Text)
  deriving DecidableEq, Repr

namespace Value

/-- The text of a value, without regard to its kind. -/
def text : Value → Text
  | plain t => t
  | html t => t

/-- A truth value as text. -/
def ofBool (b : Bool) : Value :=
  .plain (if b then "true".toList else "false".toList)

/-- An integer as its canonical decimal text. -/
def ofInt (n : Int) : Value :=
  .plain (Decimal.ofInt n)

/-- A number of 64 bits as its shortest text. -/
def ofBinary64 (x : Binary) : Value :=
  .plain (Shortest.positional Binary.binary64 x)

/-- A number of 32 bits as its shortest text. -/
def ofBinary32 (x : Binary) : Value :=
  .plain (Shortest.positional Binary.binary32 x)

end Value

end DotGraph
