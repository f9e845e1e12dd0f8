import DotGraph.Text

/-!
# Quoted texts

Between the quotes of a DOT string a backslash takes the next character with it. Escaping puts a
backslash in front of every quote that has none, and doubles a backslash that would take the closing
quote with it. Quotes that already have their backslash stay as they are.
-/

set_option autoImplicit false

namespace DotGraph.Dot

/-- Escapes a text of which the character before is a backslash that takes the next character with
it (`pending`), or not. -/
def escapeFrom (pending : Bool) : Text → Text
  | [] => if pending then ['\\'] else []
  | c :: r =>
    if c = '"' && !pending then '\\' :: c :: escapeFrom false r
    else c :: escapeFrom (c = '\\' && !pending) r

/-- The escaped form of a text. -/
def escape (s : Text) : Text :=
  escapeFrom false s

/-- Whether the contents of names and plain values are escaped when they are written. -/
inductive Quoting where
  | asIs
  | escaped
  deriving DecidableEq, Repr

/-- What is written between the quotes for a text. -/
def Quoting.content : Quoting → Text → Text
  | .asIs, s => s
  | .escaped, s => escape s

/-- A text between quotes. -/
def Quoting.quoted (q : Quoting) (s : Text) : Text :=
  '"' :: q.content s ++ ['"']

end DotGraph.Dot
