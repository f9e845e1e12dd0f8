import DotGraph.Description.Datum
import DotGraph.Decimal.Shortest

/-!
# JSON text

The compact JSON text of a datum: no blanks, members in their order. In strings only the quote, the
backslash and the characters below U+0020 are escaped, those with a short escape by it and the
others by four hexadecimal digits in lower case.
-/

set_option autoImplicit false

namespace DotGraph.Json

/-- What is written for a character of a string. -/
def escapeChar (c : Char) : Text :=
  if c = '"' then "\\\"".toList
  else if c = '\\' then "\\\\".toList
  else if c.toNat = 8 then "\\b".toList
  else if c.toNat = 9 then "\\t".toList
  else if c.toNat = 10 then "\\n".toList
  else if c.toNat = 12 then "\\f".toList
  else if c.toNat = 13 then "\\r".toList
  else if c.toNat < 32 then
    "\\u00".toList ++ [Decimal.hexChar (c.toNat / 16), Decimal.hexChar (c.toNat % 16)]
  else [c]

/-- The escaped characters of a string. -/
def escaped : Text → Text
  | [] => []
  | c :: r => escapeChar c ++ escaped r

/-- A string between quotes. -/
def string (s : Text) : Text :=
  '"' :: escaped s ++ ['"']

mutual

/-- The text of a datum. -/
def print : Datum → Text
  | .null => "null".toList
  | .bool b => if b then "true".toList else "false".toList
  | .unsigned n => Decimal.digits n
  | .signed n => Decimal.ofInt n
  | .float x => match x with
    | .finite .. => Shortest.scientific Binary.binary64 x
    | _ => "null".toList
  | .text t => string t
  | .list items => '[' :: printItems items ++ [']']
  | .map members => '\x7b' :: printMembers members ++ ['\x7d']

/-- The texts of list items with commas between them. -/
def printItems : List Datum → Text
  | [] => []
  | d :: r => print d ++ printMore r

/-- The texts of further list items, each after a comma. -/
def printMore : List Datum → Text
  | [] => []
  | d :: r => ',' :: print d ++ printMore r

/-- The texts of members with commas between them. -/
def printMembers : List Member → Text
  | [] => []
  | ⟨k, d⟩ :: r => string k ++ ':' :: print d ++ printMoreMembers r

/-- The texts of further members, each after a comma. -/
def printMoreMembers : List Member → Text
  | [] => []
  | ⟨k, d⟩ :: r => ',' :: string k ++ ':' :: print d ++ printMoreMembers r

end

end DotGraph.Json
