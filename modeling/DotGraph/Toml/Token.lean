import DotGraph.Description.Source

/-!
# TOML tokens

Cuts a text into tokens with their places: blanks, line ends, comments, punctuation, strings with
their contents decoded, and atoms, that is runs of all other characters. A text with a malformed
string, a malformed comment or a stray control character has no tokens.
-/

set_option autoImplicit false

namespace DotGraph.Toml

/-- What a token is. Only a string on one line can be a key. -/
inductive TokenKind where
  | blank (s : Text)
  | newline
  | comment
  | dot | equals | comma
  | openBracket | closeBracket
  | openBrace | closeBrace
  | string (t : Text) (oneLine : Bool)
  | atom (s : Text)
  deriving DecidableEq, Repr

/-- A token with its place. -/
structure Token where
  kind : TokenKind
  place : Span
  deriving DecidableEq, Repr

/-- The number of octets of a text in UTF-8. -/
def octets (s : Text) : Nat :=
  s.foldl (fun n c => n + c.utf8Size) 0

/-! ## Characters -/

/-- Whether a character may stand in a comment or a string on one line: a tab or anything that is no
control character. -/
def isPlain (c : Char) : Bool :=
  c = '\t' || (31 < c.toNat && c.toNat ≠ 127)

/-- Whether a character ends an atom. -/
def endsAtom (c : Char) : Bool :=
  c = ' ' || c = '\t' || c = '\n' || c = '\r' || c = '#' || c = '.' || c = '=' || c = ',' ||
    c = '[' || c = ']' || c = '\x7b' || c = '\x7d'

/-- Whether a number is the code point of a character. -/
def isScalarValue (n : Nat) : Bool :=
  n < 0xD800 || (0xDFFF < n && n < 0x110000)

/-- The character given by hexadecimal digits. -/
def charOfHex? (digits : Text) : Option Char :=
  if digits.all (fun c => (Decimal.digitValue? 16 c).isSome) then
    let n := Decimal.valueFrom 16 0 digits
    if isScalarValue n then some (Char.ofNat n) else none
  else none

/-- The character of an escape without digits. -/
def shortEscape? (c : Char) : Option Char :=
  match c with
  | 'b' => some (Char.ofNat 8)
  | 't' => some '\t'
  | 'n' => some '\n'
  | 'f' => some (Char.ofNat 12)
  | 'r' => some '\r'
  | 'e' => some (Char.ofNat 27)
  | '"' => some '"'
  | '\\' => some '\\'
  | _ => none

/-- A character in front of what was read of a string. -/
def prepend (c : Char) : Option (Text × Text) → Option (Text × Text)
  | some (t, rest) => some (c :: t, rest)
  | none => none

/-! ## Strings -/

/-- The contents of a string with escapes on one line, after its opening quote, and the text after
it. -/
def basic? : Text → Option (Text × Text)
  | [] => none
  | '"' :: r => some ([], r)
  | '\\' :: 'x' :: a :: b :: r => match charOfHex? [a, b] with
    | some c => prepend c (basic? r)
    | none => none
  | '\\' :: 'u' :: a :: b :: c :: d :: r => match charOfHex? [a, b, c, d] with
    | some c => prepend c (basic? r)
    | none => none
  | '\\' :: 'U' :: a :: b :: c :: d :: e :: f :: g :: h :: r =>
    match charOfHex? [a, b, c, d, e, f, g, h] with
    | some c => prepend c (basic? r)
    | none => none
  | '\\' :: c :: r => match shortEscape? c with
    | some c => prepend c (basic? r)
    | none => none
  | c :: r => if isPlain c then prepend c (basic? r) else none

/-- The contents of a string without escapes on one line. -/
def literal? : Text → Option (Text × Text)
  | [] => none
  | '\'' :: r => some ([], r)
  | c :: r => if isPlain c then prepend c (literal? r) else none

/-- A text without its leading blanks and line ends. -/
def skipSpace : Text → Text
  | [] => []
  | c :: r =>
    if c = ' ' || c = '\t' || c = '\n' then skipSpace r
    else if c = '\r' then match r with
      | '\n' :: t => skipSpace t
      | _ => c :: r
    else c :: r

/-- What follows a backslash that ends a line: the text after the blanks and line ends that it
joins. There has to be a line end after the blanks. -/
def continued? (s : Text) : Option Text :=
  match s.dropWhile (fun c => c = ' ' || c = '\t') with
  | '\n' :: r => some (skipSpace r)
  | '\r' :: '\n' :: r => some (skipSpace r)
  | _ => none

/-- How many quotes a text starts with. -/
def countQuotes (q : Char) : Text → Nat
  | [] => 0
  | c :: r => if c = q then countQuotes q r + 1 else 0

/-- The end of a string over several lines at a run of quotes: up to two of them belong to the
contents, three close it. -/
def closing? (q : Char) (s : Text) : Option (Text × Text) :=
  let n := countQuotes q s
  if n < 3 then none
  else if n ≤ 5 then some (List.replicate (n - 3) q, s.drop n)
  else some ([q, q], s.drop 5)

/-- The contents of a string with escapes over several lines. The fuel bounds the characters. -/
def multiBasic? : Nat → Text → Option (Text × Text)
  | 0, _ => none
  | fuel + 1, s => match s with
    | [] => none
    | '"' :: r => match closing? '"' ('"' :: r) with
      | some e => some e
      | none => prepend '"' (multiBasic? fuel r)
    | '\\' :: r => match continued? r with
      | some t => multiBasic? fuel t
      | none => match r with
        | 'x' :: a :: b :: t => match charOfHex? [a, b] with
          | some c => prepend c (multiBasic? fuel t)
          | none => none
        | 'u' :: a :: b :: c :: d :: t => match charOfHex? [a, b, c, d] with
          | some c => prepend c (multiBasic? fuel t)
          | none => none
        | 'U' :: a :: b :: c :: d :: e :: f :: g :: h :: t =>
          match charOfHex? [a, b, c, d, e, f, g, h] with
          | some c => prepend c (multiBasic? fuel t)
          | none => none
        | c :: t => match shortEscape? c with
          | some c => prepend c (multiBasic? fuel t)
          | none => none
        | [] => none
    | '\n' :: r => prepend '\n' (multiBasic? fuel r)
    | '\r' :: '\n' :: r => prepend '\r' (prepend '\n' (multiBasic? fuel r))
    | c :: r => if isPlain c then prepend c (multiBasic? fuel r) else none

/-- The contents of a string without escapes over several lines. -/
def multiLiteral? : Nat → Text → Option (Text × Text)
  | 0, _ => none
  | fuel + 1, s => match s with
    | [] => none
    | '\'' :: r => match closing? '\'' ('\'' :: r) with
      | some e => some e
      | none => prepend '\'' (multiLiteral? fuel r)
    | '\n' :: r => prepend '\n' (multiLiteral? fuel r)
    | '\r' :: '\n' :: r => prepend '\r' (prepend '\n' (multiLiteral? fuel r))
    | c :: r => if isPlain c then prepend c (multiLiteral? fuel r) else none

/-- A text without the line end that may follow the opening quotes of a string over several lines.
-/
def dropLineEnd : Text → Text
  | '\n' :: r => r
  | '\r' :: '\n' :: r => r
  | r => r

/-! ## Tokens -/

/-- A string token at the start of a text that starts with a quote, and the text after it. -/
def stringToken? : Text → Option (TokenKind × Text)
  | '"' :: '"' :: '"' :: r => match multiBasic? (r.length + 1) (dropLineEnd r) with
    | some (t, rest) => some (.string t false, rest)
    | none => none
  | '\'' :: '\'' :: '\'' :: r => match multiLiteral? (r.length + 1) (dropLineEnd r) with
    | some (t, rest) => some (.string t false, rest)
    | none => none
  | '"' :: r => match basic? r with
    | some (t, rest) => some (.string t true, rest)
    | none => none
  | '\'' :: r => match literal? r with
    | some (t, rest) => some (.string t true, rest)
    | none => none
  | _ => none

/-- The token at the start of a text that is not empty, and the text after it. -/
def token? (s : Text) : Option (TokenKind × Text) :=
  match s with
  | [] => none
  | '.' :: r => some (.dot, r)
  | '=' :: r => some (.equals, r)
  | ',' :: r => some (.comma, r)
  | '[' :: r => some (.openBracket, r)
  | ']' :: r => some (.closeBracket, r)
  | '\x7b' :: r => some (.openBrace, r)
  | '\x7d' :: r => some (.closeBrace, r)
  | '\n' :: r => some (.newline, r)
  | '\r' :: '\n' :: r => some (.newline, r)
  | '#' :: r => some (.comment, r.dropWhile isPlain)
  | c :: r =>
    if c = '"' || c = '\'' then stringToken? (c :: r)
    else if c = ' ' || c = '\t' then
      some (.blank (s.takeWhile (fun c => c = ' ' || c = '\t')),
        s.dropWhile (fun c => c = ' ' || c = '\t'))
    else if isPlain c then
      some (.atom (s.takeWhile (fun c => !endsAtom c)), s.dropWhile (fun c => !endsAtom c))
    else none

/-- The tokens of a text that starts at an offset. The fuel bounds their number. -/
def tokensFrom? : Nat → Nat → Text → Option (List Token)
  | 0, _, s => if s.isEmpty then some [] else none
  | fuel + 1, offset, s => match s with
    | [] => some []
    | c :: r => match token? (c :: r) with
      | none => none
      | some (k, rest) =>
        let stop := offset + octets ((c :: r).take ((c :: r).length - rest.length))
        match tokensFrom? fuel stop rest with
        | none => none
        | some l => some (⟨k, ⟨offset, stop⟩⟩ :: l)

/-- The tokens of a text; a byte order mark in front of it is no token. -/
def tokens? (s : Text) : Option (List Token) :=
  match s with
  | c :: r =>
    if c.toNat = 0xFEFF then tokensFrom? (r.length + 1) 3 r
    else tokensFrom? (r.length + 1) 0 (c :: r)
  | [] => some []

end DotGraph.Toml
