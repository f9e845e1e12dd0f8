import DotGraph.Json.Number
import DotGraph.Description.Read

/-!
# Reading JSON

`Json.value` makes the source tree of the value at the start of a text, as far as the text is well
formed, and gives the rest. Strings keep apart what is malformed, which breaks the tree, and what
can be passed over but not read: an escape for half of a character pair.

- `Json.parse` reads a graph, `Json.parseWith` any part that has a reader for sources.
-/

set_option autoImplicit false

namespace DotGraph.Json

/-- The limit of lists and maps that are open at a time. -/
def room : Room := some 127

/-- Whether a character is a blank between tokens. -/
def isBlank (c : Char) : Bool :=
  c = ' ' || c = '\t' || c = '\n' || c = '\r'

/-- A text without the blanks in front. -/
def skipBlanks : Text → Text
  | [] => []
  | c :: r => if isBlank c then skipBlanks r else c :: r

/-! ## Strings -/

/-- What a string consists of: characters, and escapes by a number of sixteen bits. -/
inductive Piece where
  | char (c : Char)
  | code (n : Nat)
  deriving DecidableEq, Repr

/-- The number that four hexadecimal digits write. -/
def hex4? (a b c d : Char) : Option Nat :=
  match Decimal.digitValue? 16 a, Decimal.digitValue? 16 b, Decimal.digitValue? 16 c,
    Decimal.digitValue? 16 d with
  | some w, some x, some y, some z => some (((w * 16 + x) * 16 + y) * 16 + z)
  | _, _, _, _ => none

/-- The character of a short escape. -/
def shortEscape? (c : Char) : Option Char :=
  match c with
  | '"' => some '"'
  | '\\' => some '\\'
  | '/' => some '/'
  | 'b' => some (Char.ofNat 8)
  | 'f' => some (Char.ofNat 12)
  | 'n' => some '\n'
  | 'r' => some '\r'
  | 't' => some '\t'
  | _ => none

/-- The pieces of a string up to its closing quote, and the text after it; none if the string is
malformed or does not end. -/
def pieces? : Text → Option (List Piece × Text)
  | [] => none
  | '"' :: r => some ([], r)
  | '\\' :: 'u' :: a :: b :: c :: d :: r => match hex4? a b c d with
    | none => none
    | some n => match pieces? r with
      | none => none
      | some (l, rest) => some (.code n :: l, rest)
  | '\\' :: c :: r => match shortEscape? c with
    | none => none
    | some e => match pieces? r with
      | none => none
      | some (l, rest) => some (.char e :: l, rest)
  | c :: r =>
    if c = '\\' || c.toNat < 32 then none
    else match pieces? r with
      | none => none
      | some (l, rest) => some (.char c :: l, rest)

/-- The text that pieces make. The two halves of a character pair have to follow each other. -/
def joinPieces? : List Piece → Option Text
  | [] => some []
  | .char c :: r => (joinPieces? r).map (c :: ·)
  | .code n :: .code m :: r =>
    if 0xD800 ≤ n ∧ n < 0xDC00 then
      if 0xDC00 ≤ m ∧ m < 0xE000 then
        (joinPieces? r).map (Char.ofNat (0x10000 + (n - 0xD800) * 0x400 + (m - 0xDC00)) :: ·)
      else none
    else if 0xDC00 ≤ n ∧ n < 0xE000 then none
    else (joinPieces? (.code m :: r)).map (Char.ofNat n :: ·)
  | .code n :: r =>
    if 0xD800 ≤ n ∧ n < 0xE000 then none else (joinPieces? r).map (Char.ofNat n :: ·)

/-! ## Numbers -/

/-- The exponent of a number after its letter: an optional sign and digits. -/
def exponent? (s : Text) : Option ((Bool × Text) × Text) :=
  let (negative, r) := Binary.signOf s
  let digits := r.takeWhile Decimal.isDigit
  if digits.isEmpty then none else some ((negative, digits), r.dropWhile Decimal.isDigit)

/-- The part of a number from its point on: the places, the exponent, and the text after it. -/
def fraction? (s : Text) : Option (Option Text × Option (Bool × Text) × Text) :=
  let places? := match s with
    | '.' :: r =>
      let digits := r.takeWhile Decimal.isDigit
      if digits.isEmpty then none else some (some digits, r.dropWhile Decimal.isDigit)
    | r => some (none, r)
  match places? with
  | none => none
  | some (places, r) => match r with
    | c :: t =>
      if c = 'e' || c = 'E' then (exponent? t).map (fun x => (places, some x.1, x.2))
      else some (places, none, c :: t)
    | [] => some (places, none, [])

/-- The number at the start of a text and the text after it. A zero in front of other digits is
malformed. -/
def number? (s : Text) : Option (Number × Text) :=
  let (negative, r) := match s with
    | '-' :: r => (true, r)
    | r => (false, r)
  let whole := r.takeWhile Decimal.isDigit
  if whole.isEmpty || (1 < whole.length && whole.head? = some '0') then none
  else match fraction? (r.dropWhile Decimal.isDigit) with
    | none => none
    | some (places, e, rest) => some (⟨negative, whole, places, e⟩, rest)

/-! ## Values -/

/-- The scalar at the start of a text, and the text after it. -/
def scalar? : Text → Option (Scalar × Text)
  | 'n' :: 'u' :: 'l' :: 'l' :: r => some (.null, r)
  | 't' :: 'r' :: 'u' :: 'e' :: r => some (.bool true, r)
  | 'f' :: 'a' :: 'l' :: 's' :: 'e' :: r => some (.bool false, r)
  | '"' :: r => match pieces? r with
    | none => none
    | some (l, rest) => match joinPieces? l with
      | some t => some (.text t, rest)
      | none => some (.unreadable .malformed, rest)
  | s => match number? s with
    | some (n, rest) => some (n.toScalar, rest)
    | none => none

/-- The key at the start of a text, with the text after it; a key that cannot be read is none. -/
def key? : Text → Option (Option Text × Text)
  | '"' :: r => match pieces? r with
    | none => none
    | some (l, rest) => some (joinPieces? l, rest)
  | _ => none

mutual

/-- The source of the value at the start of a text, and the text after it. The fuel bounds the
number of values. -/
def value : Nat → Text → Source × Text
  | 0, _ => (.broken, [])
  | fuel + 1, s => match skipBlanks s with
    | '[' :: r => match skipBlanks r with
      | ']' :: rest => (.list none [] true, rest)
      | r =>
        let (items, closed, rest) := itemsFrom fuel r
        (.list none items closed, rest)
    | '\x7b' :: r => match skipBlanks r with
      | '\x7d' :: rest => (.map none [] true, rest)
      | r =>
        let (entries, closed, rest) := entriesFrom fuel r
        (.map none entries closed, rest)
    | r => match scalar? r with
      | some (v, rest) => (.scalar none v, rest)
      | none => (.broken, [])

/-- The items of a list from one of them on, and whether the list is closed after them. -/
def itemsFrom : Nat → Text → List Source × Bool × Text
  | 0, _ => ([], false, [])
  | fuel + 1, s =>
    let (v, r) := value fuel s
    match skipBlanks r with
    | ']' :: rest => ([v], true, rest)
    | ',' :: t =>
      let (items, closed, rest) := itemsFrom fuel t
      (v :: items, closed, rest)
    | _ => ([v], false, [])

/-- The entries of a map from one of them on, and whether the map is closed after them. -/
def entriesFrom : Nat → Text → List Entry × Bool × Text
  | 0, _ => ([], false, [])
  | fuel + 1, s => match key? (skipBlanks s) with
    | none => ([], false, [])
    | some (k, r) => match skipBlanks r with
      | ':' :: r =>
        let (v, r) := value fuel r
        match skipBlanks r with
        | '\x7d' :: rest => ([⟨k, v⟩], true, rest)
        | ',' :: t =>
          let (entries, closed, rest) := entriesFrom fuel t
          (⟨k, v⟩ :: entries, closed, rest)
        | _ => ([⟨k, v⟩], false, [])
      | _ => ([⟨k, .broken⟩], false, [])

end

/-- The source of the value that a text starts with, and the text after it. -/
def source (s : Text) : Source × Text :=
  value (2 * s.length + 2) s

/-- Reads a text that consists of one value and blanks around it. -/
def parseWith {α : Type} (reader : Source → Except Problem α) (s : Text) : Except Problem α :=
  let (v, rest) := source s
  match reader v with
  | .error e => .error e
  | .ok a => if (skipBlanks rest).isEmpty then .ok a else .error .malformed

/-- Reads a graph. -/
def parse (s : Text) : Except Problem Graph :=
  parseWith (Graph.ofSource .json room) s

/-- Reads a statement. -/
def parseStatement (s : Text) : Except Problem Statement :=
  parseWith (Source.asStatement .json room) s

/-! ## Names -/

/-- The name that a value gives, if it is a known one. -/
def knownName (known : List Text) (v : Source) : Except Problem Text :=
  match v with
  | .scalar _ (.text t) =>
    if known.contains t then .ok t else .error (.mismatch (.unknownName t known) none)
  | v => .error (v.unexpected .kind)

/-- Reads null. -/
def nothing (v : Source) : Except Problem Unit :=
  match v with
  | .scalar _ .null => .ok ()
  | v => .error (v.unexpected .null)

/-- Reads one of several names: as a string, or as the only key of a map whose value is null. -/
def parseName (known : List Text) (s : Text) : Except Problem Text :=
  match skipBlanks s with
  | '"' :: r => parseWith (knownName known) ('"' :: r)
  | '\x7b' :: r =>
    let (v, r) := source r
    match knownName known v with
    | .error e => .error e
    | .ok t => match skipBlanks r with
      | ':' :: r =>
        let (u, r) := source r
        match nothing u with
        | .error e => .error e
        | .ok () => match skipBlanks r with
          | '\x7d' :: rest =>
            if (skipBlanks rest).isEmpty then .ok t else .error .malformed
          | _ => .error .malformed
      | _ => .error .malformed
  | _ => .error .malformed

end DotGraph.Json
