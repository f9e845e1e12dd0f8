import DotGraph.Description.Read
import DotGraph.Toml.Token
import DotGraph.Toml.Scalar
import DotGraph.Toml.Table

/-!
# Reading TOML

A document is checked as a whole before anything in it is interpreted: `Toml.source?` gives the
source of its root table, or nothing if the text is not TOML. `Toml.parse` reads the graph that the
root table describes.
-/

set_option autoImplicit false

namespace DotGraph.Toml

/-- The tokens after blanks. -/
def skipBlanks : List Token → List Token
  | [] => []
  | t :: r => match t.kind with
    | .blank _ => skipBlanks r
    | _ => t :: r

/-- The tokens after blanks, line ends and comments. -/
def skipFiller : List Token → List Token
  | [] => []
  | t :: r => match t.kind with
    | .blank _ => skipFiller r
    | .newline => skipFiller r
    | .comment => skipFiller r
    | _ => t :: r

/-! ## Keys -/

/-- Whether a character may stand in a key without quotes. -/
def isBareKeyChar (c : Char) : Bool :=
  ('a' ≤ c && c ≤ 'z') || ('A' ≤ c && c ≤ 'Z') || ('0' ≤ c && c ≤ '9') || c = '_' || c = '-'

/-- The part of a key that a token is. -/
def keyPart? (t : Token) : Option Key :=
  match t.kind with
  | .string s true => some ⟨s, t.place⟩
  | .atom s => if s.all isBareKeyChar then some ⟨s, t.place⟩ else none
  | _ => none

/-- A key at the start of the tokens, with the tokens after it and its blanks: its parts but the
last, and the last. The fuel bounds the parts. -/
def key? : Nat → List Token → Option (List Key × Key × List Token)
  | 0, _ => none
  | fuel + 1, ts => match ts with
    | [] => none
    | t :: r => match keyPart? t with
      | none => none
      | some k => match skipBlanks r with
        | [] => some ([], k, [])
        | d :: r => match d.kind with
          | .dot => match key? fuel (skipBlanks r) with
            | none => none
            | some (path, last, rest) => some (k :: path, last, rest)
          | _ => some ([], k, d :: r)

/-! ## Values -/

/-- The text of the atoms and points at the start of the tokens, the end of their place, and the
tokens after them. -/
def run (stop : Nat) : List Token → Text × Nat × List Token
  | [] => ([], stop, [])
  | t :: r => match t.kind with
    | .atom s =>
      let (u, e, rest) := run t.place.stop r
      (s ++ u, e, rest)
    | .dot =>
      let (u, e, rest) := run t.place.stop r
      ('.' :: u, e, rest)
    | _ => ([], stop, t :: r)

/-- Whether a text is a date. -/
def isDate (s : Text) : Bool :=
  match date? s with
  | some (_, []) => true
  | _ => false

/-- Whether tokens go on with a digit. -/
def startsWithDigit : List Token → Bool
  | [] => false
  | t :: _ => match t.kind with
    | .atom (c :: _) => Decimal.isDigit c
    | _ => false

/-- An unquoted scalar at the start of the tokens, and the tokens after it. A date and a time may
have one space between them. -/
def bare? (start : Nat) (ts : List Token) : Option (Source × List Token) :=
  let (s, stop, rest) := run start ts
  if s.isEmpty then none
  else
    let plain := (scalarSource? ⟨start, stop⟩ s).map (fun v => (v, rest))
    match rest with
    | [] => plain
    | b :: r => match b.kind with
      | .blank [' '] =>
        if isDate s && startsWithDigit r then
          let (u, stop, rest) := run b.place.stop r
          (scalarSource? ⟨start, stop⟩ (s ++ ' ' :: u)).map (fun v => (v, rest))
        else plain
      | _ => plain

mutual

/-- A value at the start of the tokens, and the tokens after it. `room` bounds the arrays and tables
that are open inside each other, the fuel the number of values. -/
def value? (room : Nat) : Nat → List Token → Option (Source × List Token)
  | 0, _ => none
  | fuel + 1, ts => match ts with
    | [] => none
    | t :: r => match t.kind with
      | .string s _ => some (.scalar t.place (.text s), r)
      | .openBracket => match room with
        | 0 => none
        | room + 1 => match items? room fuel (skipFiller r) with
          | none => none
          | some (items, stop, rest) => some (.list (some ⟨t.place.start, stop⟩) items true, rest)
      | .openBrace => match room with
        | 0 => none
        | room + 1 => match entries? room fuel .empty (skipFiller r) with
          | none => none
          | some (body, stop, rest) =>
            some (.map (some ⟨t.place.start, stop⟩) body.sourceEntries true, rest)
      | _ => bare? t.place.start (t :: r)

/-- The items of an array up to its closing bracket, the end of its place, and the tokens after
it. -/
def items? (room : Nat) : Nat → List Token → Option (List Source × Nat × List Token)
  | 0, _ => none
  | fuel + 1, ts => match ts with
    | [] => none
    | t :: r => match t.kind with
      | .closeBracket => some ([], t.place.stop, r)
      | _ => match value? room fuel (t :: r) with
        | none => none
        | some (v, rest) => match skipFiller rest with
          | [] => none
          | c :: r => match c.kind with
            | .closeBracket => some ([v], c.place.stop, r)
            | .comma => match items? room fuel (skipFiller r) with
              | none => none
              | some (items, stop, rest) => some (v :: items, stop, rest)
            | _ => none

/-- The table in braces up to its closing brace, the end of its place, and the tokens after it. -/
def entries? (room : Nat) : Nat → Body → List Token → Option (Body × Nat × List Token)
  | 0, _, _ => none
  | fuel + 1, body, ts => match ts with
    | [] => none
    | t :: r => match t.kind with
      | .closeBrace => some (body, t.place.stop, r)
      | _ => match key? fuel (t :: r) with
        | some (path, last, e :: r) => match e.kind with
          | .equals => match value? room fuel (skipBlanks r) with
            | none => none
            | some (v, rest) => match body.assign path last v with
              | none => none
              | some body => match skipFiller rest with
                | [] => none
                | c :: r => match c.kind with
                  | .closeBrace => some (body, c.place.stop, r)
                  | .comma => entries? room fuel body (skipFiller r)
                  | _ => none
          | _ => none
        | _ => none

end

/-! ## Documents -/

/-- The tokens after the end of a line, which may have a comment. -/
def lineEnd? (ts : List Token) : Option (List Token) :=
  match skipBlanks ts with
  | [] => some []
  | t :: r => match t.kind with
    | .newline => some r
    | .comment => match r with
      | [] => some []
      | n :: r => match n.kind with
        | .newline => some r
        | _ => none
    | _ => none

/-- A header after its opening brackets, and the tokens after it. -/
def header? (fuel start : Nat) (isArray : Bool) (ts : List Token) :
    Option (Header × List Token) :=
  match key? fuel (skipBlanks ts) with
  | some (path, last, c :: r) => match c.kind, isArray, r with
    | .closeBracket, false, r => some (⟨path, last, ⟨start, c.place.stop⟩, false⟩, r)
    | .closeBracket, true, d :: r => match d.kind with
      | .closeBracket => some (⟨path, last, ⟨start, d.place.stop⟩, true⟩, r)
      | _ => none
    | _, _, _ => none
  | _ => none

/-- How many arrays and tables in braces may be open at a time. -/
def nesting : Nat := 80

/-- A line that opens a table or assigns a value, and the tokens after it. The fuel is more than
twice the number of tokens. -/
def line? (fuel : Nat) (d : Document) (t : Token) (r : List Token) :
    Option (Document × List Token) :=
  match t.kind, r with
  | .openBracket, b :: r' =>
    let header := match b.kind with
      | .openBracket => header? fuel t.place.start true r'
      | _ => header? fuel t.place.start false (b :: r')
    match header with
    | none => none
    | some (h, rest) => match d.openTable h with
      | none => none
      | some d => some (d, rest)
  | _, _ => match key? fuel (t :: r) with
    | some (path, last, e :: r) => match e.kind with
      | .equals => match value? nesting fuel (skipBlanks r) with
        | none => none
        | some (v, rest) => match d.assign path last v with
          | none => none
          | some d => some (d, rest)
      | _ => none
    | _ => none

/-- The document after further lines. The fuel bounds the lines and what is in them. -/
def lines? : Nat → Document → List Token → Option Document
  | 0, _, _ => none
  | fuel + 1, d, ts => match skipFiller ts with
    | [] => some d
    | t :: r => match line? fuel d t r with
      | none => none
      | some (d, rest) => match lineEnd? rest with
        | none => none
        | some rest => lines? fuel d rest

/-- The source of the root table of a document. -/
def source? (s : Text) : Option Source :=
  match tokens? s with
  | none => none
  | some ts => match lines? (2 * ts.length + 2) .start ts with
    | none => none
    | some d => match d.close with
      | none => none
      | some b => some (.map none b.sourceEntries true)

/-- Reads a graph. -/
def parse (s : Text) : Except Problem Graph :=
  match source? s with
  | none => .error .malformed
  | some v => Graph.ofSource .toml none v

end DotGraph.Toml
