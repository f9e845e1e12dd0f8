import DotGraph.Decimal.Integer

/-!
# Patterns for names

A pattern is a text in which a question mark stands for any character, a star for any number of
characters, and brackets for one of the characters in them or, after an exclamation mark, for one
that is not in them. Two stars stand for any number of directories and are a whole component. There
is no way to take these characters as themselves except brackets.
-/

set_option autoImplicit false

namespace DotGraph.Glob

/-- What is wrong with a pattern. -/
inductive Fault.Cause where
  | stars
  | recursive
  | brackets
  deriving DecidableEq, Repr

/-- What is wrong with a pattern, and at which character. -/
structure Fault where
  position : Nat
  cause : Fault.Cause
  deriving DecidableEq, Repr

/-- The wording of a fault. -/
def Fault.message (f : Fault) : Text :=
  "Pattern syntax error near position ".toList ++ Decimal.digits f.position ++ ": ".toList ++
    match f.cause with
    | .stars => "wildcards are either regular `*` or recursive `**`".toList
    | .recursive => "recursive wildcards must form a single path component".toList
    | .brackets => "invalid range pattern".toList

/-- The characters in brackets: single ones and ranges. -/
inductive Member where
  | single (c : Char)
  | range (first last : Char)
  deriving DecidableEq, Repr

/-- Whether a character is among those of brackets. -/
def Member.holds (c : Char) : Member → Bool
  | single d => c = d
  | range a b => a.toNat ≤ c.toNat && c.toNat ≤ b.toNat

/-- A piece of a pattern. -/
inductive Token where
  | char (c : Char)
  | anyChar
  | anySequence
  | anyDirectories
  | oneOf (members : List Member)
  | noneOf (members : List Member)
  deriving DecidableEq, Repr

/-! ## Reading -/

/-- The members in brackets. A hyphen between two characters makes a range. -/
def members : Text → List Member
  | a :: '-' :: b :: r => .range a b :: members r
  | c :: r => .single c :: members r
  | [] => []

/-- The text up to a character, and the text after it. -/
def upTo (stop : Char) : Text → Option (Text × Text)
  | [] => none
  | c :: r => if c = stop then some ([], r) else (upTo stop r).map (fun p => (c :: p.1, p.2))

/-- What stands in brackets, and the text after them. The first character belongs to the members
even if it is a closing bracket. -/
def bracketed : Text → Option (Text × Text)
  | [] => none
  | c :: r => (upTo ']' r).map (fun p => (c :: p.1, p.2))

/-- The token of a text after an opening bracket, and the text after the closing one. -/
def brackets? : Text → Option (Token × Text)
  | '!' :: r => (bracketed r).map (fun p => (.noneOf (members p.1), p.2))
  | r => (bracketed r).map (fun p => (.oneOf (members p.1), p.2))

/-- The token of two stars at a position, and the text after them. They have to start the text or
follow a slash, and to end it or stand before a slash, which belongs to them. -/
def directories (position : Nat) (before : Option Char) (r : Text) : Except Fault (Token × Text) :=
  if position = 0 ∨ before = some '/' then
    match r with
    | [] => .ok (.anyDirectories, [])
    | '/' :: r => .ok (.anyDirectories, r)
    | _ => .error ⟨position + 2, .recursive⟩
  else .error ⟨position - 1, .recursive⟩

/-- The token of a character at a position and the text after it. -/
def token (position : Nat) (before : Option Char) (c : Char) (r : Text) :
    Except Fault (Token × Text) :=
  match c with
  | '?' => .ok (.anyChar, r)
  | '*' =>
    let more := r.takeWhile (fun d => d = '*')
    match more.length with
    | 0 => .ok (.anySequence, r)
    | 1 => directories position before (r.drop 1)
    | _ => .error ⟨position + 2, .stars⟩
  | '[' => match brackets? r with
    | some p => .ok p
    | none => .error ⟨position, .brackets⟩
  | c => .ok (.char c, r)

/-- The tokens of a text of which the first characters have been read. The fuel bounds the number of
tokens. -/
def tokensFrom (whole : Text) : Nat → Text → Except Fault (List Token)
  | 0, _ => .ok []
  | _ + 1, [] => .ok []
  | fuel + 1, c :: r =>
    let position := whole.length - (r.length + 1)
    match token position (whole[position - 1]?) c r with
    | .error f => .error f
    | .ok (t, rest) => match tokensFrom whole fuel rest with
      | .error f => .error f
      | .ok ts => .ok (t :: ts)

/-- The tokens of a pattern. -/
def tokens (s : Text) : Except Fault (List Token) :=
  tokensFrom s s.length s

/-! ## Matching -/

/-- Whether a token that stands for one character stands for this one. -/
def Token.accepts (c : Char) : Token → Bool
  | char d => c = d
  | oneOf l => l.any (Member.holds c)
  | noneOf l => !l.any (Member.holds c)
  | _ => true

/-- A text and what is left of it after each of its characters. -/
def suffixes : Text → List Text
  | [] => [[]]
  | c :: r => (c :: r) :: suffixes r

/-- Whether tokens match a whole name. -/
def accepts : List Token → Text → Bool
  | [], s => s.isEmpty
  | .anySequence :: ts, s => (suffixes s).any (accepts ts)
  | .anyDirectories :: ts, s => (suffixes s).any (accepts ts)
  | _ :: _, [] => false
  | t :: ts, c :: r => t.accepts c && accepts ts r

/-- The text that tokens stand for if they stand for only one. -/
def literal? : List Token → Option Text
  | [] => some []
  | .char c :: ts => (literal? ts).map (c :: ·)
  | _ :: _ => none

end DotGraph.Glob
