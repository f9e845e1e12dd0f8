import DotGraph.Text

/-!
# DOT tokens

The tokens of DOT text: punctuation, edge operators, and ids in three forms, namely plain words,
quoted strings and markup. A quoted string ends at the first quote that no backslash takes with it;
markup ends at the angle bracket that closes its first one.

- `Dot.tokens?_cons_blank`, `Dot.tokens?_cons`: blanks are passed over, and everything else starts a
  token.
-/

set_option autoImplicit false

namespace DotGraph.Dot

/-- A token. Quoted strings and markup are kept as they are written, without what encloses them. -/
inductive Token where
  | word (text : Text)
  | quoted (content : Text)
  | html (markup : Text)
  | openBrace | closeBrace | openBracket | closeBracket
  | semicolon | comma | equals | colon
  | edgeOperator (directed : Bool)
  deriving DecidableEq, Repr

/-- Whether a character can stand in a plain word. -/
def isWordChar (c : Char) : Bool :=
  c.isAlphanum || c = '_' || c = '.' || 128 ≤ c.toNat

/-- The content of a quoted string and the text after its closing quote. `pending` says whether the
character before is a backslash that takes the next one with it. -/
def quotedEnd? (pending : Bool) : Text → Option (Text × Text)
  | [] => none
  | c :: r =>
    if c = '"' && !pending then some ([], r)
    else (quotedEnd? (c = '\\' && !pending) r).map (fun x => (c :: x.1, x.2))

/-- How many angle brackets are open after a character. -/
def markupDepth (depth : Nat) (c : Char) : Nat :=
  if c = '<' then depth + 1 else if c = '>' then depth - 1 else depth

/-- The content of markup inside which `depth` angle brackets are open, and the text after the one
that closes it. -/
def markupEnd? (depth : Nat) : Text → Option (Text × Text)
  | [] => none
  | c :: r =>
    if c = '>' && depth = 0 then some ([], r)
    else (markupEnd? (markupDepth depth c) r).map (fun x => (c :: x.1, x.2))

/-- The token that a single character makes. -/
def punctuation? (c : Char) : Option Token :=
  if c = '\x7b' then some .openBrace
  else if c = '\x7d' then some .closeBrace
  else if c = '[' then some .openBracket
  else if c = ']' then some .closeBracket
  else if c = ';' then some .semicolon
  else if c = ',' then some .comma
  else if c = '=' then some .equals
  else if c = ':' then some .colon
  else none

/-- The edge operator after its first character, and the text after it. -/
def operatorEnd? : Text → Option (Token × Text)
  | [] => none
  | c :: r =>
    if c = '>' then some (.edgeOperator true, r)
    else if c = '-' then some (.edgeOperator false, r)
    else none

/-- The token that starts with a character which is no blank, and the text after it. -/
def next? (c : Char) (r : Text) : Option (Token × Text) :=
  match punctuation? c with
  | some t => some (t, r)
  | none =>
    if c = '-' then operatorEnd? r
    else if c = '"' then (quotedEnd? false r).map (fun x => (.quoted x.1, x.2))
    else if c = '<' then (markupEnd? 0 r).map (fun x => (.html x.1, x.2))
    else if isWordChar c then
      some (.word (c :: r.takeWhile isWordChar), r.dropWhile isWordChar)
    else none

theorem quotedEnd?_length : ∀ {s : Text} {pending : Bool} {x : Text × Text},
    quotedEnd? pending s = some x → x.2.length ≤ s.length
  | [], _, _, h => by cases h
  | c :: s, pending, x, h => by
    rw [quotedEnd?] at h
    split at h
    · cases h
      simp
    · obtain ⟨y, hy, rfl⟩ := Option.map_eq_some_iff.mp h
      have := quotedEnd?_length hy
      simp only [List.length_cons]
      omega

theorem markupEnd?_length : ∀ {s : Text} {depth : Nat} {x : Text × Text},
    markupEnd? depth s = some x → x.2.length ≤ s.length
  | [], _, _, h => by cases h
  | c :: s, depth, x, h => by
    rw [markupEnd?] at h
    split at h
    · cases h
      simp
    · obtain ⟨y, hy, rfl⟩ := Option.map_eq_some_iff.mp h
      have := markupEnd?_length hy
      simp only [List.length_cons]
      omega

theorem operatorEnd?_length {s : Text} {x : Token × Text} (h : operatorEnd? s = some x) :
    x.2.length ≤ s.length := by
  cases s with
  | nil => cases h
  | cons c r =>
    rw [operatorEnd?] at h
    split at h
    · cases h
      simp
    · split at h
      · cases h
        simp
      · cases h

theorem next?_length {c : Char} {r : Text} {x : Token × Text} (h : next? c r = some x) :
    x.2.length ≤ r.length := by
  unfold next? at h
  split at h
  · cases h
    exact Nat.le_refl _
  · split at h
    · exact operatorEnd?_length h
    · split at h
      · obtain ⟨y, hy, rfl⟩ := Option.map_eq_some_iff.mp h
        exact quotedEnd?_length hy
      · split at h
        · obtain ⟨y, hy, rfl⟩ := Option.map_eq_some_iff.mp h
          exact markupEnd?_length hy
        · split at h
          · cases h
            exact (List.dropWhile_sublist _).length_le
          · cases h

/-- The tokens of a text; none if a string or markup does not end, or if a character that is no
blank starts no token. -/
def tokens? (s : Text) : Option (List Token) :=
  match s with
  | [] => some []
  | c :: r =>
    if Text.isBlank c then tokens? r
    else match h : next? c r with
      | none => none
      | some (t, rest) =>
        have : rest.length ≤ r.length := next?_length h
        (tokens? rest).map (t :: ·)
termination_by s.length

theorem tokens?_nil : tokens? [] = some [] := by
  rw [tokens?]

theorem tokens?_cons_blank {c : Char} (h : Text.isBlank c = true) (r : Text) :
    tokens? (c :: r) = tokens? r := by
  rw [tokens?, if_pos h]

theorem tokens?_cons {c : Char} {r : Text} {t : Token} {rest : Text}
    (hb : Text.isBlank c = false) (h : next? c r = some (t, rest)) :
    tokens? (c :: r) = (tokens? rest).map (t :: ·) := by
  rw [tokens?, if_neg (by simp [hb])]
  split
  · simp_all
  · simp_all

end DotGraph.Dot
