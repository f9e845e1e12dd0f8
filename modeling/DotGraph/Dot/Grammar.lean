import DotGraph.Dot.Token
import DotGraph.Graph

/-!
# The grammar of DOT

A recogniser of graphs, by recursive descent over tokens: a header, and between braces statements
that may be closed by semicolons. A statement sets default attributes, is a subgraph, an assignment,
a node, or an edge, whose operator has to be the one that the header calls for. A word is a keyword
in any mixture of capitals, a quoted string never is.

Each reader gives the tokens that it leaves, together with the proof that there are no more of them
than it was given, so that the recursion ends.
-/

set_option autoImplicit false

namespace DotGraph.Dot

namespace Token

/-- Whether a token is an id. -/
def isId : Token → Bool
  | .word _ | .quoted _ | .html _ => true
  | _ => false

/-- Whether a token is a keyword. -/
def isKeyword (keyword : Text) : Token → Bool
  | .word w => Text.asciiLower w = keyword
  | _ => false

/-- Whether a token is the keyword of a component. -/
def isComponent (t : Token) : Bool :=
  Component.all.any (fun c => t.isKeyword c.keyword)

/-- Whether a token starts a subgraph. -/
def startsSubgraph (t : Token) : Bool :=
  t.isKeyword "subgraph".toList || t = .openBrace

/-- Whether a token is a point of the compass. -/
def isCompass : Token → Bool
  | .word w | .quoted w => (Compass.ofText? w).isSome
  | _ => false

end Token

namespace Grammar

/-- Tokens that are left of others, all of them or fewer. -/
abbrev Left (ts : List Token) := { r : List Token // r.length ≤ ts.length }

/-- Tokens that are left of others, not all of them. -/
abbrev Less (ts : List Token) := { r : List Token // r.length < ts.length }

/-- Passes over a semicolon. -/
def skipSemicolon : (ts : List Token) → Left ts
  | .semicolon :: r => ⟨r, Nat.le_succ _⟩
  | ts => ⟨ts, Nat.le_refl _⟩

/-- Passes over a semicolon or a comma. -/
def skipSeparator : (ts : List Token) → Left ts
  | .semicolon :: r | .comma :: r => ⟨r, Nat.le_succ _⟩
  | ts => ⟨ts, Nat.le_refl _⟩

/-- Passes over an id. -/
def skipId : (ts : List Token) → Left ts
  | [] => ⟨[], Nat.le_refl _⟩
  | t :: r => if t.isId then ⟨r, Nat.le_succ _⟩ else ⟨t :: r, Nat.le_refl _⟩

/-- Reads the entries of an attribute list up to its closing bracket. -/
def entries? (ts : List Token) : Option (Less ts) :=
  match ts with
  | .closeBracket :: r => some ⟨r, Nat.lt_succ_self _⟩
  | k :: .equals :: v :: r =>
    if k.isId && v.isId then
      have := (skipSeparator r).2
      match entries? (skipSeparator r).1 with
      | none => none
      | some ⟨u, hu⟩ => some ⟨u, by simp only [List.length_cons]; omega⟩
    else none
  | _ => none
termination_by ts.length

/-- Reads attribute lists as long as there are any. -/
def attrLists? (ts : List Token) : Option (Left ts) :=
  match ts with
  | .openBracket :: r => match entries? r with
    | none => none
    | some ⟨u, hu⟩ => match attrLists? u with
      | none => none
      | some ⟨v, hv⟩ => some ⟨v, by simp only [List.length_cons]; omega⟩
  | ts => some ⟨ts, Nat.le_refl _⟩
termination_by ts.length

/-- Reads a port, if there is one: an id, and possibly a point of the compass. -/
def port? (ts : List Token) : Option (Left ts) :=
  match ts with
  | [.colon] => none
  | .colon :: t :: r =>
    if t.isId then match r with
      | [.colon] => none
      | .colon :: p :: u =>
        if p.isCompass then some ⟨u, by simp only [List.length_cons]; omega⟩ else none
      | r => some ⟨r, by simp only [List.length_cons]; omega⟩
    else none
  | ts => some ⟨ts, Nat.le_refl _⟩

mutual

/-- Reads statements up to a closing brace or the end. -/
def statements? (directed : Bool) (ts : List Token) : Option (Left ts) :=
  match ts with
  | [] => some ⟨[], Nat.le_refl _⟩
  | .closeBrace :: r => some ⟨.closeBrace :: r, Nat.le_refl _⟩
  | t :: r => match statement? directed (t :: r) with
    | none => none
    | some ⟨u, hu⟩ =>
      have hs : (skipSemicolon u).1.length < (t :: r).length :=
        Nat.lt_of_le_of_lt (skipSemicolon u).2 hu
      match statements? directed (skipSemicolon u).1 with
      | none => none
      | some ⟨v, hv⟩ => some ⟨v, by omega⟩
termination_by (ts.length, 3)

/-- Reads a statement. -/
def statement? (directed : Bool) (ts : List Token) : Option (Less ts) :=
  match ts with
  | [] => none
  | t :: r =>
    if t.isComponent then match r with
      | .openBracket :: v => match attrLists? (.openBracket :: v) with
        | none => none
        | some ⟨u, hu⟩ => some ⟨u, Nat.lt_succ_of_le hu⟩
      | _ => none
    else if t.startsSubgraph then match subgraph? directed (t :: r) with
      | none => none
      | some ⟨u, hu⟩ => match edgeTail? directed false u with
        | none => none
        | some ⟨v, hv⟩ => some ⟨v, by omega⟩
    else if t.isId then match r with
      | [.equals] => none
      | .equals :: v :: u =>
        if v.isId then some ⟨u, by simp only [List.length_cons]; omega⟩ else none
      | r => match port? r with
        | none => none
        | some ⟨u, hu⟩ => match edgeTail? directed true u with
          | none => none
          | some ⟨v, hv⟩ => some ⟨v, by simp only [List.length_cons]; omega⟩
    else none
termination_by (ts.length, 2)

/-- Reads the further endpoints of an edge, each after its operator, and then attribute lists. These
are refused after a subgraph that no operator follows. -/
def edgeTail? (directed lists : Bool) (ts : List Token) : Option (Left ts) :=
  match ts with
  | [.edgeOperator _] => none
  | .edgeOperator e :: t :: r =>
    if e ≠ directed then none
    else if t.startsSubgraph then match subgraph? directed (t :: r) with
      | none => none
      | some ⟨u, hu⟩ =>
        have hu : u.length < r.length + 1 := hu
        match edgeTail? directed true u with
        | none => none
        | some ⟨v, hv⟩ => some ⟨v, by simp only [List.length_cons]; omega⟩
    else if t.isId then match port? r with
      | none => none
      | some ⟨u, hu⟩ => match edgeTail? directed true u with
        | none => none
        | some ⟨v, hv⟩ => some ⟨v, by simp only [List.length_cons]; omega⟩
    else none
  | .openBracket :: r => if lists then attrLists? (.openBracket :: r) else none
  | ts => some ⟨ts, Nat.le_refl _⟩
termination_by (ts.length, 1)

/-- Reads a subgraph: the keyword and a name, which may both be missing, and a body in braces. -/
def subgraph? (directed : Bool) (ts : List Token) : Option (Less ts) :=
  let header : Left ts := match ts with
    | t :: r =>
      if t.isKeyword "subgraph".toList then ⟨(skipId r).1, Nat.le_succ_of_le (skipId r).2⟩
      else ⟨t :: r, Nat.le_refl _⟩
    | [] => ⟨[], Nat.le_refl _⟩
  match header with
  | ⟨.openBrace :: r, hr⟩ =>
    have : r.length < ts.length := hr
    match statements? directed r with
    | some ⟨.closeBrace :: u, hu⟩ => some ⟨u, by simp only [List.length_cons] at hu; omega⟩
    | _ => none
  | _ => none
termination_by (ts.length, 0)

end

/-- Whether tokens make a graph. -/
def graph (ts : List Token) : Bool :=
  let ts := match ts with
    | t :: r => if t.isKeyword "strict".toList then r else t :: r
    | [] => []
  match ts with
  | [] => false
  | t :: r =>
    let directed := t.isKeyword "digraph".toList
    if directed || t.isKeyword "graph".toList then match (skipId r).1 with
      | .openBrace :: u => match statements? directed u with
        | some ⟨[.closeBrace], _⟩ => true
        | _ => false
      | _ => false
    else false

end Grammar

/-- Whether a text is the text of a graph. -/
def accepts (s : Text) : Bool :=
  match tokens? s with
  | none => false
  | some ts => Grammar.graph ts

end DotGraph.Dot
