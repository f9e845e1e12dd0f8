import DotGraph.Script.Command

/-!
# Reading scripts

The commands of a script from its text. Each reader takes the start of a text and gives what it has
read and the text after it, or none if the text is malformed. The fuel bounds the nesting and the
number of pieces.
-/

set_option autoImplicit false

namespace DotGraph.Script

/-- Whether a character ends a word that does not stand between quotes. -/
def endsWord (c : Char) : Bool :=
  " \t\n;&|<>()".toList.any (fun d => d = c)

/-- Whether a character can start a name. -/
def startsName (c : Char) : Bool :=
  c.isAlpha || c = '_'

/-- Whether a character can be in a name. -/
def isNameChar (c : Char) : Bool :=
  c.isAlphanum || c = '_'

/-- A text between words without the blanks and the comment in front. -/
def skipSpaces : Text → Text
  | ' ' :: r => skipSpaces r
  | '\t' :: r => skipSpaces r
  | '\\' :: '\n' :: r => skipSpaces r
  | '#' :: r => r.dropWhile (fun c => c ≠ '\n')
  | s => s

/-- A text between words without the blanks, line ends and comments in front. -/
def skipLines : Nat → Text → Text
  | 0, s => s
  | fuel + 1, s => match skipSpaces s with
    | '\n' :: r => skipLines fuel r
    | r => r

/-- The plain word that a text starts with. -/
def plainWord (s : Text) : Text :=
  s.takeWhile (fun c => !endsWord c && !"'\"\\$`".toList.any (fun d => d = c))

/-- A text after a plain word that it has to start with. -/
def keyword? (k : String) (s : Text) : Option Text :=
  if plainWord s = k.toList then some (s.drop k.length) else none

/-- The words that end a list of commands. -/
def closers : List Text :=
  ["then", "else", "elif", "fi", "do", "done", "esac", "\x7d"].map String.toList

/-- Whether a list of commands ends where a text starts. -/
def endsList : Text → Bool
  | [] => true
  | ')' :: _ => true
  | ';' :: ';' :: _ => true
  | s => closers.any (fun k => k = plainWord s)

/-- The text up to a character, and the text after it. -/
def textUpTo (stop : Char) (s : Text) : Option (Text × Text) :=
  match s.dropWhile (fun c => c ≠ stop) with
  | [] => none
  | _ :: r => some (s.takeWhile (fun c => c ≠ stop), r)

/-- What is made of a parameter, from the text after its name in braces. -/
def use? : Text → Option Use
  | [] => some .value
  | ':' :: '-' :: t => some (.orElse true t)
  | '-' :: t => some (.orElse false t)
  | '#' :: '#' :: t => some (.without false true t)
  | '#' :: t => some (.without false false t)
  | '%' :: '%' :: t => some (.without true true t)
  | '%' :: t => some (.without true false t)
  | _ => none

/-- The name of a parameter at the start of a text: a name, a number or a single sign. -/
def parameterName : Text → Text
  | [] => []
  | c :: r => if isNameChar c then (c :: r).takeWhile isNameChar else [c]

/-- The parameter in braces. -/
def braced? (s : Text) : Option (Parameter × Text) :=
  match textUpTo '\x7d' s with
  | none => none
  | some ('#' :: c :: inner, r) =>
    if parameterName (c :: inner) = c :: inner then some (⟨c :: inner, .length⟩, r)
    else (use? (c :: inner)).map (fun u => (⟨['#'], u⟩, r))
  | some (inner, r) =>
    let name := parameterName inner
    (use? (inner.drop name.length)).map (fun u => (⟨name, u⟩, r))

/-- The parameter after a dollar sign, if there is one. -/
def parameter? : Text → Option (Parameter × Text)
  | '\x7b' :: r => braced? r
  | c :: r =>
    if c.isDigit || "@*#?$".toList.any (fun d => d = c) then some (⟨[c], .value⟩, r)
    else if startsName c then
      some (⟨(c :: r).takeWhile isNameChar, .value⟩, (c :: r).dropWhile isNameChar)
    else none
  | [] => none

/-- The name in front of an equals sign at the start of a text, and the text after the sign. -/
def assigned? (s : Text) : Option (Text × Text) :=
  let name := s.takeWhile isNameChar
  match name.head?, s.drop name.length with
  | some c, '=' :: r => if startsName c then some (name, r) else none
  | _, _ => none

/-- The operator of a redirection and the text after it. -/
def direction? : Text → Option (Nat × Direction × Text)
  | '>' :: '>' :: r => some (1, .append, r)
  | '>' :: '&' :: r => some (1, .copy, r)
  | '>' :: '|' :: r => some (1, .write, r)
  | '>' :: r => some (1, .write, r)
  | '<' :: '&' :: r => some (0, .copy, r)
  | '<' :: r => some (0, .read, r)
  | _ => none

/-- The stream and the operator of a redirection. A number in front of the operator names the
stream. -/
def redirectionStart? (s : Text) : Option (Nat × Direction × Text) :=
  let digits := s.takeWhile Char.isDigit
  match direction? (s.drop digits.length) with
  | none => none
  | some (n, d, r) => match digits with
    | [] => some (n, d, r)
    | [c] => some (c.toNat - '0'.toNat, d, r)
    | _ => none

mutual

/-- The parts of a word, or of the inside of double quotes up to the closing one. -/
def parts? (lines : Nat) : Nat → Bool → Text → Option (List Part × Text)
  | 0, _, _ => none
  | _ + 1, inner, [] => if inner then none else some ([], [])
  | fuel + 1, inner, c :: r =>
    if inner && c = '"' then some ([], r)
    else if !inner && endsWord c then some ([], c :: r)
    else match part? lines fuel inner c r with
      | none => none
      | some (ps, rest) => match parts? lines fuel inner rest with
        | none => none
        | some (qs, rest) => some (ps ++ qs, rest)

/-- The parts that a character in a word begins. -/
def part? (lines : Nat) : Nat → Bool → Char → Text → Option (List Part × Text)
  | 0, _, _, _ => none
  | fuel + 1, inner, c, r => match c, r with
    | '\\', '\n' :: r => some ([], r)
    | '\\', d :: r =>
      if inner && !"$`\"\\".toList.any (fun e => e = d) then some ([.text true ['\\', d]], r)
      else some ([.text true [d]], r)
    | '\'', r =>
      if inner then some ([.text true ['\'']], r)
      else (textUpTo '\'' r).map (fun p => ([.text true p.1], p.2))
    | '"', r => match parts? lines fuel true r with
      | none => none
      | some (ps, rest) => some (if ps.isEmpty then [.text true []] else ps, rest)
    | '`', r => match textUpTo '`' r with
      | none => none
      | some (commands, rest) => match list? lines fuel commands with
        | some (l, []) => some ([.output inner l], rest)
        | _ => none
    | '$', '(' :: r => match list? lines fuel r with
      | some (l, ')' :: rest) => some ([.output inner l], rest)
      | _ => none
    | '$', r => match parameter? r with
      | some (p, rest) => some ([.parameter inner p], rest)
      | none => some ([.text inner ['$']], r)
    | c, r => some ([.text inner [c]], r)

/-- A word. -/
def word? (lines : Nat) : Nat → Text → Option (List Part × Text)
  | 0, _ => none
  | fuel + 1, s => match parts? lines fuel false (skipSpaces s) with
    | some ([], _) => none
    | r => r

/-- Words up to the end of a command. -/
def words? (lines : Nat) : Nat → Text → Option (List (List Part) × Text)
  | 0, _ => none
  | fuel + 1, s => match skipSpaces s with
    | [] => some ([], [])
    | c :: r =>
      if endsWord c then some ([], c :: r)
      else match word? lines fuel (c :: r) with
        | none => none
        | some (w, rest) => match words? lines fuel rest with
          | none => none
          | some (ws, rest) => some (w :: ws, rest)

/-- The redirections that a text starts with. -/
def redirections? (lines : Nat) : Nat → Text → Option (List Redirection × Text)
  | 0, _ => none
  | fuel + 1, s => match redirectionStart? (skipSpaces s) with
    | none => some ([], skipSpaces s)
    | some (n, d, r) => match word? lines fuel r with
      | none => none
      | some (w, rest) => match redirections? lines fuel rest with
        | none => none
        | some (l, rest) => some (.mk n d w :: l, rest)

/-- What is left of a simple command, of which the assignments, words and redirections so far are
given with the last ones first. -/
def simple? (lines line : Nat) (assignments : List (Text × List Part)) (words : List (List Part))
    (redirections : List Redirection) : Nat → Text → Option (Command × Text)
  | 0, _ => none
  | fuel + 1, s =>
    let s := skipSpaces s
    match redirectionStart? s with
    | some (n, d, r) => match word? lines fuel r with
      | none => none
      | some (w, rest) =>
        simple? lines line assignments words (.mk n d w :: redirections) fuel rest
    | none => match words, assigned? s with
      | [], some (name, r) => match parts? lines fuel false r with
        | none => none
        | some (v, rest) => simple? lines line ((name, v) :: assignments) [] redirections fuel rest
      | words, _ =>
        if s.head?.all endsWord then
          if words.isEmpty && assignments.isEmpty && redirections.isEmpty then none
          else some (.simple line assignments.reverse words.reverse redirections.reverse, s)
        else match word? lines fuel s with
          | none => none
          | some (w, rest) => simple? lines line assignments (w :: words) redirections fuel rest

/-- What is left of a condition after its first keyword. -/
def branch? (lines : Nat) : Nat → Text → Option (Command × Text)
  | 0, _ => none
  | fuel + 1, s => match list? lines fuel s with
    | none => none
    | some (condition, r) => match (keyword? "then" r).bind (list? lines fuel) with
      | none => none
      | some (body, r) => match keyword? "elif" r, keyword? "else" r with
        | some r, _ => (branch? lines fuel r).map (fun p => (.branch condition body [p.1], p.2))
        | none, some r => match list? lines fuel r with
          | none => none
          | some (otherwise, r) =>
            (keyword? "fi" r).map (fun r => (.branch condition body otherwise, r))
        | none, none => (keyword? "fi" r).map (fun r => (.branch condition body [], r))

/-- The body of a loop. -/
def body? (lines : Nat) : Nat → Text → Option (List Command × Text)
  | 0, _ => none
  | fuel + 1, s => match (keyword? "do" s).bind (list? lines fuel) with
    | none => none
    | some (body, r) => (keyword? "done" r).map (fun r => (body, r))

/-- The patterns of a case, separated by bars, up to the closing bracket. -/
def patterns? (lines : Nat) : Nat → Text → Option (List (List Part) × Text)
  | 0, _ => none
  | fuel + 1, s => match word? lines fuel s with
    | none => none
    | some (w, r) => match skipSpaces r with
      | '|' :: r => (patterns? lines fuel r).map (fun p => (w :: p.1, p.2))
      | ')' :: r => some ([w], r)
      | _ => none

/-- The cases of a choice up to its last keyword. -/
def cases? (lines : Nat) : Nat → Text → Option (List (List (List Part) × List Command) × Text)
  | 0, _ => none
  | fuel + 1, s =>
    let s := skipLines s.length s
    match keyword? "esac" s with
    | some r => some ([], r)
    | none => match patterns? lines fuel (if s.head? = some '(' then s.drop 1 else s) with
      | none => none
      | some (ps, r) => match list? lines fuel r with
        | none => none
        | some (body, r) =>
          let r := match r with
            | ';' :: ';' :: r => r
            | r => r
          (cases? lines fuel r).map (fun p => ((ps, body) :: p.1, p.2))

/-- A command. -/
def command? (lines : Nat) : Nat → Text → Option (Command × Text)
  | 0, _ => none
  | fuel + 1, s =>
    let line := lines - s.count '\n' + 1
    match s, plainWord s with
    | '(' :: r, _ => match list? lines fuel r with
      | some (l, ')' :: r) =>
        (redirections? lines fuel r).map (fun p => (.group line true l p.1, p.2))
      | _ => none
    | s, ['\x7b'] => match list? lines fuel (s.drop 1) with
      | some (l, '\x7d' :: r) =>
        (redirections? lines fuel r).map (fun p => (.group line false l p.1, p.2))
      | _ => none
    | s, ['i', 'f'] => branch? lines fuel (s.drop 2)
    | s, ['w', 'h', 'i', 'l', 'e'] => loop? lines fuel false (s.drop 5)
    | s, ['u', 'n', 't', 'i', 'l'] => loop? lines fuel true (s.drop 5)
    | s, ['f', 'o', 'r'] => each? lines fuel (skipSpaces (s.drop 3))
    | s, ['c', 'a', 's', 'e'] => match word? lines fuel (s.drop 4) with
      | none => none
      | some (w, r) => match (keyword? "in" (skipLines r.length r)).bind (cases? lines fuel) with
        | none => none
        | some (l, r) => some (.choose w l, r)
    | s, _ => simple? lines line [] [] [] fuel s

/-- What is left of a loop with a condition after its first keyword. -/
def loop? (lines : Nat) : Nat → Bool → Text → Option (Command × Text)
  | 0, _, _ => none
  | fuel + 1, whileFails, s => match list? lines fuel s with
    | none => none
    | some (condition, r) =>
      (body? lines fuel r).map (fun p => (.loop whileFails condition p.1, p.2))

/-- What is left of a loop over words after its first keyword. Without words it goes over the
arguments. -/
def each? (lines : Nat) : Nat → Text → Option (Command × Text)
  | 0, _ => none
  | fuel + 1, s =>
    let name := s.takeWhile isNameChar
    let r := skipLines s.length (s.drop name.length)
    let ws := match keyword? "in" r with
      | some r => words? lines fuel r
      | none => some ([[.parameter true ⟨['@'], .value⟩]], r)
    match ws with
    | none => none
    | some (ws, r) =>
      let ended := if (skipSpaces r).head? = some ';' then (skipSpaces r).drop 1 else r
      let r := skipLines ended.length ended
      (body? lines fuel r).map (fun p => (.each name ws p.1, p.2))

/-- Commands joined by bars. -/
def pipeline? (lines : Nat) : Nat → Text → Option (List Command × Text)
  | 0, _ => none
  | fuel + 1, s => match command? lines fuel (skipLines s.length s) with
    | none => none
    | some (c, r) => match skipSpaces r with
      | '|' :: '|' :: r => some ([c], '|' :: '|' :: r)
      | '|' :: r => (pipeline? lines fuel r).map (fun p => (c :: p.1, p.2))
      | r => some ([c], r)

/-- A pipeline, of which the outcome may be reversed. -/
def negatable? (lines : Nat) : Nat → Text → Option (Command × Text)
  | 0, _ => none
  | fuel + 1, s =>
    let s := skipLines s.length s
    match keyword? "!" s with
    | some r => (pipeline? lines fuel r).map (fun p => (.pipeline true p.1, p.2))
    | none => (pipeline? lines fuel s).map (fun p => match p.1 with
      | [c] => (c, p.2)
      | l => (.pipeline false l, p.2))

/-- What is left of pipelines that are joined by conditions, after the first. -/
def joined? (lines : Nat) : Nat → Command → Text → Option (Command × Text)
  | 0, _, _ => none
  | fuel + 1, c, s => match skipSpaces s with
    | '&' :: '&' :: r => match negatable? lines fuel r with
      | none => none
      | some (d, r) => joined? lines fuel (.join .andThen c d) r
    | '|' :: '|' :: r => match negatable? lines fuel r with
      | none => none
      | some (d, r) => joined? lines fuel (.join .orElse c d) r
    | r => some (c, r)

/-- A list of commands up to the end of the text or something that ends a list. -/
def list? (lines : Nat) : Nat → Text → Option (List Command × Text)
  | 0, _ => none
  | fuel + 1, s =>
    let s := skipLines s.length s
    if endsList s then some ([], s)
    else match (negatable? lines fuel s).bind (fun p => joined? lines fuel p.1 p.2) with
      | none => none
      | some (c, r) => match r with
        | ';' :: ';' :: _ => some ([c], r)
        | ';' :: r => (list? lines fuel r).map (fun p => (c :: p.1, p.2))
        | '\n' :: r => (list? lines fuel r).map (fun p => (c :: p.1, p.2))
        | r => if endsList r then some ([c], r) else none

end

/-- The commands of a script. -/
def commands? (s : Text) : Option (List Command) :=
  match list? (s.count '\n') (10 * s.length + 10) s with
  | some (l, []) => some l
  | _ => none

end DotGraph.Script
