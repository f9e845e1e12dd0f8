import DotGraph.Glob.Pattern
import DotGraph.Script.Read
import DotGraph.Script.Tool

/-!
# Running scripts

A script runs on a state: variables, arguments, the octets left of its input, the files, and what it
has printed so far. Where a command prints to is given beside the state; the output of a command
that is used as a word goes to a channel of its own. Every run ends, since the fuel bounds the depth
and the length of what is run.
-/

set_option autoImplicit false

namespace DotGraph.Script

/-- Where octets are printed to: a channel of the state, a file, or nowhere. -/
inductive Sink where
  | channel (index : Nat)
  | file (path : Path)
  | nowhere
  deriving DecidableEq, Repr

/-- Where output and complaints go. -/
structure Streams where
  output : Sink
  complaint : Sink
  deriving DecidableEq, Repr

/-- The state of a running script. Channel 0 holds its output and channel 1 its complaints. -/
structure State where
  name : Octets
  arguments : List Octets
  bindings : List (Text × Octets)
  status : Nat
  input : Octets
  files : Files
  channels : List Octets

/-- Whether a script goes on, leaves a loop or begins it again, ends by itself, or is ended by a
signal. -/
inductive Flow where
  | next
  | leave (again : Bool)
  | exit
  | killed (signal : Nat)
  deriving DecidableEq, Repr

/-! ## Patterns -/

/-- An octet as a character of its own. -/
def asChars (o : Octets) : Text :=
  o.map (fun b => Char.ofNat b.toNat)

/-- The tokens of a pattern that is a chunk without quotes. -/
def patternTokens : Nat → Text → List Glob.Token
  | 0, _ => []
  | _ + 1, [] => []
  | fuel + 1, c :: r => match c with
    | '*' => .anySequence :: patternTokens fuel r
    | '?' => .anyChar :: patternTokens fuel r
    | '[' => match Glob.brackets? r with
      | some (t, rest) => t :: patternTokens fuel rest
      | none => .char '[' :: patternTokens fuel r
    | c => .char c :: patternTokens fuel r

/-- What is left of octets without a part at their start or end that a pattern matches. -/
def cut (atEnd longest : Bool) (pattern : Text) (o : Octets) : Octets :=
  let tokens := patternTokens (pattern.length + 1) pattern
  let places := List.range (o.length + 1)
  let part (n : Nat) : Octets := if atEnd then o.drop n else o.take n
  let place := (if atEnd = longest then places else places.reverse).find? (fun n =>
    Glob.accepts tokens (asChars (part n)))
  match place with
  | some n => if atEnd then o.take n else o.drop n
  | none => o

namespace State

/-- Prints octets. -/
def print (s : State) (sink : Sink) (b : Octets) : State :=
  match sink with
  | .nowhere => s
  | .channel i => { s with channels := s.channels.modify i (fun o => o ++ b) }
  | .file p =>
    let before := match s.files.read p with
      | .ok c => c
      | .error _ => []
    match s.files.write p (before ++ b) with
    | .ok f => { s with files := f }
    | .error _ => s

/-- The state with a variable set. -/
def assign (s : State) (name : Text) (value : Octets) : State :=
  { s with bindings := (name, value) :: s.bindings.filter (fun v => v.1 ≠ name) }

/-- The number by which the script knows itself. -/
def processNumber : Octets := octets "4711"

/-- The value of a parameter that is one text. -/
def value? (s : State) (name : Text) : Option Octets :=
  match name with
  | ['0'] => some s.name
  | ['#'] => some (Octets.ofText (Decimal.digits s.arguments.length))
  | ['?'] => some (Octets.ofText (Decimal.digits s.status))
  | ['$'] => some processNumber
  | ['@'] => some (spaced s.arguments)
  | ['*'] => some (spaced s.arguments)
  | n =>
    if n.all Decimal.isDigit then s.arguments[Decimal.valueOf n - 1]?
    else (s.bindings.find? (fun v => v.1 = n)).map Prod.snd

/-- What is made of the value of a parameter. -/
def value (s : State) (p : Parameter) : Octets :=
  let v := (s.value? p.name).getD []
  match p.use with
  | .value => v
  | .orElse orEmpty t =>
    if s.value? p.name = none ∨ (orEmpty ∧ v = []) then Octets.ofText t else v
  | .length => Octets.ofText (Decimal.digits v.length)
  | .without atEnd longest pattern => cut atEnd longest pattern v

/-- What a complaint about a line of the script starts with. -/
def place (s : State) (line : Nat) : Octets :=
  s.name ++ octets ": " ++ Octets.ofText (Decimal.digits line) ++ octets ": "

/-- Goes on from what a part of the script with variables of its own has left. -/
def leave (s inner : State) : State :=
  { s with status := inner.status, input := inner.input, files := inner.files,
           channels := inner.channels }

end State

/-! ## Words -/

/-- A piece of a word that has been replaced by its value: octets, which may be taken apart or not,
or the border between two arguments. -/
inductive Chunk where
  | octets (fixed : Bool) (octets : Octets)
  | border
  deriving DecidableEq, Repr

/-- Whether an octet separates the words of a value. -/
def separates (b : UInt8) : Bool :=
  b = 32 || b = 9 || b = 10

/-- Adds the octets of a value that may be taken apart to the words so far, the last of which comes
first, and to a word that has been begun. -/
def addOpen (words : List Octets) (begun : Option Octets) : Octets → List Octets × Option Octets
  | [] => (words, begun)
  | b :: r =>
    if separates b then match begun with
      | some w => addOpen (w.reverse :: words) none r
      | none => addOpen words none r
    else addOpen words (some (b :: begun.getD [])) r

/-- The words that chunks make, after the words so far and one that has been begun. -/
def assemble (words : List Octets) (begun : Option Octets) : List Chunk → List Octets
  | [] => match begun with
    | some w => (w.reverse :: words).reverse
    | none => words.reverse
  | .octets true o :: r => assemble words (some (o.reverse ++ begun.getD [])) r
  | .octets false o :: r =>
    let (ws, b) := addOpen words begun o
    assemble ws b r
  | .border :: r => assemble ((begun.getD []).reverse :: words) none r

/-- The octets of chunks that are not taken apart. -/
def joinChunks : List Chunk → Octets
  | [] => []
  | .octets _ o :: r => o ++ joinChunks r
  | .border :: r => 32 :: joinChunks r

/-- The pattern that chunks make: what stood between quotes means itself. -/
def chunkTokens : List Chunk → List Glob.Token
  | [] => []
  | .octets true o :: r => (asChars o).map .char ++ chunkTokens r
  | .octets false o :: r => patternTokens (o.length + 1) (asChars o) ++ chunkTokens r
  | .border :: r => .char ' ' :: chunkTokens r

/-- The arguments of a script as chunks with borders between them. -/
def argumentChunks (fixed : Bool) : List Octets → List Chunk
  | [] => []
  | [a] => [.octets fixed a]
  | a :: l => .octets fixed a :: .border :: argumentChunks fixed l

/-- A value without the line ends at its end. -/
def dropLineEnds (o : Octets) : Octets :=
  (o.reverse.dropWhile (fun b => b = 10)).reverse

/-! ## Commands that concern the script itself -/

/-- The number of a signal as it is written: a number or a name, with or without `SIG`. -/
def signal? (o : Octets) : Option Nat :=
  let t := Octets.decodeLossy o
  let name := String.ofList (if Text.startsWith t "SIG".toList then t.drop 3 else t)
  match number? o with
  | some n => some n
  | none => (ExitStatus.signalNames.idxOf? name).map (· + 1)

/-- The signal that a command to end a process sends to the script itself. -/
def suicide? : List Octets → Option Nat
  | [p] => if p = State.processNumber then some 15 else none
  | [[45, 115], n, p] => if p = State.processNumber then signal? n else none
  | [45 :: n, p] => if p = State.processNumber then signal? n else none
  | _ => none

/-- The first line of octets without its line end, and the octets after it. -/
def firstLine (o : Octets) : Octets × Octets :=
  (o.takeWhile (fun b => b ≠ 10), (o.dropWhile (fun b => b ≠ 10)).drop 1)

/-- Octets without separators at their ends. -/
def trimmed (o : Octets) : Octets :=
  ((o.dropWhile separates).reverse.dropWhile separates).reverse

/-- Gives each variable a word of a line, and the last one what is left of it. -/
def State.assignWords (s : State) (line : Octets) : List Text → State
  | [] => s
  | [n] => s.assign n (trimmed line)
  | n :: r =>
    let l := line.dropWhile separates
    (s.assign n (l.takeWhile (fun b => !separates b))).assignWords
      (l.dropWhile (fun b => !separates b)) r

/-- Reads a line of the input into variables. It is not taken apart if the separators have been set
to none. -/
def State.readLine (s : State) (names : List Text) : State :=
  let (line, rest) := firstLine s.input
  let status := if s.input.any (fun b => b = 10) then 0 else 1
  let s := { s with input := rest, status := status }
  match s.value? "IFS".toList, names with
  | some [], n :: _ => s.assign n line
  | _, l => s.assignWords line l

/-- The directories in which programs are. -/
def programDirectories : List Text :=
  ["/bin/".toList, "/usr/bin/".toList]

/-- The name of a program without the directory of programs. -/
def programName (o : Octets) : Octets :=
  match programDirectories.find? (fun d => Text.startsWith (Octets.decodeLossy o) d) with
  | some d => o.drop d.length
  | none => o

/-- Runs a command that is one word and its arguments. -/
def runWords (line : Nat) (io : Streams) (s : State) (command : Octets) (arguments : List Octets) :
    State × Flow :=
  match String.ofList (Octets.decodeLossy command) with
  | "exit" => match arguments with
    | a :: _ => match number? a with
      | some n => ({ s with status := n % 256 }, .exit)
      | none =>
        let complaint := s.place line ++ octets "exit: Illegal number: " ++ a ++ [10]
        ({ s.print io.complaint complaint with status := 2 }, .exit)
    | [] => (s, .exit)
  | "kill" => match suicide? arguments with
    | some n => (s, if n = 0 then .next else .killed n)
    | none => ({ s with status := 1 }, .next)
  | "shift" => ({ s with arguments := s.arguments.drop 1, status := 0 }, .next)
  | "set" => (match arguments with
    | [45, 45] :: l => { s with arguments := l, status := 0 }
    | _ => { s with status := 0 }, .next)
  | "break" => (s, .leave false)
  | "continue" => (s, .leave true)
  | "read" =>
    (s.readLine ((arguments.filter (fun a => a ≠ [45, 114])).map Octets.decodeLossy), .next)
  | _ => match runTool? (programName command) arguments s.input s.files with
    | some e =>
      let t := { s with input := e.rest, files := e.files, status := e.status }
      ((t.print io.output e.output).print io.complaint e.complaint, .next)
    | none =>
      let complaint := s.place line ++ command ++ octets ": not found\n"
      ({ s.print io.complaint complaint with status := 127 }, .next)

/-! ## Running -/

mutual

/-- Replaces the parts of a word by their values. -/
def expand : Nat → Streams → State → List Part → State × List Chunk
  | 0, _, s, _ => (s, [])
  | _ + 1, _, s, [] => (s, [])
  | fuel + 1, io, s, p :: r =>
    let (s, chunks) := match p with
      | .text q t => (s, [.octets q (Octets.ofText t)])
      | .parameter q p =>
        (s, if p.name = ['@'] then argumentChunks q s.arguments else [.octets q (s.value p)])
      | .output q l =>
        let channel := s.channels.length
        let inner := { s with channels := s.channels ++ [[]] }
        let (t, _) := runAll fuel { io with output := .channel channel } inner l
        let printed := t.channels.getD channel []
        let t := { s.leave t with channels := t.channels.take channel }
        (t, [.octets q (dropLineEnds printed)])
    let (s, more) := expand fuel io s r
    (s, chunks ++ more)

/-- Replaces several words by their values. -/
def expandAll : Nat → Streams → State → List (List Part) → State × List Octets
  | 0, _, s, _ => (s, [])
  | _ + 1, _, s, [] => (s, [])
  | fuel + 1, io, s, w :: r =>
    let (s, chunks) := expand fuel io s w
    let (s, more) := expandAll fuel io s r
    (s, assemble [] none chunks ++ more)

/-- Opens the targets of the redirections in a line. There are no streams if one cannot be
opened. -/
def redirect (line : Nat) : Nat → Streams → State → List Redirection → State × Option Streams
  | 0, io, s, _ => (s, some io)
  | _ + 1, io, s, [] => (s, some io)
  | fuel + 1, io, s, .mk n d w :: r =>
    let (s, chunks) := expand fuel io s w
    let target := joinChunks chunks
    let path := Octets.decodeLossy target
    let aim (sink : Sink) : Streams :=
      if n = 1 then { io with output := sink }
      else if n = 2 then { io with complaint := sink }
      else io
    let refused (doing : String) (reason : String) :=
      (s.print io.complaint (s.place line ++ octets doing ++ target ++ octets reason), none)
    match d with
    | .copy =>
      if target = [49] then redirect line fuel (aim io.output) s r
      else if target = [50] then redirect line fuel (aim io.complaint) s r
      else redirect line fuel io s r
    | .read => match s.files.read path with
      | .ok c => redirect line fuel io { s with input := c } r
      | .error _ =>
        if path = "/dev/null".toList then redirect line fuel io { s with input := [] } r
        else refused "cannot open " ": No such file\n"
    | d =>
      if path = "/dev/null".toList then redirect line fuel (aim .nowhere) s r
      else
        let before := match d, s.files.read path with
          | .append, .ok c => c
          | _, _ => []
        match s.files.write path before with
        | .ok f => redirect line fuel (aim (.file path)) { s with files := f } r
        | .error .isDirectory => refused "cannot create " ": Is a directory\n"
        | .error _ => refused "cannot create " ": Directory nonexistent\n"

/-- Runs commands one after the other. -/
def runAll : Nat → Streams → State → List Command → State × Flow
  | 0, _, s, _ => (s, .exit)
  | _ + 1, _, s, [] => (s, .next)
  | fuel + 1, io, s, c :: r => match run fuel io s c with
    | (s, .next) => runAll fuel io s r
    | out => out

/-- Sets variables. -/
def assignAll : Nat → Streams → State → List (Text × List Part) → State
  | 0, _, s, _ => s
  | _ + 1, _, s, [] => s
  | fuel + 1, io, s, (n, w) :: r =>
    let (s, chunks) := expand fuel io s w
    assignAll fuel io (s.assign n (joinChunks chunks)) r

/-- Runs commands of which each reads what the one before prints. -/
def runPipeline : Nat → Streams → State → List Command → State × Flow
  | 0, _, s, _ => (s, .exit)
  | _ + 1, _, s, [] => (s, .next)
  | fuel + 1, io, s, [c] => match run fuel io s c with
    | (t, .killed n) => (s.leave t, .killed n)
    | (t, _) => (s.leave t, .next)
  | fuel + 1, io, s, c :: r =>
    let channel := s.channels.length
    let inner := { s with channels := s.channels ++ [[]] }
    match run fuel { io with output := .channel channel } inner c with
    | (t, .killed n) => (s.leave t, .killed n)
    | (t, _) =>
      let printed := t.channels.getD channel []
      let t := { s.leave t with channels := t.channels.take channel }
      let (u, flow) := runPipeline fuel io { t with input := printed } r
      ({ u with input := t.input }, flow)

/-- Runs the body of the first case with a pattern that matches. -/
def runCases : Nat → Streams → State → Text → List (List (List Part) × List Command) → State × Flow
  | 0, _, s, _, _ => (s, .exit)
  | _ + 1, _, s, _, [] => ({ s with status := 0 }, .next)
  | fuel + 1, io, s, subject, (patterns, body) :: r =>
    if patterns.any (fun p => Glob.accepts (chunkTokens (expand fuel io s p).2) subject) then
      runAll fuel io { s with status := 0 } body
    else runCases fuel io s subject r

/-- Runs a body once for each word. -/
def runEach : Nat → Streams → State → Text → List Octets → List Command → State × Flow
  | 0, _, s, _, _, _ => (s, .exit)
  | _ + 1, _, s, _, [], _ => (s, .next)
  | fuel + 1, io, s, n, w :: r, body => match runAll fuel io (s.assign n w) body with
    | (s, .next) | (s, .leave true) => runEach fuel io s n r body
    | (s, .leave false) => (s, .next)
    | out => out

/-- Runs a body as long as a condition holds, or fails. -/
def runLoop : Nat → Streams → State → Bool → List Command → List Command → State × Flow
  | 0, _, s, _, _, _ => (s, .exit)
  | fuel + 1, io, s, whileFails, condition, body => match runAll fuel io s condition with
    | (t, .next) =>
      if (t.status = 0) = whileFails then ({ t with status := 0 }, .next)
      else match runAll fuel io t body with
        | (t, .next) | (t, .leave true) => runLoop fuel io t whileFails condition body
        | (t, .leave false) => (t, .next)
        | out => out
    | out => out

/-- Runs a command. -/
def run : Nat → Streams → State → Command → State × Flow
  | 0, _, s, _ => (s, .exit)
  | fuel + 1, io, s, .simple line assignments words redirections =>
    match expandAll fuel io s words with
    | (s, ws) => match redirect line fuel io s redirections with
      | (t, none) => ({ t with status := 2 }, .next)
      | (t, some inner) =>
        let back (r : State × Flow) : State × Flow :=
          if redirections.any (fun | .mk _ d _ => d = .read) then
            ({ r.1 with input := s.input }, r.2)
          else r
        match ws with
        | [] => (assignAll fuel inner { t with status := 0 } assignments, .next)
        | c :: l =>
          if c = octets "exec" then
            match l with
            | [] => (t, .next)
            | c :: l => ((runWords line inner t c l).1, .exit)
          else back (runWords line inner (assignAll fuel inner t assignments) c l)
  | fuel + 1, io, s, .pipeline negated l =>
    let (t, flow) := match l with
      | [c] => run fuel io s c
      | l => runPipeline fuel io s l
    (if negated then { t with status := if t.status = 0 then 1 else 0 } else t, flow)
  | fuel + 1, io, s, .join joint a b => match run fuel io s a with
    | (t, .next) =>
      if (t.status = 0) = (joint = .andThen) then run fuel io t b else (t, .next)
    | out => out
  | fuel + 1, io, s, .group line own body redirections =>
    match redirect line fuel io s redirections with
    | (t, none) => ({ t with status := 2 }, .next)
    | (t, some inner) => match runAll fuel inner t body with
      | (u, .killed n) => (u, .killed n)
      | (u, flow) => if own then (t.leave u, .next) else (u, flow)
  | fuel + 1, io, s, .branch condition body otherwise => match runAll fuel io s condition with
    | (t, .next) =>
      if t.status = 0 then runAll fuel io t body
      else runAll fuel io { t with status := 0 } otherwise
    | out => out
  | fuel + 1, io, s, .loop whileFails condition body => runLoop fuel io s whileFails condition body
  | fuel + 1, io, s, .each name words body =>
    let (s, ws) := expandAll fuel io s words
    runEach fuel io { s with status := 0 } name ws body
  | fuel + 1, io, s, .choose subject cases =>
    let (s, chunks) := expand fuel io s subject
    runCases fuel io s (asChars (joinChunks chunks)) cases

end

/-! ## Programs -/

/-- What comes of a program that has run. -/
structure Result where
  output : Octets
  complaint : Octets
  status : ExitStatus
  files : Files

/-- Runs the text of a script with a name, arguments and an input. -/
def runText (name : Octets) (script : Text) (arguments : List Octets) (input : Octets) (f : Files) :
    Result :=
  match commands? script with
  | none => ⟨[], name ++ octets ": Syntax error\n", .code 2, f⟩
  | some l =>
    let start : State := ⟨name, arguments, [], 0, input, f, [[], []]⟩
    let fuel := 10000 + 10 * script.length
    let (s, flow) := runAll fuel ⟨.channel 0, .channel 1⟩ start l
    ⟨s.channels.getD 0 [], s.channels.getD 1 [], match flow with
      | .killed n => .signal n
      | _ => .code s.status, s.files⟩

end DotGraph.Script
