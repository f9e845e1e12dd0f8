import DotGraph.Decimal.Integer
import DotGraph.Files

/-!
# Tools of scripts

The programs that scripts call to pass octets on, to change them and to print. Each takes its
arguments, the octets that are left of its input, and the files, and says what it prints, what it
complains of, how it ends, and what it leaves.
-/

set_option autoImplicit false

namespace DotGraph.Script

/-- What comes of a tool. -/
structure Effect where
  output : Octets
  complaint : Octets
  status : Nat
  rest : Octets
  files : Files

/-- The octets of a text in a program. -/
def octets (s : String) : Octets :=
  Octets.ofText s.toList

/-- The octet of an ASCII character. -/
def octet (c : Char) : UInt8 :=
  c.toNat.toUInt8

/-- The decimal number that octets write. -/
def number? (s : Octets) : Option Nat :=
  let t := s.map (fun b => Char.ofNat b.toNat)
  if t.isEmpty || !t.all Decimal.isDigit then none else some (Decimal.valueOf t)

/-! ## Escapes -/

/-- The octet of a letter after a backslash. -/
def escape? (b : UInt8) : Option UInt8 :=
  match Char.ofNat b.toNat with
  | 'a' => some 7
  | 'b' => some 8
  | 't' => some 9
  | 'n' => some 10
  | 'v' => some 11
  | 'f' => some 12
  | 'r' => some 13
  | '\\' => some 92
  | '"' => some 34
  | '\'' => some 39
  | _ => none

/-- The digits to the base eight, at most `n`, that octets start with, and the rest. -/
def octalDigits : Nat → Octets → List Nat × Octets
  | 0, s => ([], s)
  | _ + 1, [] => ([], [])
  | n + 1, b :: r =>
    if 48 ≤ b && b < 56 then
      let (ds, rest) := octalDigits n r
      ((b.toNat - 48) :: ds, rest)
    else ([], b :: r)

/-- The octet with digits to the base eight. -/
def ofOctal (ds : List Nat) : UInt8 :=
  (ds.foldl (fun n d => 8 * n + d) 0).toUInt8

/-- The octet of an escape after its backslash, and the octets after it. -/
def escaped (r : Octets) : UInt8 × Octets :=
  match octalDigits 3 r, r with
  | (d :: ds, rest), _ => (ofOctal (d :: ds), rest)
  | _, b :: rest => match escape? b with
    | some e => (e, rest)
    | none => (92, b :: rest)
  | _, [] => (92, [])

/-! ## Printing -/

/-- Octets with their escapes replaced, after those that have been printed already, the last of them
first. The escape for the end of all output ends it. The fuel bounds the octets. -/
def unescape (printed : Octets) : Nat → Octets → Octets × Bool
  | 0, _ => (printed.reverse, false)
  | _ + 1, [] => (printed.reverse, false)
  | fuel + 1, b :: r =>
    if b = 92 then
      match r with
      | 99 :: _ => (printed.reverse, true)
      | 48 :: s =>
        let (ds, rest) := octalDigits 3 s
        unescape (ofOctal ds :: printed) fuel rest
      | r =>
        let (e, rest) := escaped r
        unescape (e :: printed) fuel rest
    else unescape (b :: printed) fuel r

/-- Octets between which a blank stands. -/
def spaced : List Octets → Octets
  | [] => []
  | [a] => a
  | a :: l => a ++ 32 :: spaced l

/-- Prints the arguments with blanks between them and a line end. -/
def echo (arguments : List Octets) : Octets :=
  let (silent, words) := match arguments with
    | [45, 110] :: r => (true, r)
    | l => (false, l)
  let all := spaced words
  let (printed, ended) := unescape [] (all.length + 1) all
  if silent || ended then printed else printed ++ [10]

/-- What a conversion of a format prints for an argument. -/
def conversion? (kind : UInt8) (argument : Octets) : Option Octets :=
  match Char.ofNat kind.toNat with
  | 's' => some argument
  | 'b' => some (unescape [] (argument.length + 1) argument).1
  | 'c' => some (argument.take 1)
  | 'd' | 'i' | 'u' => some (if argument.isEmpty then [48] else argument)
  | _ => none

/-- Prints a format once. The outcome is what has been printed, the last octet first, the arguments
that are left, and whether any was used. The fuel bounds the octets of the format. -/
def printFormat (printed : Octets) (used : Bool) :
    Nat → Octets → List Octets → Octets × List Octets × Bool
  | 0, _, l => (printed, l, used)
  | _ + 1, [], l => (printed, l, used)
  | fuel + 1, 37 :: 37 :: r, l => printFormat (37 :: printed) used fuel r l
  | fuel + 1, 37 :: k :: r, l => match conversion? k (l.headD []) with
    | some t => printFormat (t.reverse ++ printed) true fuel r (l.drop 1)
    | none => printFormat (k :: 37 :: printed) used fuel r l
  | fuel + 1, 92 :: r, l =>
    let (e, rest) := escaped r
    printFormat (e :: printed) used fuel rest l
  | fuel + 1, b :: r, l => printFormat (b :: printed) used fuel r l

/-- Prints a format again and again until it has used up its arguments. The fuel bounds the
repetitions. -/
def printAll (format : Octets) (printed : Octets) : Nat → List Octets → Octets
  | 0, _ => printed
  | fuel + 1, l =>
    let (p, rest, used) := printFormat printed false (format.length + 1) format l
    if used && !rest.isEmpty then printAll format p fuel rest else p

/-- Prints arguments by a format. -/
def printf : List Octets → Octets
  | [] => []
  | format :: l => (printAll format [] (l.length + 1) l).reverse

/-! ## Changing characters -/

/-- The octets of a class of characters. -/
def characterClass (name : Octets) : Octets :=
  let all := (List.range 256).map Nat.toUInt8
  let sel (p : Char → Bool) := all.filter (fun b => b < 128 && p (Char.ofNat b.toNat))
  if name = octets "upper" then sel Char.isUpper
  else if name = octets "lower" then sel Char.isLower
  else if name = octets "alpha" then sel Char.isAlpha
  else if name = octets "digit" then sel Char.isDigit
  else if name = octets "alnum" then sel Char.isAlphanum
  else if name = octets "space" then [9, 10, 11, 12, 13, 32]
  else if name = octets "blank" then [9, 32]
  else []

/-- The octets of a set as it is written: escapes, ranges and classes. The fuel bounds the pieces.
-/
def characterSet : Nat → Octets → Octets
  | 0, _ => []
  | _ + 1, [] => []
  | fuel + 1, 91 :: 58 :: r =>
    let name := r.takeWhile (fun b => b ≠ 58)
    characterClass name ++ characterSet fuel (r.drop (name.length + 2))
  | fuel + 1, b :: r =>
    let (low, r) := if b = 92 then escaped r else (b, r)
    match r with
    | 45 :: high :: rest =>
      ((List.range 256).filter (fun n => low.toNat ≤ n && n ≤ high.toNat)).map Nat.toUInt8
        ++ characterSet fuel rest
    | r => low :: characterSet fuel r

/-- The octet that stands at the place of another one, or at the last place if there are fewer. -/
def counterpart (source target : Octets) (b : UInt8) : UInt8 :=
  match source.idxOf? b with
  | none => b
  | some i => match target[i]? with
    | some c => c
    | none => target.getLastD b

/-- Replaces or deletes characters. -/
def exchange (arguments : List Octets) (input : Octets) : Option Octets :=
  match arguments with
  | [[45, 100], s] =>
    let source := characterSet s.length s
    some (input.filter (fun b => !source.contains b))
  | [s, t] =>
    let source := characterSet s.length s
    let target := characterSet t.length t
    let table := (List.range 256).toArray.map (fun n => counterpart source target n.toUInt8)
    some (input.map (fun b => table.getD b.toNat b))
  | _ => none

/-! ## Parts of the input -/

/-- The lines of octets, each with its line end. -/
def linesOf (s : Octets) : List Octets :=
  (s.foldr (fun b l => match b, l with
    | 10, l => [10] :: l
    | b, [] => [[b]]
    | b, a :: l => (b :: a) :: l) [])

/-- The unit and the number of a request for a part: octets with `-c`, lines with `-n` or by a
number alone. -/
def amount? : List Octets → Option (Bool × Nat)
  | [] => some (false, 10)
  | [[45, 99], n] => (number? n).map (fun k => (true, k))
  | [[45, 110], n] => (number? n).map (fun k => (false, k))
  | [45 :: 99 :: n] => (number? n).map (fun k => (true, k))
  | [45 :: 110 :: n] => (number? n).map (fun k => (false, k))
  | [45 :: n] => (number? n).map (fun k => (false, k))
  | _ => none

/-- The first octets or lines. -/
def head (arguments : List Octets) (input : Octets) : Option Octets :=
  (amount? arguments).map (fun a =>
    if a.1 then input.take a.2 else ((linesOf input).take a.2).flatten)

/-- The last octets or lines. -/
def tail (arguments : List Octets) (input : Octets) : Option Octets :=
  (amount? arguments).map (fun a =>
    if a.1 then input.drop (input.length - a.2)
    else ((linesOf input).drop ((linesOf input).length - a.2)).flatten)

/-- The number of blank-separated words. -/
def wordCount (s : Octets) : Nat :=
  (s.foldl (fun (n, inside) b =>
    let blank := b = 32 || (9 ≤ b && b ≤ 13)
    (if !blank && !inside then n + 1 else n, !blank)) ((0 : Nat), false)).1

/-- Counts octets, lines or words. -/
def count (arguments : List Octets) (input : Octets) : Option Octets :=
  let line (n : Nat) := Octets.ofText (Decimal.digits n) ++ [10]
  match arguments with
  | [[45, 99]] => some (line input.length)
  | [[45, 108]] => some (line (input.count 10))
  | [[45, 119]] => some (line (wordCount input))
  | _ => none

/-! ## Conditions -/

/-- Decides a condition. -/
def condition (f : Files) : List Octets → Option Bool
  | [] => some false
  | [a] => some (!a.isEmpty)
  | [[33], a] => some a.isEmpty
  | [[45, k], a] =>
    let path := Octets.decodeLossy a
    match Char.ofNat k.toNat with
    | 'n' => some (!a.isEmpty)
    | 'z' => some a.isEmpty
    | 'e' => some (f.holds path)
    | 'f' => some (f.isFile path)
    | 'd' => some (f.isDirectory path)
    | _ => none
  | [a, [61], b] => some (a = b)
  | [a, [33, 61], b] => some (a ≠ b)
  | [a, 45 :: o, b] => match number? a, number? b with
    | some m, some n =>
      if o = octets "eq" then some (m = n)
      else if o = octets "ne" then some (m ≠ n)
      else if o = octets "lt" then some (m < n)
      else if o = octets "le" then some (m ≤ n)
      else if o = octets "gt" then some (n < m)
      else if o = octets "ge" then some (n ≤ m)
      else none
    | _, _ => none
  | _ => none

/-! ## Tools by name -/

/-- Passes on the input and the named files, one after the other. -/
def concatenate (f : Files) (input : Octets) : List Octets → Effect
  | [] => ⟨[], [], 0, input, f⟩
  | a :: l =>
    if a = [45] then
      let e := concatenate f [] l
      { e with output := input ++ e.output }
    else
      let e := concatenate f input l
      match f.read (Octets.decodeLossy a) with
      | .ok c => { e with output := c ++ e.output }
      | .error fault =>
        let text := match fault with
          | .isDirectory => "Is a directory"
          | .notDirectory => "Not a directory"
          | _ => "No such file or directory"
        { e with
          complaint := octets "cat: " ++ a ++ octets (": " ++ text ++ "\n") ++ e.complaint
          status := 1 }

/-- Makes files that are missing. -/
def touch (f : Files) : List Octets → Files
  | [] => f
  | a :: l =>
    let path := Octets.decodeLossy a
    if f.holds path then touch f l
    else match f.write path [] with
      | .ok g => touch g l
      | .error _ => touch f l

/-- Makes directories. -/
def makeAll (f : Files) : List Octets → Files
  | [] => f
  | a :: l => makeAll (f.makeDirectories (Octets.decodeLossy a)).2 l

/-- Writes octets to each of several files. -/
def copyTo (f : Files) (content : Octets) : List Octets → Files
  | [] => f
  | a :: l => match f.write (Octets.decodeLossy a) content with
    | .ok g => copyTo g content l
    | .error _ => copyTo f content l

/-- Runs a tool. There is none if the name is unknown. -/
def runTool? (name : Octets) (arguments : List Octets) (input : Octets) (f : Files) :
    Option Effect :=
  let done (output rest : Octets) : Option Effect := some ⟨output, [], 0, rest, f⟩
  let wrong (status : Nat) : Option Effect :=
    some ⟨[], name ++ octets ": invalid arguments\n", status, input, f⟩
  let consume (r : Option Octets) : Option Effect := match r with
    | some o => done o []
    | none => wrong 1
  match String.ofList (Octets.decodeLossy name) with
  | "cat" => match arguments with
    | [] => done input []
    | (45 :: k :: _) :: _ => some ⟨[], octets "cat: invalid option -- '" ++ [k] ++
        octets "'\nTry 'cat --help' for more information.\n", 1, input, f⟩
    | l => some (concatenate f input l)
  | "echo" => done (echo arguments) input
  | "printf" => match arguments with
    | [] => wrong 2
    | l => done (printf l) input
  | "tr" => consume (exchange arguments input)
  | "head" => consume (head arguments input)
  | "tail" => consume (tail arguments input)
  | "wc" => consume (count arguments input)
  | "true" | ":" | "sleep" => done [] input
  | "false" => some ⟨[], [], 1, input, f⟩
  | "test" => match condition f arguments with
    | some b => some ⟨[], [], if b then 0 else 1, input, f⟩
    | none => wrong 2
  | "[" => match condition f arguments.dropLast with
    | some b => some ⟨[], [], if b then 0 else 1, input, f⟩
    | none => wrong 2
  | "tee" => some ⟨input, [], 0, [], copyTo f input arguments⟩
  | "touch" => some ⟨[], [], 0, input, touch f arguments⟩
  | "mkdir" => some ⟨[], [], 0, input, makeAll f (arguments.filter (fun a => a ≠ [45, 112]))⟩
  | _ => none

end DotGraph.Script
