import DotGraph.Text

/-!
# UTF-8

The octets of a text, and the text of octets. `Octets.decode?` refuses octets that are not the
encoding of a text; `Octets.decodeLossy` puts the replacement character for each longest piece that
starts like a character and does not go on like one.
-/

set_option autoImplicit false

namespace DotGraph

/-- A sequence of octets. -/
abbrev Octets := List UInt8

namespace Octets

/-- The octets of a character. -/
def ofChar (c : Char) : Octets :=
  let n := c.toNat
  if n < 0x80 then [n.toUInt8]
  else if n < 0x800 then [(0xC0 + n / 0x40).toUInt8, (0x80 + n % 0x40).toUInt8]
  else if n < 0x10000 then
    [(0xE0 + n / 0x1000).toUInt8, (0x80 + n / 0x40 % 0x40).toUInt8, (0x80 + n % 0x40).toUInt8]
  else
    [(0xF0 + n / 0x40000).toUInt8, (0x80 + n / 0x1000 % 0x40).toUInt8,
      (0x80 + n / 0x40 % 0x40).toUInt8, (0x80 + n % 0x40).toUInt8]

/-- The octets of a text. -/
def ofText (s : Text) : Octets :=
  s.flatMap ofChar

/-- Whether an octet goes on with a character that was begun. -/
def continues (b : UInt8) : Bool :=
  0x80 ≤ b && b < 0xC0

/-- Whether an octet may follow the first octet of a character of three or four. It may not where
that would give a shorter character, half of a pair, or none at all. -/
def follows (first second : UInt8) : Bool :=
  continues second &&
    (if first = 0xE0 then 0xA0 ≤ second
    else if first = 0xED then second < 0xA0
    else if first = 0xF0 then 0x90 ≤ second
    else if first = 0xF4 then second < 0x90
    else true)

/-- The character of a leading octet, reduced to what it contributes, and its followers. -/
def assemble (lead : Nat) (followers : Octets) : Char :=
  Char.ofNat (followers.foldl (fun n b => n * 0x40 + (b.toNat - 0x80)) lead)

/-- The character that starts with an octet and the octets after it, or none where there is no
character, with the octets after the faulty piece. -/
def first (b : UInt8) (r : Octets) : Option Char × Octets :=
  if b < 0x80 then (some (Char.ofNat b.toNat), r)
  else if 0xC2 ≤ b && b < 0xE0 then
    match r with
    | c :: s => if continues c then (some (assemble (b.toNat - 0xC0) [c]), s) else (none, c :: s)
    | [] => (none, [])
  else if 0xE0 ≤ b && b < 0xF0 then
    match r with
    | c :: s =>
      if follows b c then
        match s with
        | d :: t =>
          if continues d then (some (assemble (b.toNat - 0xE0) [c, d]), t) else (none, d :: t)
        | [] => (none, [])
      else (none, c :: s)
    | [] => (none, [])
  else if 0xF0 ≤ b && b < 0xF5 then
    match r with
    | c :: s =>
      if follows b c then
        match s with
        | d :: t =>
          if continues d then
            match t with
            | e :: u =>
              if continues e then (some (assemble (b.toNat - 0xF0) [c, d, e]), u)
              else (none, e :: u)
            | [] => (none, [])
          else (none, d :: t)
        | [] => (none, [])
      else (none, c :: s)
    | [] => (none, [])
  else (none, r)

theorem first_length (b : UInt8) (r : Octets) : (first b r).2.length ≤ r.length := by
  unfold first
  repeat' split
  all_goals simp only [List.length_cons, List.length_nil]; omega

/-- The characters of octets, with none for each faulty piece, after those that have been found
already, the last of them first. -/
def charsFrom (found : List (Option Char)) : Octets → List (Option Char)
  | [] => found.reverse
  | b :: r => charsFrom ((first b r).1 :: found) (first b r).2
termination_by l => l.length
decreasing_by
  have := first_length b r
  simp only [List.length_cons]
  omega

/-- The characters of octets, with none for each faulty piece. -/
def chars (b : Octets) : List (Option Char) :=
  charsFrom [] b

/-- The text that octets encode. -/
def decode? (b : Octets) : Option Text :=
  (chars b).mapM id

/-- The text of octets, with a replacement character for each faulty piece. -/
def decodeLossy (b : Octets) : Text :=
  (chars b).map (fun c => c.getD (Char.ofNat 0xFFFD))

end Octets

end DotGraph
