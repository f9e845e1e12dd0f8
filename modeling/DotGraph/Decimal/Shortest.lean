import DotGraph.Decimal.Binary

/-!
# Shortest decimal texts of binary numbers

A finite number is written with the fewest digits that read back as the same number of its format;
among texts of that length the one nearest to the number is taken, and of two equally near ones the
greater. `Shortest.digits` finds these digits by walking from coarse decimal grids to fine ones and
testing on each the two neighbours of the number.

Two layouts are provided: `Shortest.positional`, which never uses an exponent, and
`Shortest.scientific`, which uses one outside the range from `1e-5` to `1e16`.
-/

set_option autoImplicit false

namespace DotGraph.Shortest

/-- A decimal number: its digits as one number, and the power of ten it is multiplied by. -/
structure Digits where
  significand : Nat
  exponent : Int
  deriving DecidableEq, Repr

/-- A number together with the interval of numbers that round to it, all with one denominator. -/
structure Window where
  low : Nat
  value : Nat
  high : Nat
  den : Nat
  /-- Whether the ends of the interval round to the number. -/
  closed : Bool

/-- The interval of a positive number of a format. Below a power of two the neighbours are twice as
close as above it. -/
def window (f : Binary.Format) (m : Nat) (e : Int) : Window :=
  let below := if m = Nat.pow 2 (f.precision - 1) ∧ f.least < e then 1 else 2
  let unit := if 2 ≤ e then Nat.pow 2 (e - 2).toNat else 1
  let den := if 2 ≤ e then 1 else Nat.pow 2 (2 - e).toNat
  ⟨(4 * m - below) * unit, 4 * m * unit, (4 * m + 2) * unit, den, m % 2 = 0⟩

/-- Whether the decimal number `d * 10 ^ k` lies in a window. -/
def Window.holds (w : Window) (d : Nat) (k : Int) : Bool :=
  let x := if 0 ≤ k then d * Nat.pow 10 k.toNat * w.den else d * w.den
  let scale := if 0 ≤ k then 1 else Nat.pow 10 (-k).toNat
  if w.closed then w.low * scale ≤ x && x ≤ w.high * scale
  else w.low * scale < x && x < w.high * scale

/-- The neighbour of the number on the grid of multiples of `10 ^ k` that lies in the window, the
nearer one if both do, the greater of two equally near ones. -/
def Window.onGrid (w : Window) (k : Int) : Option Nat :=
  let num := if 0 ≤ k then w.value else w.value * Nat.pow 10 (-k).toNat
  let den := if 0 ≤ k then w.den * Nat.pow 10 k.toNat else w.den
  let d := num / den
  match w.holds d k, w.holds (d + 1) k with
  | true, true => if 2 * (num % den) < den then some d else some (d + 1)
  | true, false => some d
  | false, true => some (d + 1)
  | false, false => none

/-- The first grid, from coarse to fine, on which a neighbour lies in the window. -/
def search (w : Window) (k : Int) : Nat → Digits
  | 0 => ⟨0, 0⟩
  | fuel + 1 => match w.onGrid k with
    | some d => ⟨d, k⟩
    | none => search w (k - 1) fuel

/-- The shortest digits of a positive number. Once the grid is finer than the number's own unit the
number itself lies on it, which bounds the search. -/
def digits (f : Binary.Format) (m : Nat) (e : Int) : Digits :=
  let w := window f m e
  let top : Nat := (Decimal.digits (w.value / w.den)).length
  search w top (top + (2 - e).toNat + 2)

/-- Digits and their power of ten without an exponent. -/
def Digits.positional (d : Digits) : Text :=
  let s := Decimal.digits d.significand
  if 0 ≤ d.exponent then s ++ List.replicate d.exponent.toNat '0'
  else
    let places := (-d.exponent).toNat
    let s := List.replicate (places + 1 - s.length) '0' ++ s
    s.take (s.length - places) ++ '.' :: s.drop (s.length - places)

/-- A sign in front of a negative number. -/
def signed (negative : Bool) (s : Text) : Text :=
  if negative then '-' :: s else s

/-- The text of a number without exponent and without needless point: `1e21` has 22 digits, `1.0`
is `1`, and a negative zero keeps its sign. -/
def positional (f : Binary.Format) : Binary → Text
  | .nan => "NaN".toList
  | .infinite s => signed s "inf".toList
  | .finite s m e =>
    if m = 0 then signed s ['0'] else signed s (digits f m e).positional

/-- The text of a number that always shows a point: as `positional`, with `.0` after an integer. -/
def pointed (f : Binary.Format) (x : Binary) : Text :=
  let s := positional f x
  match x with
  | .finite .. => if s.any (· == '.') then s else s ++ ".0".toList
  | _ => s

/-- The text of a number with a point, and with an exponent if the first digit stands for less than
`1e-5` or for more than `1e15`. An exponent has a sign and two digits at least. -/
def scientific (f : Binary.Format) : Binary → Text
  | .nan => "NaN".toList
  | .infinite s => signed s "inf".toList
  | .finite s m e =>
    if m = 0 then signed s "0.0".toList
    else
      let d := digits f m e
      let t := Decimal.digits d.significand
      let lead : Int := d.exponent + t.length - 1
      if -5 ≤ lead ∧ lead ≤ 15 then pointed f (.finite s m e)
      else
        let body := match t with
          | [] => []
          | [c] => [c]
          | c :: r => c :: '.' :: r
        let sign := if lead < 0 then '-' else '+'
        signed s (body ++ 'e' :: sign :: Decimal.padded 2 lead.natAbs)

end DotGraph.Shortest
