import DotGraph.Decimal.Integer

/-!
# Binary floating-point numbers

A finite number is a sign, a mantissa `m` and an exponent `e` and stands for `m * 2 ^ e`. A format
fixes how many bits a mantissa has and which exponents there are. Every operation is exact
arithmetic on naturals followed by one rounding to the nearest number of the format, a half going
to the even mantissa.

- `Binary.Format.round`: the number of a format nearest to a quotient.
- `Binary.ofDecimal`: the number nearest to `digits * 10 ^ exponent`, for exponents of any size.
-/

set_option autoImplicit false

namespace DotGraph

/-- A binary floating-point number. A zero has mantissa zero. -/
inductive Binary where
  | nan
  | infinite (negative : Bool)
  | finite (negative : Bool) (mantissa : Nat) (exponent : Int)
  deriving DecidableEq, Repr

namespace Binary

/-- A format: the number of bits of a mantissa and the exponents a mantissa may have. -/
structure Format where
  precision : Nat
  least : Int
  greatest : Int
  deriving Repr

/-- Numbers of 64 bits. -/
def binary64 : Format := ⟨53, -1074, 971⟩

/-- Numbers of 32 bits. -/
def binary32 : Format := ⟨24, -149, 104⟩

/-- A quotient rounded to the nearest integer, a half to the even one. -/
def nearestEven (num den : Nat) : Nat :=
  let q := num / den
  let r := num % den
  if 2 * r < den then q
  else if den < 2 * r then q + 1
  else if q % 2 = 0 then q else q + 1

/-- The quotient `num / den` divided by `2 ^ e`, rounded to the nearest integer. -/
def scaledNearest (num den : Nat) (e : Int) : Nat :=
  if 0 ≤ e then nearestEven num (den * Nat.pow 2 e.toNat)
  else nearestEven (num * Nat.pow 2 (-e).toNat) den

/-- The integer part of the quotient `num / den` divided by `2 ^ e`. -/
def scaledFloor (num den : Nat) (e : Int) : Nat :=
  if 0 ≤ e then num / (den * Nat.pow 2 e.toNat) else num * Nat.pow 2 (-e).toNat / den

namespace Format

/-- The exponent at which `num / den` has a mantissa with all the bits of the format, or the least
exponent if there is none. -/
def exponentFor (f : Format) (num den : Nat) : Int :=
  let guess : Int := (Nat.log2 num : Int) - (Nat.log2 den : Int) - f.precision
  let e := if scaledFloor num den guess < Nat.pow 2 f.precision then guess else guess + 1
  if e < f.least then f.least else e

/-- The number of a format nearest to `num / den`; beyond the greatest number it is infinite. -/
def round (f : Format) (negative : Bool) (num den : Nat) : Binary :=
  if num = 0 then .finite negative 0 f.least
  else
    let e := f.exponentFor num den
    let m := scaledNearest num den e
    let (m, e) := if m < Nat.pow 2 f.precision then (m, e) else (m / 2, e + 1)
    if m = 0 then .finite negative 0 f.least
    else if f.greatest < e then .infinite negative
    else .finite negative m e

/-- The number of a format nearest to a natural number. -/
def ofNat (f : Format) (n : Nat) : Binary :=
  f.round false n 1

end Format

/-- Whether a number is a zero of either sign. -/
def isZero : Binary → Bool
  | .finite _ m _ => m = 0
  | _ => false

/-- Whether a number is infinite. -/
def isInfinite : Binary → Bool
  | .infinite _ => true
  | _ => false

/-- The number with the opposite sign. -/
def neg : Binary → Binary
  | .nan => .nan
  | .infinite s => .infinite (!s)
  | .finite s m e => .finite (!s) m e

/-- A nonnegative finite number as a quotient of naturals. -/
def quotient (mantissa : Nat) (exponent : Int) : Nat × Nat :=
  if 0 ≤ exponent then (mantissa * Nat.pow 2 exponent.toNat, 1)
  else (mantissa, Nat.pow 2 (-exponent).toNat)

/-- The product of two nonnegative numbers, rounded once. -/
def mul (f : Format) : Binary → Binary → Binary
  | .finite _ m e, .finite _ n d =>
    let (a, b) := quotient m e
    let (x, y) := quotient n d
    f.round false (a * x) (b * y)
  | .nan, _ => .nan
  | _, .nan => .nan
  | _, _ => .infinite false

/-- The quotient of two nonnegative finite numbers, the second not zero, rounded once. -/
def div (f : Format) : Binary → Binary → Binary
  | .finite _ m e, .finite _ n d =>
    let (a, b) := quotient m e
    let (x, y) := quotient n d
    f.round false (a * y) (b * x)
  | .infinite s, .finite _ _ _ => .infinite s
  | _, _ => .nan

/-- The number of a format nearest to `digits * 10 ^ exponent`. Exponents so large or so small that
the result is certain are not multiplied out. -/
def ofDecimal (f : Format) (negative : Bool) (digits : Nat) (exponent : Int) : Binary :=
  if digits = 0 then .finite negative 0 f.least
  else
    let places : Int := (Decimal.digits digits).length
    if 400 < places + exponent then .infinite negative
    else if places + exponent < -400 then .finite negative 0 f.least
    else if 0 ≤ exponent then f.round negative (digits * Nat.pow 10 exponent.toNat) 1
    else f.round negative digits (Nat.pow 10 (-exponent).toNat)

/-! ## Literals -/

/-- A decimal literal taken apart: its sign, its digits as one number, and the power of ten that
number is to be multiplied by. -/
structure Literal where
  negative : Bool
  digits : Nat
  exponent : Int
  deriving DecidableEq, Repr

/-- A leading sign and the rest of a text. -/
def signOf : Text → Bool × Text
  | '-' :: r => (true, r)
  | '+' :: r => (false, r)
  | r => (false, r)

/-- The exponent of a literal, if the text is one: an optional sign and at least one digit. -/
def exponentOf? (s : Text) : Option Int :=
  let (negative, r) := signOf s
  if r.isEmpty || !r.all Decimal.isDigit then none
  else
    let n := Decimal.valueOf r
    some (if negative then -(n : Int) else n)

/-- Reads a decimal literal: digits with at most one point among them and an optional exponent. -/
def literal? (s : Text) : Option Literal :=
  let (negative, r) := signOf s
  let whole := r.takeWhile Decimal.isDigit
  let rest := r.dropWhile Decimal.isDigit
  let (places, rest) := match rest with
    | '.' :: t => (t.takeWhile Decimal.isDigit, t.dropWhile Decimal.isDigit)
    | t => ([], t)
  if whole.isEmpty && places.isEmpty then none
  else
    let exponent? := match rest with
      | [] => some 0
      | c :: t => if c = 'e' || c = 'E' then exponentOf? t else none
    match exponent? with
    | none => none
    | some x => some ⟨negative, Decimal.valueOf (whole ++ places), x - places.length⟩

/-- Reads a decimal literal or the name of an infinity or of the value that is no number. -/
def ofText? (f : Format) (s : Text) : Option Binary :=
  let (negative, r) := signOf s
  let word := Text.asciiLower r
  if word = "inf".toList || word = "infinity".toList then some (.infinite negative)
  else if word = "nan".toList then some .nan
  else match literal? s with
    | none => none
    | some l => some (ofDecimal f l.negative l.digits l.exponent)

end Binary

end DotGraph
