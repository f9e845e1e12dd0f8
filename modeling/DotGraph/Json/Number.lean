import DotGraph.Description.Source

/-!
# JSON numbers

A number without point and exponent is read exactly as long as it fits into 64 bits. Every other
number becomes a binary number of 64 bits by machine steps: as many digits as fit into 64 bits make
an integer, which is rounded, and then multiplied or divided by a power of ten, which rounds again.
The result can differ from the nearest number in its last bit.
-/

set_option autoImplicit false

namespace DotGraph.Json

/-- The parts of a number as written: its sign, the digits before and after the point, and the
exponent's sign and digits. -/
structure Number where
  negative : Bool
  whole : Text
  places : Option Text
  exponent : Option (Bool × Text)
  deriving DecidableEq, Repr

/-- Appends digits to a number as long as it stays below `2^64`; gives the number and the digits
that were left. -/
def accumulate (n : Nat) : Text → Nat × Text
  | [] => (n, [])
  | c :: r =>
    let m := 10 * n + (c.toNat - 48)
    if m < Nat.pow 2 64 then accumulate m r else (n, c :: r)

/-- A power of ten as a number of 64 bits. -/
def powerOfTen (k : Nat) : Binary :=
  Binary.ofDecimal Binary.binary64 false 1 k

/-- Divides by `10^308` until the rest of the exponent has a power of its own. -/
def divideDown (x : Binary) (k : Nat) : Binary :=
  if k ≤ 308 then Binary.div Binary.binary64 x (powerOfTen k)
  else if x.isZero then x
  else divideDown (Binary.div Binary.binary64 x (powerOfTen 308)) (k - 308)
termination_by k
decreasing_by omega

/-- The number `n * 10 ^ e` by one rounding of `n` and one for each scaling; none if it is too
large. -/
def scale (n : Nat) (e : Int) : Option Binary :=
  let x := Binary.binary64.ofNat n
  if 0 ≤ e then
    if e ≤ 308 then
      let y := Binary.mul Binary.binary64 x (powerOfTen e.toNat)
      if y.isInfinite then none else some y
    else if x.isZero then some x
    else none
  else some (divideDown x (-e).toNat)

namespace Number

/-- The exponent after the letter, if it is within 31 bits; otherwise its sign alone decides. -/
def exponentValue (e : Option (Bool × Text)) : Int ⊕ Bool :=
  match e with
  | none => .inl 0
  | some (negative, s) =>
    let n := Decimal.valueOf s
    if n < Nat.pow 2 31 then .inl (if negative then -(n : Int) else n) else .inr negative

/-- The number as one of 64 bits; none if it is too large. -/
def toBinary (x : Number) : Option Binary :=
  let (n, rest) := accumulate 0 x.whole
  let (n, e) := match x.places with
    | none => (n, (rest.length : Int))
    | some p =>
      if rest.isEmpty then
        let (m, unread) := accumulate n p
        (m, -((p.length - unread.length : Nat) : Int))
      else (n, (rest.length : Int))
  let y := match exponentValue x.exponent with
    | .inl k => scale n (e + k)
    | .inr negative => if n = 0 || negative then some (Binary.binary64.ofNat 0) else none
  if x.negative then y.map Binary.neg else y

/-- The scalar that a number stands for. A negative zero is a binary number; a number too large for
one cannot be read. -/
def toScalar (x : Number) : Scalar :=
  let float := match x.toBinary with
    | some y => .float y
    | none => .unreadable .malformed
  match x.places, x.exponent with
  | none, none =>
    let n := Decimal.valueOf x.whole
    if x.negative then
      if 0 < n && n ≤ Nat.pow 2 63 then .signed (-(n : Int)) else float
    else if n < Nat.pow 2 64 then .unsigned n
    else float
  | _, _ => float

end Number

end DotGraph.Json
