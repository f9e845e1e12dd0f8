import DotGraph.Description.Source
import DotGraph.Toml.Moment

/-!
# TOML scalars

The value that an unquoted text stands for: a truth value, an integer in one of four bases, a
floating-point number, or a date or time. Underscores may stand between digits. The size of a number
is not judged here: a number that is too large is a scalar that cannot be read.

A date or time is a map with a single key of its own, so that it never passes for a text.
-/

set_option autoImplicit false

namespace DotGraph.Toml

/-- Digits without the underscores between them; `after` says that a digit stands in front. -/
def joinDigits? (base : Nat) (after : Bool) : Text → Option Text
  | [] => if after then some [] else none
  | c :: r =>
    if c = '_' then if after then joinDigits? base false r else none
    else if (Decimal.digitValue? base c).isSome then (joinDigits? base true r).map (c :: ·)
    else none

/-- The digits of a decimal integer without sign: no zero in front of other digits. -/
def wholeDigits? (s : Text) : Option Text :=
  match joinDigits? 10 false s with
  | some (c :: d :: r) => if c = '0' then none else some (c :: d :: r)
  | x => x

/-- The scalar of an integer, by its size. -/
def ofInteger (n : Int) : Scalar :=
  if -(Nat.pow 2 63 : Int) ≤ n ∧ n < Nat.pow 2 63 then .signed n
  else if 0 ≤ n ∧ n < Nat.pow 2 64 then .unsigned n.toNat
  else if -(Nat.pow 2 127 : Int) ≤ n ∧ n < Nat.pow 2 128 then .wide n
  else .unreadable (.mismatch .integerOverflow none)

/-- The integer that a text writes. -/
def integer? (s : Text) : Option Scalar :=
  match s with
  | '0' :: 'x' :: r => (joinDigits? 16 false r).map (fun d => ofInteger (Decimal.valueFrom 16 0 d))
  | '0' :: 'o' :: r => (joinDigits? 8 false r).map (fun d => ofInteger (Decimal.valueFrom 8 0 d))
  | '0' :: 'b' :: r => (joinDigits? 2 false r).map (fun d => ofInteger (Decimal.valueFrom 2 0 d))
  | s =>
    let (negative, r) := Binary.signOf s
    (wholeDigits? r).map (fun d =>
      let n : Int := Decimal.valueOf d
      ofInteger (if negative then -n else n))

/-- Whether a character starts an exponent. -/
def isExponentMark (c : Char) : Bool :=
  c = 'e' || c = 'E'

/-- The exponent after its letter. -/
def exponent? (s : Text) : Option Int :=
  let (negative, r) := Binary.signOf s
  (joinDigits? 10 false r).map (fun d =>
    let n : Int := Decimal.valueOf d
    if negative then -n else n)

/-- The places after the point and the exponent that a text writes; there has to be one of them. -/
def fractionParts? (s : Text) : Option (Text × Int) :=
  match s with
  | '.' :: r =>
    let places := r.takeWhile (fun c => !isExponentMark c)
    match joinDigits? 10 false places, r.dropWhile (fun c => !isExponentMark c) with
    | some d, [] => some (d, 0)
    | some d, _ :: t => (exponent? t).map (fun e => (d, e))
    | none, _ => none
  | c :: r => if isExponentMark c then (exponent? r).map (fun e => ([], e)) else none
  | [] => none

/-- The floating-point number that a text writes. -/
def float? (s : Text) : Option Scalar :=
  let (negative, r) := Binary.signOf s
  if r = "inf".toList then some (.float (.infinite negative))
  else if r = "nan".toList then some (.float .nan)
  else
    let isEnd := fun c => c = '.' || isExponentMark c
    match wholeDigits? (r.takeWhile (fun c => !isEnd c)),
      fractionParts? (r.dropWhile (fun c => !isEnd c)) with
    | some whole, some (places, e) =>
      let x := Binary.ofDecimal Binary.binary64 negative (Decimal.valueOf (whole ++ places))
        (e - places.length)
      some (if x.isInfinite then .unreadable (.mismatch .floatOverflow none) else .float x)
    | _, _ => none

/-- The only key of the map that a date or time is. -/
def momentKey : Text :=
  "$__toml_private_datetime".toList

/-- The source that an unquoted text stands for. -/
def scalarSource? (place : Span) (s : Text) : Option Source :=
  if s = "true".toList then some (.scalar place (.bool true))
  else if s = "false".toList then some (.scalar place (.bool false))
  else match integer? s with
    | some v => some (.scalar place v)
    | none => match float? s with
      | some v => some (.scalar place v)
      | none => (moment? s).map (fun t =>
          .map place [⟨some momentKey, .scalar none (.text t)⟩] true)

end DotGraph.Toml
