import DotGraph.Decimal.Integer

/-!
# Dates and times

Reads the four kinds of dates and times of TOML and writes them in their canonical form: a capital
`T` between date and time, a capital `Z`, and no needless zeros after the seconds' point.
-/

set_option autoImplicit false

namespace DotGraph.Toml

/-- The number that two digits write. -/
def twoDigits? (a b : Char) : Option Nat :=
  match Decimal.digitValue? 10 a, Decimal.digitValue? 10 b with
  | some x, some y => some (10 * x + y)
  | _, _ => none

/-- Whether a year has a leap day. -/
def isLeapYear (y : Nat) : Bool :=
  y % 4 = 0 && (y % 100 ≠ 0 || y % 400 = 0)

/-- The number of days of a month. -/
def daysOf (year month : Nat) : Nat :=
  if month = 2 then (if isLeapYear year then 29 else 28)
  else if month = 4 || month = 6 || month = 9 || month = 11 then 30
  else 31

/-- The canonical date at the start of a text, and the text after it. -/
def date? : Text → Option (Text × Text)
  | a :: b :: c :: d :: '-' :: e :: f :: '-' :: g :: h :: r =>
    match twoDigits? a b, twoDigits? c d, twoDigits? e f, twoDigits? g h with
    | some century, some year, some month, some day =>
      if 1 ≤ month && month ≤ 12 && 1 ≤ day && day ≤ daysOf (100 * century + year) month then
        some ([a, b, c, d, '-', e, f, '-', g, h], r)
      else none
    | _, _, _, _ => none
  | _ => none

/-- A text without the zeros at its end, but with one digit at least. -/
def trimZeros (s : Text) : Text :=
  match (s.reverse.dropWhile (· = '0')).reverse with
  | [] => ['0']
  | t => t

/-- The canonical fraction of a second at the start of a text, to nine places, and the text after
it. -/
def fraction? : Text → Option (Text × Text)
  | '.' :: r =>
    let digits := r.takeWhile Decimal.isDigit
    if digits.isEmpty then none
    else some ('.' :: trimZeros (digits.take 9), r.dropWhile Decimal.isDigit)
  | r => some ([], r)

/-- The canonical time at the start of a text, and the text after it. The seconds may be missing. -/
def time? : Text → Option (Text × Text)
  | a :: b :: ':' :: c :: d :: r =>
    match twoDigits? a b, twoDigits? c d with
    | some hour, some minute =>
      if 23 < hour || 59 < minute then none
      else match r with
        | ':' :: e :: f :: r => match twoDigits? e f with
          | some second =>
            if 60 < second then none
            else (fraction? r).map (fun x => ([a, b, ':', c, d, ':', e, f] ++ x.1, x.2))
          | none => none
        | r => some ([a, b, ':', c, d], r)
    | _, _ => none
  | _ => none

/-- The canonical offset that a text consists of; there may be none. -/
def offset? : Text → Option Text
  | [] => some []
  | ['Z'] => some ['Z']
  | ['z'] => some ['Z']
  | [s, a, b, ':', c, d] =>
    if s = '+' || s = '-' then
      match twoDigits? a b, twoDigits? c d with
      | some hour, some minute =>
        if hour ≤ 23 && minute ≤ 59 then some [s, a, b, ':', c, d] else none
      | _, _ => none
    else none
  | _ => none

/-- Whether a character may stand between a date and a time. -/
def isDateTimeSeparator (c : Char) : Bool :=
  c = 'T' || c = 't' || c = ' '

/-- The canonical form of a date, a time, or both with or without an offset. -/
def moment? (s : Text) : Option Text :=
  match date? s with
  | some (d, []) => some d
  | some (d, c :: r) =>
    if isDateTimeSeparator c then
      match time? r with
      | some (t, rest) => (offset? rest).map (fun o => d ++ 'T' :: t ++ o)
      | none => none
    else none
  | none => match time? s with
    | some (t, []) => some t
    | _ => none

end DotGraph.Toml
