import DotGraph.Text

/-!
# Integers in decimal

The canonical decimal text of an integer: no leading zero, a minus sign in front of the negative
ones. `Decimal.valueOf` reads digits back.

- `Decimal.valueOf_digits`: reading the digits of a number gives the number.
-/

set_option autoImplicit false

namespace DotGraph.Decimal

/-- The character of a digit below ten. -/
def digitChar (d : Nat) : Char :=
  Char.ofNat (48 + d)

/-- The decimal digits of a natural number, without leading zeros. -/
def digits (n : Nat) : Text :=
  if n < 10 then [digitChar n] else digits (n / 10) ++ [digitChar (n % 10)]
termination_by n
decreasing_by omega

/-- The decimal text of an integer. -/
def ofInt : Int → Text
  | .ofNat n => digits n
  | .negSucc n => '-' :: digits (n + 1)

/-- The value of one digit in a base up to sixteen. -/
def digitValue? (base : Nat) (c : Char) : Option Nat :=
  let v :=
    if '0' ≤ c ∧ c ≤ '9' then c.toNat - 48
    else if 'a' ≤ c ∧ c ≤ 'f' then c.toNat - 87
    else if 'A' ≤ c ∧ c ≤ 'F' then c.toNat - 55
    else base
  if v < base then some v else none

/-- Whether a character is an ASCII digit. -/
def isDigit (c : Char) : Bool :=
  (digitValue? 10 c).isSome

/-- The number written by digits in a base, after the number that was read before them; characters
that are no digits are passed over. -/
def valueFrom (base : Nat) (start : Nat) (s : Text) : Nat :=
  s.foldl (fun v c => match digitValue? base c with
    | some d => base * v + d
    | none => v) start

/-- The number that decimal digits write. -/
def valueOf (s : Text) : Nat :=
  valueFrom 10 0 s

theorem digitValue_digitChar {d : Nat} (h : d < 10) : digitValue? 10 (digitChar d) = some d := by
  have : d = 0 ∨ d = 1 ∨ d = 2 ∨ d = 3 ∨ d = 4 ∨ d = 5 ∨ d = 6 ∨ d = 7 ∨ d = 8 ∨ d = 9 := by omega
  rcases this with h | h | h | h | h | h | h | h | h | h <;> subst h <;> decide

theorem valueOf_digits (n : Nat) : valueOf (digits n) = n := by
  induction n using Nat.strongRecOn with
  | _ n ih =>
    rw [digits]
    split
    · rename_i h
      simp [valueOf, valueFrom, digitValue_digitChar h]
    · have h := ih (n / 10) (by omega)
      simp only [valueOf, valueFrom] at h
      simp only [valueOf, valueFrom, List.foldl_append, h, List.foldl_cons, List.foldl_nil,
        digitValue_digitChar (Nat.mod_lt n (by decide))]
      omega

/-- A number as decimal digits with leading zeros up to a width. -/
def padded (width n : Nat) : Text :=
  let s := digits n
  List.replicate (width - s.length) '0' ++ s

/-- One digit of a number in hexadecimal, in lower case. -/
def hexChar (d : Nat) : Char :=
  if d < 10 then Char.ofNat (48 + d) else Char.ofNat (87 + d)

/-- A number in hexadecimal, in lower case, without leading zeros. -/
def hex (n : Nat) : Text :=
  if n < 16 then [hexChar n] else hex (n / 16) ++ [hexChar (n % 16)]
termination_by n
decreasing_by omega

end DotGraph.Decimal
