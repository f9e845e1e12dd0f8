import DotGraph.Json.Read

/-!
# The grammar of JSON

Which texts write a datum. `Json.Writes` has one rule for each form of value, `Json.Denotes` allows
blanks around it; a whole text is JSON for a datum if it denotes it.

A text between quotes is made of characters that stand for themselves and of escapes. The escape of
a character beyond U+FFFF has two halves, and half of one stands for nothing. A number has to be in
the range of its scalar. Keys may repeat.
-/

set_option autoImplicit false

namespace DotGraph.Json

/-- A text of blanks. -/
def Blanks (s : Text) : Prop := ∀ c ∈ s, isBlank c = true

/-- At least one digit. -/
def Digits (s : Text) : Prop := s ≠ [] ∧ ∀ c ∈ s, Decimal.isDigit c = true

/-! ## Strings -/

/-- What stands between the quotes of a string, and the text that it means. -/
inductive Chars : Text → Text → Prop where
  | nil : Chars [] []
  | plain {c : Char} {s t : Text} : c ≠ '"' → c ≠ '\\' → ¬ c.toNat < 32 → Chars s t →
      Chars (c :: s) (c :: t)
  | short {e c : Char} {s t : Text} : shortEscape? e = some c → Chars s t →
      Chars ('\\' :: e :: s) (c :: t)
  | code {w x y z : Char} {n : Nat} {s t : Text} : hex4? w x y z = some n →
      ¬ (0xD800 ≤ n ∧ n < 0xE000) → Chars s t →
      Chars ('\\' :: 'u' :: w :: x :: y :: z :: s) (Char.ofNat n :: t)
  | pair {w x y z w' x' y' z' : Char} {n m : Nat} {s t : Text} : hex4? w x y z = some n →
      hex4? w' x' y' z' = some m → 0xD800 ≤ n ∧ n < 0xDC00 → 0xDC00 ≤ m ∧ m < 0xE000 → Chars s t →
      Chars ('\\' :: 'u' :: w :: x :: y :: z :: '\\' :: 'u' :: w' :: x' :: y' :: z' :: s)
        (Char.ofNat (0x10000 + (n - 0xD800) * 0x400 + (m - 0xDC00)) :: t)

/-! ## Numbers -/

/-- The digits in front of the point: no zero in front of others. -/
def WholeDigits (s : Text) : Prop := Digits s ∧ (s.head? = some '0' → s.length = 1)

/-- How the places of a number are written. -/
inductive Places : Text → Option Text → Prop where
  | none : Places [] none
  | some {s : Text} : Digits s → Places ('.' :: s) (some s)

/-- How the sign of an exponent is written; whether it is negative. -/
inductive Sign : Text → Bool → Prop where
  | none : Sign [] false
  | plus : Sign ['+'] false
  | minus : Sign ['-'] true

/-- How the exponent of a number is written. -/
inductive Exponent : Text → Option (Bool × Text) → Prop where
  | none : Exponent [] none
  | some {c : Char} {s t : Text} {negative : Bool} : c = 'e' ∨ c = 'E' → Sign s negative →
      Digits t → Exponent (c :: (s ++ t)) (some (negative, t))

/-- How a number is written. -/
inductive Number.Written : Text → Number → Prop where
  | positive {s t u : Text} {p : Option Text} {e : Option (Bool × Text)} : WholeDigits s →
      Places t p → Exponent u e → Written (s ++ (t ++ u)) ⟨false, s, p, e⟩
  | negative {s t u : Text} {p : Option Text} {e : Option (Bool × Text)} : WholeDigits s →
      Places t p → Exponent u e → Written ('-' :: (s ++ (t ++ u))) ⟨true, s, p, e⟩

/-! ## Values -/

mutual

/-- A text that writes a datum. -/
inductive Writes : Text → Datum → Prop where
  | null : Writes "null".toList .null
  | yes : Writes "true".toList (.bool true)
  | no : Writes "false".toList (.bool false)
  | text {s t : Text} : Chars s t → Writes ('"' :: (s ++ ['"'])) (.text t)
  | number {s : Text} {n : Number} {d : Datum} : n.Written s → n.toScalar.datum = .ok d → Writes s d
  | emptyList {b : Text} : Blanks b → Writes ('[' :: (b ++ [']'])) (.list [])
  | list {s : Text} {l : List Datum} : Items s l → Writes ('[' :: (s ++ [']'])) (.list l)
  | emptyMap {b : Text} : Blanks b → Writes ('\x7b' :: (b ++ ['\x7d'])) (.map [])
  | map {s : Text} {l : List Member} : Members s l → Writes ('\x7b' :: (s ++ ['\x7d'])) (.map l)

/-- A text that writes a datum with blanks around it. -/
inductive Denotes : Text → Datum → Prop where
  | padded {b s b' : Text} {d : Datum} : Blanks b → Writes s d → Blanks b' →
      Denotes (b ++ (s ++ b')) d

/-- Items of a list with commas between them. -/
inductive Items : Text → List Datum → Prop where
  | last {s : Text} {d : Datum} : Denotes s d → Items s [d]
  | more {s t : Text} {d : Datum} {l : List Datum} : Denotes s d → Items t l →
      Items (s ++ ',' :: t) (d :: l)

/-- Members of a map with commas between them. -/
inductive Members : Text → List Member → Prop where
  | last {s : Text} {m : Member} : Pair s m → Members s [m]
  | more {s t : Text} {m : Member} {l : List Member} : Pair s m → Members t l →
      Members (s ++ ',' :: t) (m :: l)

/-- A key between quotes, a colon and a value. -/
inductive Pair : Text → Member → Prop where
  | mk {b s b' t : Text} {k : Text} {d : Datum} : Blanks b → Chars s k → Blanks b' → Denotes t d →
      Pair (b ++ '"' :: (s ++ '"' :: (b' ++ ':' :: t))) ⟨k, d⟩

end

end DotGraph.Json
