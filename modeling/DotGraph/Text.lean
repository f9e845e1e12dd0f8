/-!
# Texts

A text is the list of its characters. This module holds the order of texts, which is the order of
their code points and therefore also of their UTF-8 octets, and the few operations on parts of texts
and on blanks that the rest of the library needs.

- `Text.cmp_lt_trans`, `Text.cmp_swap`: the order is transitive and reversing it swaps its answers.
-/

set_option autoImplicit false

namespace DotGraph

/-- A text is the list of its characters. -/
abbrev Text := List Char

namespace Text

/-! ## Order -/

/-- The order of two texts by the code points of their characters; a text comes before each of its
continuations. -/
def cmp : Text → Text → Ordering
  | [], [] => .eq
  | [], _ :: _ => .lt
  | _ :: _, [] => .gt
  | a :: s, b :: t =>
    if a.toNat < b.toNat then .lt else if b.toNat < a.toNat then .gt else cmp s t

theorem char_eq_of_toNat {a b : Char} (h : a.toNat = b.toNat) : a = b :=
  Char.ext (UInt32.toNat_inj.mp h)

@[simp]
theorem cmp_self (s : Text) : cmp s s = .eq := by
  induction s with
  | nil => rfl
  | cons a s ih => simp [cmp, ih]

theorem eq_of_cmp_eq {s t : Text} (h : cmp s t = .eq) : s = t := by
  induction s generalizing t with
  | nil => cases t <;> simp_all [cmp]
  | cons a s ih =>
    cases t with
    | nil => simp [cmp] at h
    | cons b t =>
      simp only [cmp] at h
      split at h
      · cases h
      · split at h
        · cases h
        · rw [ih h, char_eq_of_toNat (a := a) (b := b) (by omega)]

theorem cmp_swap (s t : Text) : (cmp s t).swap = cmp t s := by
  induction s generalizing t with
  | nil => cases t <;> rfl
  | cons a s ih =>
    cases t with
    | nil => rfl
    | cons b t =>
      simp only [cmp]
      split
      · rw [if_neg (by omega)]; rfl
      · split
        · rfl
        · exact ih t

theorem cmp_gt_iff {s t : Text} : cmp s t = .gt ↔ cmp t s = .lt := by
  rw [← cmp_swap s t]
  cases cmp s t <;> decide

theorem cmp_lt_trans {s t u : Text} (h : cmp s t = .lt) (k : cmp t u = .lt) : cmp s u = .lt := by
  induction s generalizing t u with
  | nil => cases t <;> cases u <;> simp_all [cmp]
  | cons a s ih =>
    cases t with
    | nil => simp [cmp] at h
    | cons b t =>
      cases u with
      | nil => simp [cmp] at k
      | cons c u =>
        simp only [cmp] at h k ⊢
        by_cases hab : a.toNat < b.toNat
        · by_cases hbc : c.toNat < b.toNat
          · simp [hbc, show ¬ b.toNat < c.toNat by omega] at k
          · simp [show a.toNat < c.toNat by omega]
        · by_cases hba : b.toNat < a.toNat
          · simp [hab, hba] at h
          · by_cases hbc : b.toNat < c.toNat
            · simp [show a.toNat < c.toNat by omega]
            · by_cases hcb : c.toNat < b.toNat
              · simp [hbc, hcb] at k
              · simp only [if_neg hab, if_neg hba] at h
                simp only [if_neg hbc, if_neg hcb] at k
                simp only [if_neg (show ¬ a.toNat < c.toNat by omega),
                  if_neg (show ¬ c.toNat < a.toNat by omega)]
                exact ih h k

/-! ## Parts of texts -/

/-- Whether a text starts with another one. -/
def startsWith : Text → Text → Bool
  | _, [] => true
  | [], _ :: _ => false
  | c :: r, d :: s => c == d && startsWith r s

/-- Whether a text occurs inside another one. -/
def contains (piece : Text) : Text → Bool
  | [] => piece.isEmpty
  | c :: r => startsWith (c :: r) piece || contains piece r

/-- The ASCII capitals of a text in lower case; all other characters stay. -/
def asciiLower (s : Text) : Text :=
  s.map Char.toLower

/-! ## Blanks -/

/-- The characters with the property White_Space, as ranges of code points. -/
def blankRanges : List (Nat × Nat) :=
  [(0x9, 0xD), (0x20, 0x20), (0x85, 0x85), (0xA0, 0xA0), (0x1680, 0x1680), (0x2000, 0x200A),
    (0x2028, 0x2029), (0x202F, 0x202F), (0x205F, 0x205F), (0x3000, 0x3000)]

/-- Whether a character is white space. -/
def isBlank (c : Char) : Bool :=
  blankRanges.any (fun r => r.1 ≤ c.toNat && c.toNat ≤ r.2)

/-- A text without the blanks in front and at the end. -/
def trim (s : Text) : Text :=
  ((s.dropWhile isBlank).reverse.dropWhile isBlank).reverse

end Text

end DotGraph
