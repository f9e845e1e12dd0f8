import DotGraph.Text.Octets

/-!
# The order of texts and the order of their octets

The order of texts by code points is the order of their UTF-8 octets. A larger character has a
larger octet at the first place where the two differ: the first octet tells how many there are, and
more octets begin with a larger one; with equally many, the code point is what the octets spell in
base 64.

- `Octets.ofChar_append_lt`: a smaller character decides the order of the octets.
- `Text.cmp_lt_iff`: the two orders agree.
-/

set_option autoImplicit false

namespace DotGraph

namespace Octets

theorem toUInt8_cons_lt_iff {m n : Nat} (hm : m < 256) (hn : n < 256) {s t : Octets} :
    m.toUInt8 :: s < n.toUInt8 :: t ↔ m < n ∨ m = n ∧ s < t := by
  have toNat : ∀ {k : Nat}, k < 256 → k.toUInt8.toNat = k := fun h => Nat.mod_eq_of_lt h
  rw [List.cons_lt_cons_iff, UInt8.lt_iff_toNat_lt, ← UInt8.toNat_inj, toNat hm, toNat hn]

/-- The code points of characters. -/
theorem toNat_lt (c : Char) : c.toNat < 0x110000 := by
  have h : c.toNat < 0xD800 ∨ 0xDFFF < c.toNat ∧ c.toNat < 0x110000 := c.valid
  omega

/-- The four forms of a character, by the number of its octets. -/
theorem ofChar_cases (c : Char) :
    (c.toNat < 0x80 ∧ ofChar c = [c.toNat.toUInt8]) ∨
    (0x80 ≤ c.toNat ∧ c.toNat < 0x800 ∧
      ofChar c = [(0xC0 + c.toNat / 0x40).toUInt8, (0x80 + c.toNat % 0x40).toUInt8]) ∨
    (0x800 ≤ c.toNat ∧ c.toNat < 0x10000 ∧ ofChar c = [(0xE0 + c.toNat / 0x1000).toUInt8,
      (0x80 + c.toNat / 0x40 % 0x40).toUInt8, (0x80 + c.toNat % 0x40).toUInt8]) ∨
    (0x10000 ≤ c.toNat ∧ c.toNat < 0x110000 ∧ ofChar c = [(0xF0 + c.toNat / 0x40000).toUInt8,
      (0x80 + c.toNat / 0x1000 % 0x40).toUInt8, (0x80 + c.toNat / 0x40 % 0x40).toUInt8,
      (0x80 + c.toNat % 0x40).toUInt8]) := by
  have hc := toNat_lt c
  unfold ofChar
  dsimp only
  by_cases h1 : c.toNat < 0x80
  · exact .inl ⟨h1, if_pos h1⟩
  rw [if_neg h1]
  by_cases h2 : c.toNat < 0x800
  · exact .inr (.inl ⟨by omega, h2, if_pos h2⟩)
  rw [if_neg h2]
  by_cases h3 : c.toNat < 0x10000
  · exact .inr (.inr (.inl ⟨by omega, h3, if_pos h3⟩))
  · exact .inr (.inr (.inr ⟨by omega, hc, if_neg h3⟩))

/-- **A smaller character has smaller octets, whatever comes after it.** -/
theorem ofChar_append_lt {a b : Char} (h : a.toNat < b.toNat) (s t : Octets) :
    ofChar a ++ s < ofChar b ++ t := by
  -- the smaller character is never the longer one; at equal lengths the octets decide in turn
  rcases ofChar_cases a with ⟨ha, ea⟩ | ⟨la, ha, ea⟩ | ⟨la, ha, ea⟩ | ⟨la, ha, ea⟩ <;>
    rcases ofChar_cases b with ⟨hb, eb⟩ | ⟨lb, hb, eb⟩ | ⟨lb, hb, eb⟩ | ⟨lb, hb, eb⟩
  all_goals
    rw [ea, eb]
    simp (disch := omega) only [List.cons_append, List.nil_append, toUInt8_cons_lt_iff]
    omega

theorem ofChar_ne_nil (c : Char) : ofChar c ≠ [] := by
  rcases ofChar_cases c with ⟨_, e⟩ | ⟨_, _, e⟩ | ⟨_, _, e⟩ | ⟨_, _, e⟩ <;> simp [e]

theorem ofText_cons (c : Char) (s : Text) : ofText (c :: s) = ofChar c ++ ofText s :=
  List.flatMap_cons

end Octets

namespace Text

theorem ofText_lt_of_cmp {s t : Text} (h : cmp s t = .lt) : Octets.ofText s < Octets.ofText t := by
  induction s generalizing t with
  | nil =>
    cases t with
    | nil => cases h
    | cons b t =>
      obtain ⟨o, r, ho⟩ := List.exists_cons_of_ne_nil (Octets.ofChar_ne_nil b)
      rw [Octets.ofText_cons, ho]
      exact List.nil_lt_cons o _
  | cons a s ih =>
    cases t with
    | nil => cases h
    | cons b t =>
      rw [Octets.ofText_cons, Octets.ofText_cons]
      rw [cmp] at h
      split at h
      · rename_i hab
        exact Octets.ofChar_append_lt hab _ _
      · split at h
        · cases h
        · rename_i hab hba
          obtain rfl : a = b := char_eq_of_toNat (by omega)
          exact List.append_left_lt (ih h)

/-- **Texts are ordered as their octets are.** -/
theorem cmp_lt_iff {s t : Text} : cmp s t = .lt ↔ Octets.ofText s < Octets.ofText t := by
  constructor
  · exact ofText_lt_of_cmp
  · intro h
    cases hc : cmp s t with
    | lt => rfl
    | eq =>
      rw [eq_of_cmp_eq hc] at h
      exact absurd h (List.lt_irrefl _)
    | gt =>
      have smaller := ofText_lt_of_cmp (cmp_gt_iff.mp hc)
      exact absurd h (List.lt_asymm smaller)

end Text

end DotGraph
