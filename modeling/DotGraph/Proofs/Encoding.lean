import DotGraph.Proofs.OctetOrder

/-!
# Texts and their octets

Octets that encode a text are read as this text again. What other octets are shown as has a
character for each piece of them, and a slash only where they have one.

- `Octets.chars_ofText`: the octets of a text are read as its characters.
- `Octets.ofText_injective`: different texts have different octets.
- `Octets.slash_mem_of_decodeLossy`, `Octets.decodeLossy_ne_nil`: what octets are shown as.
-/

set_option autoImplicit false

namespace DotGraph

namespace Octets

/-! ## The octets of a character -/

theorem toNat_toUInt8 {n : Nat} (h : n < 256) : n.toUInt8.toNat = n :=
  Nat.mod_eq_of_lt h

theorem assemble_eq {lead : Nat} {followers : Octets} {c : Char}
    (h : followers.foldl (fun n b => n * 0x40 + (b.toNat - 0x80)) lead = c.toNat) :
    assemble lead followers = c := by
  rw [assemble, h, Char.ofNat_toNat]

theorem continues_toUInt8 {n : Nat} (h : n < 0x40) : continues (0x80 + n).toUInt8 = true := by
  simp only [continues, Bool.and_eq_true, decide_eq_true_eq, UInt8.lt_iff_toNat_lt,
    UInt8.le_iff_toNat_le, Nat.toUInt8_eq, UInt8.toNat_ofNat', UInt8.toNat_ofNat]
  omega

/-- The second octet of a character of three is one that may follow the first. -/
theorem follows_three {c : Char} (l : 0x800 ≤ c.toNat) (h : c.toNat < 0x10000) :
    follows (0xE0 + c.toNat / 0x1000).toUInt8 (0x80 + c.toNat / 0x40 % 0x40).toUInt8 = true := by
  have valid : c.toNat < 0xD800 ∨ 0xDFFF < c.toNat ∧ c.toNat < 0x110000 := c.valid
  rw [follows, continues_toUInt8 (by omega), Bool.true_and]
  simp only [← UInt8.toNat_inj, UInt8.lt_iff_toNat_lt, UInt8.le_iff_toNat_le, Nat.toUInt8_eq,
    UInt8.toNat_ofNat', UInt8.toNat_ofNat]
  split
  · simp; omega
  · split
    · simp; omega
    · rw [if_neg (by omega), if_neg (by omega)]

/-- The second octet of a character of four is one that may follow the first. -/
theorem follows_four {c : Char} (l : 0x10000 ≤ c.toNat) :
    follows (0xF0 + c.toNat / 0x40000).toUInt8 (0x80 + c.toNat / 0x1000 % 0x40).toUInt8 = true := by
  have h := toNat_lt c
  rw [follows, continues_toUInt8 (by omega), Bool.true_and]
  simp only [← UInt8.toNat_inj, UInt8.lt_iff_toNat_lt, UInt8.le_iff_toNat_le, Nat.toUInt8_eq,
    UInt8.toNat_ofNat', UInt8.toNat_ofNat]
  rw [if_neg (by omega), if_neg (by omega)]
  split
  · simp; omega
  · split
    · simp; omega
    · rfl

section Forms

variable {b c d e : UInt8} {r : Octets}

theorem first_one (h : b.toNat < 0x80) : first b r = (some (Char.ofNat b.toNat), r) :=
  if_pos (UInt8.lt_iff_toNat_lt.mpr h)

theorem first_two (l : 0xC2 ≤ b.toNat) (h : b.toNat < 0xE0) (hc : continues c = true) :
    first b (c :: r) = (some (assemble (b.toNat - 0xC0) [c]), r) := by
  have one : ¬ b.toNat < 0x80 := by omega
  simp [first, UInt8.lt_iff_toNat_lt, UInt8.le_iff_toNat_le, one, l, h, hc]

theorem first_three (l : 0xE0 ≤ b.toNat) (h : b.toNat < 0xF0) (hc : follows b c = true)
    (hd : continues d = true) :
    first b (c :: d :: r) = (some (assemble (b.toNat - 0xE0) [c, d]), r) := by
  have one : ¬ b.toNat < 0x80 := by omega
  have two : ¬ b.toNat < 0xE0 := by omega
  simp [first, UInt8.lt_iff_toNat_lt, UInt8.le_iff_toNat_le, one, two, l, h, hc, hd]

theorem first_four (l : 0xF0 ≤ b.toNat) (h : b.toNat < 0xF5) (hc : follows b c = true)
    (hd : continues d = true) (he : continues e = true) :
    first b (c :: d :: e :: r) = (some (assemble (b.toNat - 0xF0) [c, d, e]), r) := by
  have one : ¬ b.toNat < 0x80 := by omega
  have two : ¬ b.toNat < 0xE0 := by omega
  have three : ¬ b.toNat < 0xF0 := by omega
  simp [first, UInt8.lt_iff_toNat_lt, UInt8.le_iff_toNat_le, one, two, three, l, h, hc, hd, he]

end Forms

/-- **The octets of a character are read as this character**, whatever comes after them. -/
theorem first_ofChar (c : Char) (r : Octets) :
    ∃ b s, ofChar c ++ r = b :: s ∧ first b s = (some c, r) := by
  have hc := toNat_lt c
  have last : continues (0x80 + c.toNat % 0x40).toUInt8 = true := continues_toUInt8 (by omega)
  have middle : continues (0x80 + c.toNat / 0x40 % 0x40).toUInt8 = true :=
    continues_toUInt8 (by omega)
  rcases ofChar_cases c with ⟨h, e⟩ | ⟨l, h, e⟩ | ⟨l, h, e⟩ | ⟨l, -, e⟩
  · have lead : c.toNat.toUInt8.toNat = c.toNat := toNat_toUInt8 (by omega)
    refine ⟨_, r, by rw [e, List.singleton_append], ?_⟩
    rw [first_one (by omega), lead, Char.ofNat_toNat]
  · have lead : (0xC0 + c.toNat / 0x40).toUInt8.toNat = 0xC0 + c.toNat / 0x40 :=
      toNat_toUInt8 (by omega)
    refine ⟨_, _, by rw [e, List.cons_append, List.singleton_append], ?_⟩
    rw [first_two (by omega) (by omega) last, lead, assemble_eq (c := c)]
    simp (disch := omega) only [List.foldl_cons, List.foldl_nil, toNat_toUInt8]
    omega
  · have lead : (0xE0 + c.toNat / 0x1000).toUInt8.toNat = 0xE0 + c.toNat / 0x1000 :=
      toNat_toUInt8 (by omega)
    refine ⟨_, _, by rw [e, List.cons_append, List.cons_append, List.singleton_append], ?_⟩
    rw [first_three (by omega) (by omega) (follows_three l h) last, lead, assemble_eq (c := c)]
    simp (disch := omega) only [List.foldl_cons, List.foldl_nil, toNat_toUInt8]
    omega
  · have lead : (0xF0 + c.toNat / 0x40000).toUInt8.toNat = 0xF0 + c.toNat / 0x40000 :=
      toNat_toUInt8 (by omega)
    refine ⟨_, _, by rw [e, List.cons_append, List.cons_append, List.cons_append,
      List.singleton_append], ?_⟩
    rw [first_four (by omega) (by omega) (follows_four l) middle last, lead, assemble_eq (c := c)]
    simp (disch := omega) only [List.foldl_cons, List.foldl_nil, toNat_toUInt8]
    omega

/-! ## The characters of octets -/

theorem charsFrom_eq (found : List (Option Char)) :
    ∀ l : Octets, charsFrom found l = found.reverse ++ chars l
  | [] => by simp [charsFrom, chars]
  | b :: r => by
    rw [chars, charsFrom, charsFrom, charsFrom_eq _ (first b r).2, charsFrom_eq _ (first b r).2]
    simp
termination_by l => l.length
decreasing_by
  all_goals
    have := first_length b r
    simp only [List.length_cons]
    omega

theorem chars_nil : chars [] = [] := by
  rw [chars, charsFrom, List.reverse_nil]

theorem chars_cons (b : UInt8) (r : Octets) :
    chars (b :: r) = (first b r).1 :: chars (first b r).2 := by
  rw [chars, charsFrom, charsFrom_eq]
  rfl

/-- **The octets of a text are read as its characters.** -/
theorem chars_ofText (t : Text) : chars (ofText t) = t.map some := by
  induction t with
  | nil => exact chars_nil
  | cons c t ih =>
    obtain ⟨b, s, octets, read⟩ := first_ofChar c (ofText t)
    rw [ofText_cons, octets, chars_cons, read, ih, List.map_cons]

theorem decodeLossy_ofText (t : Text) : decodeLossy (ofText t) = t := by
  rw [decodeLossy, chars_ofText, List.map_map]
  exact List.map_id t

/-- **Different texts have different octets.** -/
theorem ofText_injective : Function.Injective ofText := by
  intro s t h
  rw [← decodeLossy_ofText s, h, decodeLossy_ofText]

theorem ofText_append (s t : Text) : ofText (s ++ t) = ofText s ++ ofText t :=
  List.flatMap_append

/-! ## Slashes -/

theorem ofNat_eq_slash {n : Nat} (h : Char.ofNat n = '/') : n = 0x2F := by
  by_cases valid : n.isValidChar
  · rw [Char.ofNat, dif_pos valid] at h
    exact congrArg Char.toNat h
  · rw [Char.ofNat, dif_neg valid] at h
    exact absurd h (by decide)

theorem continues_iff {b : UInt8} : continues b = true ↔ 0x80 ≤ b.toNat ∧ b.toNat < 0xC0 := by
  simp [continues, UInt8.le_iff_toNat_le, UInt8.lt_iff_toNat_lt]

/-- After a first octet that contributes nothing the second one contributes something. -/
theorem le_of_follows {b c : UInt8} (h : follows b c = true) :
    0x80 ≤ c.toNat ∧ (b.toNat = 0xE0 → 0xA0 ≤ c.toNat) ∧ (b.toNat = 0xF0 → 0x90 ≤ c.toNat) := by
  rw [follows, Bool.and_eq_true, continues_iff] at h
  refine ⟨h.1.1, fun hb => ?_, fun hb => ?_⟩
  · have lead : b = 0xE0 := UInt8.toNat_inj.mp hb
    simpa [lead, UInt8.le_iff_toNat_le] using h.2
  · have lead : b = 0xF0 := UInt8.toNat_inj.mp hb
    simpa [lead, UInt8.le_iff_toNat_le] using h.2

/-- A slash is read off no octet but its own. -/
theorem eq_slash_of_first {b : UInt8} {r : Octets} (h : (first b r).1 = some '/') : b = 0x2F := by
  have point : ∀ {lead : Nat} {l : Octets}, some (assemble lead l) = some '/' →
      l.foldl (fun n b => n * 0x40 + (b.toNat - 0x80)) lead = 0x2F :=
    fun h => ofNat_eq_slash (Option.some.inj h)
  unfold first at h
  simp only [Bool.and_eq_true, decide_eq_true_eq, UInt8.le_iff_toNat_le, UInt8.lt_iff_toNat_lt,
    UInt8.toNat_ofNat] at h
  split at h
  · exact UInt8.toNat_inj.mp (ofNat_eq_slash (Option.some.inj h))
  -- two, three or four octets spell no less than the first code point that needs them
  exfalso
  repeat' split at h
  all_goals first
    | replace h := point h
      simp only [List.foldl_cons, List.foldl_nil] at h
    | cases h
  · omega
  · rename_i hf _ _ _ _
    have low := le_of_follows hf
    omega
  · rename_i hf _ _ _ _ _ _ _
    have low := le_of_follows hf
    omega

theorem first_suffix (b : UInt8) (r : Octets) : (first b r).2 <:+ r := by
  unfold first
  repeat' split
  all_goals first
    | exact List.suffix_rfl
    | exact List.suffix_cons _ _
    | exact (List.suffix_cons _ _).trans (List.suffix_cons _ _)
    | exact ((List.suffix_cons _ _).trans (List.suffix_cons _ _)).trans (List.suffix_cons _ _)

theorem slash_mem_of_chars : ∀ {l : Octets}, some '/' ∈ chars l → 0x2F ∈ l
  | [], h => by simp [chars_nil] at h
  | b :: r, h => by
    rw [chars_cons] at h
    rcases List.mem_cons.mp h with h | h
    · rw [eq_slash_of_first h.symm]
      exact List.mem_cons_self ..
    · have inside := slash_mem_of_chars h
      exact List.mem_cons_of_mem _ ((first_suffix b r).subset inside)
termination_by l => l.length
decreasing_by
  have := first_length b r
  simp only [List.length_cons]
  omega

/-- Octets without a slash are shown without one. -/
theorem slash_mem_of_decodeLossy {l : Octets} (h : '/' ∈ decodeLossy l) : 0x2F ∈ l := by
  obtain ⟨c, hc, e⟩ := List.mem_map.mp h
  cases c with
  | none => exact absurd e (by decide)
  | some c =>
    obtain rfl : c = '/' := e
    exact slash_mem_of_chars hc

theorem decodeLossy_ne_nil {l : Octets} (h : l ≠ []) : decodeLossy l ≠ [] := by
  obtain ⟨b, r, rfl⟩ := List.exists_cons_of_ne_nil h
  rw [decodeLossy, chars_cons, List.map_cons]
  exact List.cons_ne_nil _ _

/-! ## Characters of ASCII -/

/-- Only a character of ASCII itself has its octet. -/
theorem eq_of_mem_ofChar {c d : Char} (hc : c.toNat < 0x80) (h : c.toNat.toUInt8 ∈ ofChar d) :
    c = d := by
  have toNat : ∀ {n : Nat}, n < 256 → (c.toNat.toUInt8 = n.toUInt8 ↔ c.toNat = n) := by
    intro n hn
    rw [← UInt8.toNat_inj, toNat_toUInt8 hn, toNat_toUInt8 (by omega)]
  have point := toNat_lt d
  rcases ofChar_cases d with ⟨_, e⟩ | ⟨_, _, e⟩ | ⟨_, _, e⟩ | ⟨_, _, e⟩ <;> rw [e] at h <;>
    simp (disch := omega) only [List.mem_cons, List.not_mem_nil, or_false, toNat] at h
  · exact Text.char_eq_of_toNat h
  all_goals omega

theorem mem_of_mem_ofText {c : Char} (hc : c.toNat < 0x80) {t : Text}
    (h : c.toNat.toUInt8 ∈ ofText t) : c ∈ t := by
  obtain ⟨d, hd, octet⟩ := List.mem_flatMap.mp h
  exact eq_of_mem_ofChar hc octet ▸ hd

theorem ofText_append_cons {c : Char} (hc : c.toNat < 0x80) (s t : Text) :
    ofText (s ++ c :: t) = ofText s ++ c.toNat.toUInt8 :: ofText t := by
  rw [ofText_append, ofText_cons, ofChar, if_pos hc]
  rfl

end Octets

end DotGraph
