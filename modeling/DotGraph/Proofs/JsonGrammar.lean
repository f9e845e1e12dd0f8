import DotGraph.Proofs.Sources

/-!
# The texts that are JSON

The reader finds exactly what the grammar has: a text denotes a datum if and only if its source is
read as that datum and nothing but blanks is left. That the grammar is enough for reading is shown
with the readers; here is the other direction, that what is read has a derivation.

- `Json.exists_chars`: what is read between quotes is made of characters and escapes.
- `Json.exists_written`: what is read as a number is written as one.
- `Json.denotes_iff`: which datum a text denotes.
-/

set_option autoImplicit false

namespace DotGraph

namespace Json

/-! ## Strings -/

/-- The pieces of a text between quotes, before the halves of character pairs are joined. -/
inductive Spells : Text → List Piece → Prop where
  | nil : Spells [] []
  | plain {c : Char} {s : Text} {l : List Piece} : c ≠ '"' → c ≠ '\\' → ¬ c.toNat < 32 →
      Spells s l → Spells (c :: s) (.char c :: l)
  | short {e c : Char} {s : Text} {l : List Piece} : shortEscape? e = some c → Spells s l →
      Spells ('\\' :: e :: s) (.char c :: l)
  | code {w x y z : Char} {n : Nat} {s : Text} {l : List Piece} : hex4? w x y z = some n →
      Spells s l → Spells ('\\' :: 'u' :: w :: x :: y :: z :: s) (.code n :: l)

theorem exists_spells (r : Text) {l : List Piece} {rest : Text}
    (h : pieces? r = some (l, rest)) : ∃ s, r = s ++ '"' :: rest ∧ Spells s l := by
  fun_induction pieces? r generalizing l rest with
  | case1 | case3 | case4 | case6 | case7 | case9 | case10 => cases h
  | case2 r =>
    cases h
    exact ⟨[], rfl, .nil⟩
  | case5 a b c d r n hex l rest hl ih =>
    cases h
    obtain ⟨s, rfl, hs⟩ := ih hl
    exact ⟨_, rfl, .code hex hs⟩
  | case8 c r _ e he l rest hl ih =>
    cases h
    obtain ⟨s, rfl, hs⟩ := ih hl
    exact ⟨_, rfl, .short he hs⟩
  | case11 c r hq _ _ hc l rest hl ih =>
    cases h
    obtain ⟨s, rfl, hs⟩ := ih hl
    simp only [Bool.or_eq_true, decide_eq_true_eq, not_or] at hc
    exact ⟨_, rfl, .plain hq hc.1 hc.2 hs⟩

/-- Pieces that make a text stand for its characters. -/
theorem Spells.chars {l : List Piece} {s t : Text} (h : Spells s l) (ht : joinPieces? l = some t) :
    Chars s t := by
  fun_induction joinPieces? l generalizing s t with
  | case1 =>
    cases ht
    cases h
    exact .nil
  | case2 c r ih =>
    obtain ⟨t, hr, rfl⟩ := Option.map_eq_some_iff.mp ht
    cases h with
    | plain hq hb hc hs => exact .plain hq hb hc (ih hs hr)
    | short he hs => exact .short he (ih hs hr)
  | case3 n m r hn hm ih =>
    obtain ⟨t, hr, rfl⟩ := Option.map_eq_some_iff.mp ht
    cases h with
    | code hex hs =>
      cases hs with
      | code hex' hs => exact .pair hex hex' hn hm (ih hs hr)
  | case4 | case5 | case7 => cases ht
  | case6 n m r hn hn' ih =>
    obtain ⟨t, hr, rfl⟩ := Option.map_eq_some_iff.mp ht
    cases h with
    | code hex hs => exact .code hex (by omega) (ih hs hr)
  | case8 n r _ hn ih =>
    obtain ⟨t, hr, rfl⟩ := Option.map_eq_some_iff.mp ht
    cases h with
    | code hex hs => exact .code hex hn (ih hs hr)

/-- **What is read up to a quote is made of characters and escapes.** -/
theorem exists_chars {r rest t : Text} {l : List Piece} (h : pieces? r = some (l, rest))
    (ht : joinPieces? l = some t) : ∃ s, r = s ++ '"' :: rest ∧ Chars s t := by
  obtain ⟨s, hr, hs⟩ := exists_spells r h
  exact ⟨s, hr, hs.chars ht⟩

/-! ## Numbers -/

theorem digits_takeWhile {s : Text} (h : ¬ (s.takeWhile Decimal.isDigit).isEmpty = true) :
    Digits (s.takeWhile Decimal.isDigit) :=
  ⟨fun e => h (List.isEmpty_iff.mpr e), List.all_eq_true.mp List.all_takeWhile⟩

theorem sign_signOf (s : Text) :
    ∃ b, Sign b (Binary.signOf s).1 ∧ s = b ++ (Binary.signOf s).2 := by
  unfold Binary.signOf
  split
  · exact ⟨_, .minus, rfl⟩
  · exact ⟨_, .plus, rfl⟩
  · exact ⟨_, .none, rfl⟩

theorem written_of_exponent? {c : Char} (hc : c = 'e' ∨ c = 'E') {s rest : Text} {e : Bool × Text}
    (h : exponent? s = some (e, rest)) : ∃ u, Exponent u (some e) ∧ c :: s = u ++ rest := by
  obtain ⟨b, hb, hs⟩ := sign_signOf s
  simp only [exponent?] at h
  split at h
  · cases h
  · rename_i hd
    cases h
    refine ⟨_, .some hc hb (digits_takeWhile hd), ?_⟩
    rw [List.cons_append, List.append_assoc, List.takeWhile_append_dropWhile, ← hs]

/-- The exponent after the places, if there is one. -/
theorem exists_exponent {α : Type} {r : Text} {f : Option (Bool × Text) → Text → α} {x : α}
    (h : (match r with
      | c :: t => if c = 'e' || c = 'E' then (exponent? t).map (fun x => f (some x.1) x.2)
        else some (f none (c :: t))
      | [] => some (f none [])) = some x) :
    ∃ u e rest, Exponent u e ∧ r = u ++ rest ∧ f e rest = x := by
  split at h
  · split at h
    · rename_i hc
      obtain ⟨⟨e, rest⟩, he, hx⟩ := Option.map_eq_some_iff.mp h
      obtain ⟨u, hu, hr⟩ := written_of_exponent? (by simpa using hc) he
      exact ⟨u, some e, rest, hu, hr, hx⟩
    · exact ⟨[], none, _, .none, rfl, Option.some.inj h⟩
  · exact ⟨[], none, [], .none, rfl, Option.some.inj h⟩

theorem exists_fraction {s rest : Text} {p : Option Text} {e : Option (Bool × Text)}
    (h : fraction? s = some (p, e, rest)) :
    ∃ t u, Places t p ∧ Exponent u e ∧ s = t ++ (u ++ rest) := by
  simp only [fraction?] at h
  split at h
  · cases h
  · rename_i places r hp
    obtain ⟨u, e, rest, hu, rfl, hx⟩ :=
      exists_exponent (f := fun e rest => (places, e, rest)) h
    cases hx
    split at hp
    · split at hp
      · cases hp
      · rename_i hd
        simp only [Option.some.injEq, Prod.mk.injEq] at hp
        obtain ⟨rfl, hr⟩ := hp
        refine ⟨_, u, .some (digits_takeWhile hd), hu, ?_⟩
        rw [List.cons_append, ← hr, List.takeWhile_append_dropWhile]
    · cases hp
      exact ⟨[], u, .none, hu, rfl⟩

theorem wholeDigits_takeWhile {s : Text}
    (h : ¬ ((s.takeWhile Decimal.isDigit).isEmpty ||
      (1 < (s.takeWhile Decimal.isDigit).length &&
        (s.takeWhile Decimal.isDigit).head? = some '0')) = true) :
    WholeDigits (s.takeWhile Decimal.isDigit) := by
  simp only [Bool.or_eq_true, Bool.and_eq_true, decide_eq_true_eq, not_or, not_and] at h
  have digits := digits_takeWhile h.1
  have positive := List.length_pos_iff.mpr digits.1
  exact ⟨digits, fun zero => Nat.le_antisymm (Nat.not_lt.mp (fun more => h.2 more zero)) positive⟩

/-- **What is read as a number is written as one.** -/
theorem exists_written {s rest : Text} {n : Number} (h : number? s = some (n, rest)) :
    ∃ w, n.Written w ∧ s = w ++ rest := by
  revert h
  fun_cases number? s with
  | case1 | case2 => nofun
  | case3 negative r sign _ hd p e _ hf =>
    rintro ⟨⟩
    have whole := wholeDigits_takeWhile hd
    obtain ⟨t, u, ht, hu, hr⟩ := exists_fraction hf
    have written : r = r.takeWhile Decimal.isDigit ++ (t ++ u) ++ rest := by
      rw [List.append_assoc, List.append_assoc, ← hr, List.takeWhile_append_dropWhile]
    split at sign
    · cases sign
      exact ⟨_, .negative whole ht hu, congrArg ('-' :: ·) written⟩
    · cases sign
      exact ⟨_, .positive whole ht hu, written⟩

/-! ## Values -/

theorem exists_blanks : ∀ s : Text, ∃ b, Blanks b ∧ s = b ++ skipBlanks s
  | [] => ⟨[], blanks_nil, rfl⟩
  | c :: r => by
    rw [skipBlanks]
    split
    · rename_i hc
      obtain ⟨b, hb, hr⟩ := exists_blanks r
      exact ⟨c :: b, List.forall_mem_cons.mpr ⟨hc, hb⟩, congrArg (c :: ·) hr⟩
    · exact ⟨[], blanks_nil, rfl⟩

/-- A scalar that can be read is written in front of what is left. -/
theorem exists_writes_scalar {s rest : Text} {v : Scalar} {d : Datum}
    (h : scalar? s = some (v, rest)) (hd : v.datum = .ok d) : ∃ w, Writes w d ∧ s = w ++ rest := by
  unfold scalar? at h
  split at h
  · cases h
    cases hd
    exact ⟨_, .null, rfl⟩
  · cases h
    cases hd
    exact ⟨_, .yes, rfl⟩
  · cases h
    cases hd
    exact ⟨_, .no, rfl⟩
  · split at h
    · cases h
    · rename_i hp
      split at h
      · rename_i ht
        cases h
        cases hd
        obtain ⟨s, rfl, hs⟩ := exists_chars hp ht
        exact ⟨_, .text hs, by simp⟩
      · cases h
        cases hd
  · split at h
    · rename_i hn
      cases h
      obtain ⟨w, hw, rfl⟩ := exists_written hn
      exact ⟨w, .number hw hd, rfl⟩
    · cases h

theorem exists_key {s rest k : Text} (h : key? s = some (some k, rest)) :
    ∃ w, Chars w k ∧ s = '"' :: (w ++ '"' :: rest) := by
  unfold key? at h
  split at h
  · split at h
    · cases h
    · rename_i hp
      simp only [Option.some.injEq, Prod.mk.injEq] at h
      obtain ⟨ht, rfl⟩ := h
      obtain ⟨w, rfl, hw⟩ := exists_chars hp ht
      exact ⟨w, hw, rfl⟩
  · cases h

/-- A key, a colon and a value make a member. -/
theorem exists_pair {s r t u w k : Text} {d : Datum} (hk : key? (skipBlanks s) = some (some k, r))
    (colon : skipBlanks r = ':' :: t) (hw : Denotes w d) (ht : t = w ++ u) :
    ∃ p, Pair p ⟨k, d⟩ ∧ s = p ++ u := by
  obtain ⟨b, hb, hs⟩ := exists_blanks s
  obtain ⟨q, hq, key⟩ := exists_key hk
  obtain ⟨b', hb', hr⟩ := exists_blanks r
  refine ⟨_, .mk hb hq hb' hw, ?_⟩
  rw [hs, key, hr, colon, ht]
  simp

mutual

/-- A value that can be read is written behind blanks and in front of what is left. -/
theorem exists_writes : ∀ {fuel : Nat} {s rest : Text} {v : Source} {room : Room} {d : Datum},
    value fuel s = (v, rest) → v.datum room = .ok d →
    ∃ b w, Blanks b ∧ Writes w d ∧ s = b ++ (w ++ rest)
  | 0, _, _, _, _, _, h, hd => by
    cases h
    cases hd
  | fuel + 1, s, rest, _, _, d, h, hd => by
    obtain ⟨b, hb, hs⟩ := exists_blanks s
    suffices hw : ∃ w, Writes w d ∧ skipBlanks s = w ++ rest by
      obtain ⟨w, hw, e⟩ := hw
      exact ⟨b, w, hb, hw, e ▸ hs⟩
    rw [value] at h
    split at h
    · rename_i r bracket
      rw [bracket]
      split at h
      · rename_i closed
        cases h
        obtain ⟨b', hb', hr⟩ := exists_blanks r
        obtain ⟨_, l, -, hl, -, rfl⟩ := Source.datum_list_eq_ok_iff.mp hd
        cases hl
        rw [closed] at hr
        exact ⟨_, .emptyList hb', by rw [hr, List.cons_append, List.append_assoc]; rfl⟩
      · rw [itemsFrom_skipBlanks] at h
        rcases hi : itemsFrom fuel r with ⟨l, closed, rest'⟩
        rw [hi] at h
        cases h
        obtain ⟨_, _, -, hl, rfl, rfl⟩ := Source.datum_list_eq_ok_iff.mp hd
        obtain ⟨w, hw, rfl⟩ := exists_items hi hl
        exact ⟨_, .list hw, by simp⟩
    · rename_i r brace
      rw [brace]
      split at h
      · rename_i closed
        cases h
        obtain ⟨b', hb', hr⟩ := exists_blanks r
        obtain ⟨_, l, -, hl, -, rfl⟩ := Source.datum_map_eq_ok_iff.mp hd
        cases hl
        rw [closed] at hr
        exact ⟨_, .emptyMap hb', by rw [hr, List.cons_append, List.append_assoc]; rfl⟩
      · rw [entriesFrom_skipBlanks] at h
        rcases hi : entriesFrom fuel r with ⟨l, closed, rest'⟩
        rw [hi] at h
        cases h
        obtain ⟨_, _, -, hl, rfl, rfl⟩ := Source.datum_map_eq_ok_iff.mp hd
        obtain ⟨w, hw, rfl⟩ := exists_members hi hl
        exact ⟨_, .map hw, by simp⟩
    · split at h
      · rename_i hv
        cases h
        exact exists_writes_scalar hv (Source.datum_scalar hd)
      · cases h
        cases hd

theorem exists_denotes {fuel : Nat} {s rest : Text} {v : Source} {room : Room} {d : Datum}
    (h : value fuel s = (v, rest)) (hd : v.datum room = .ok d) :
    ∃ w, Denotes w d ∧ s = w ++ skipBlanks rest := by
  obtain ⟨b, w, hb, hw, rfl⟩ := exists_writes h hd
  obtain ⟨b', hb', hr⟩ := exists_blanks rest
  refine ⟨_, .padded hb hw hb', ?_⟩
  rw [List.append_assoc, List.append_assoc, ← hr]

theorem exists_items : ∀ {fuel : Nat} {s rest : Text} {l : List Source} {room : Room}
    {m : List Datum}, itemsFrom fuel s = (l, true, rest) → Source.itemData room l = .ok m →
    ∃ w, Items w m ∧ s = w ++ ']' :: rest
  | 0, _, _, _, _, _, h, _ => by cases h
  | fuel + 1, s, _, _, _, _, h, hm => by
    rw [itemsFrom] at h
    rcases hv : value fuel s with ⟨v, r⟩
    simp only [hv] at h
    split at h
    · rename_i closed
      cases h
      obtain ⟨d, _, hd, hl, rfl⟩ := Source.itemData_cons_eq_ok_iff.mp hm
      cases hl
      obtain ⟨w, hw, hs⟩ := exists_denotes hv hd
      exact ⟨w, .last hw, closed ▸ hs⟩
    · rename_i t comma
      rcases hi : itemsFrom fuel t with ⟨l, closed, rest'⟩
      rw [hi] at h
      cases h
      obtain ⟨d, _, hd, hl, rfl⟩ := Source.itemData_cons_eq_ok_iff.mp hm
      obtain ⟨w, hw, hs⟩ := exists_denotes hv hd
      obtain ⟨u, hu, ht⟩ := exists_items hi hl
      exact ⟨_, .more hw hu, by rw [hs, comma, ht, List.append_assoc]; rfl⟩
    · cases h

theorem exists_members : ∀ {fuel : Nat} {s rest : Text} {l : List Entry} {room : Room}
    {m : List Member}, entriesFrom fuel s = (l, true, rest) → Source.entryData room l = .ok m →
    ∃ w, Members w m ∧ s = w ++ '\x7d' :: rest
  | 0, _, _, _, _, _, h, _ => by cases h
  | fuel + 1, s, _, _, _, _, h, hm => by
    rw [entriesFrom] at h
    split at h
    · cases h
    · rename_i k r hk
      split at h
      · rename_i t colon
        rcases hv : value fuel t with ⟨v, u⟩
        simp only [hv] at h
        split at h
        · rename_i closed
          cases h
          obtain ⟨_, _, d, _, e, hd, hl, rfl⟩ := Source.entryData_cons_eq_ok_iff.mp hm
          cases e
          cases hl
          obtain ⟨w, hw, ht⟩ := exists_denotes hv hd
          obtain ⟨p, hp, hs⟩ := exists_pair hk colon hw ht
          exact ⟨p, .last hp, closed ▸ hs⟩
        · rename_i t comma
          rcases hi : entriesFrom fuel t with ⟨l, closed, rest'⟩
          rw [hi] at h
          cases h
          obtain ⟨_, _, d, _, e, hd, hl, rfl⟩ := Source.entryData_cons_eq_ok_iff.mp hm
          cases e
          obtain ⟨w, hw, ht⟩ := exists_denotes hv hd
          obtain ⟨p, hp, hs⟩ := exists_pair hk colon hw ht
          obtain ⟨q, hq, hr⟩ := exists_members hi hl
          exact ⟨_, .more hp hq, by rw [hs, comma, hr, List.append_assoc]; rfl⟩
        · cases h
      · cases h

end

/-- **The reader finds exactly what the grammar has.** A text denotes a datum whose lists and maps
fit into some room if and only if its source is read as that datum in this room and nothing but
blanks is left. -/
theorem denotes_iff {s : Text} {d : Datum} {n : Nat} : Denotes s d ∧ d.depth ≤ n ↔
    (source s).1.datum (some n) = .ok d ∧ skipBlanks (source s).2 = [] := by
  constructor
  · rintro ⟨h, hn⟩
    obtain ⟨t, hs, ht⟩ := source_of_denotes h
    rw [hs]
    exact ⟨Source.datum_source_eq_ok_iff.mpr ⟨hn, rfl⟩, ht⟩
  · rintro ⟨hd, ht⟩
    rcases hv : source s with ⟨v, t⟩
    rw [hv] at hd ht
    obtain ⟨w, hw, hs⟩ := exists_denotes hv hd
    rw [ht, List.append_nil] at hs
    subst hs
    obtain ⟨_, hs, -⟩ := source_of_denotes hw
    obtain rfl : v = d.source := congrArg Prod.fst (hv.symm.trans hs)
    exact ⟨hw, (Source.datum_source_eq_ok_iff.mp hd).1⟩

end Json

end DotGraph
