import DotGraph.Json.Grammar

/-!
# Reading JSON

Every text that the grammar has for a datum is read as the source of that datum, and what follows it
is left. A number ends where no digit, point or exponent follows, so that what follows is part of
the statement.

- `Json.pieces?_chars`: what stands between the quotes of a string is read as its text.
- `Json.number?_written`: a number is read as what is written.
- `Json.source_of_denotes`: a text that denotes a datum is read as its source.
-/

set_option autoImplicit false

namespace DotGraph

mutual

/-- The source of a datum: the tree of its values, without places. -/
def Datum.source : Datum → Source
  | .null => .scalar none .null
  | .bool b => .scalar none (.bool b)
  | .unsigned n => .scalar none (.unsigned n)
  | .signed n => .scalar none (.signed n)
  | .float x => .scalar none (.float x)
  | .text t => .scalar none (.text t)
  | .list items => .list none (Datum.sources items) true
  | .map members => .map none (Member.entries members) true

/-- The sources of data. -/
def Datum.sources : List Datum → List Source
  | [] => []
  | d :: r => d.source :: Datum.sources r

/-- The entries of members. -/
def Member.entries : List Member → List Entry
  | [] => []
  | ⟨k, d⟩ :: r => ⟨some k, d.source⟩ :: Member.entries r

end

namespace Json

/-! ## Strings -/

/-- A piece in front of those that a text gives. -/
def consPiece (p : Piece) : Option (List Piece × Text) → Option (List Piece × Text)
  | none => none
  | some (l, rest) => some (p :: l, rest)

theorem pieces?_short {c e : Char} (h : shortEscape? c = some e) (s : Text) :
    pieces? ('\\' :: c :: s) = consPiece (.char e) (pieces? s) := by
  have hu : c ≠ 'u' := by
    rintro rfl
    cases h
  rw [pieces?]
  · simp only [h]
    rfl
  · intro a b x d r hc
    exact absurd hc hu

theorem pieces?_code {a b c d : Char} {n : Nat} (h : hex4? a b c d = some n) (s : Text) :
    pieces? ('\\' :: 'u' :: a :: b :: c :: d :: s) = consPiece (.code n) (pieces? s) := by
  rw [pieces?]
  simp only [h]
  rfl

theorem pieces?_char {c : Char} (hq : c ≠ '"') (hb : c ≠ '\\') (hc : ¬ c.toNat < 32) (s : Text) :
    pieces? (c :: s) = consPiece (.char c) (pieces? s) := by
  rw [pieces?]
  · rw [if_neg (by simp [hb, hc])]
    rfl
  · exact hq
  · intro a b x d r e
    exact absurd e hb
  · intro x r e
    exact absurd e hb

/-- A number that is no half of a pair stands for its character. -/
theorem joinPieces?_code {n : Nat} (h : ¬ (0xD800 ≤ n ∧ n < 0xE000)) (l : List Piece) :
    joinPieces? (.code n :: l) = (joinPieces? l).map (Char.ofNat n :: ·) := by
  cases l with
  | nil => simp only [joinPieces?, if_neg h]
  | cons p l =>
    cases p with
    | char c => simp only [joinPieces?, if_neg h]
    | code m => rw [joinPieces?, if_neg (by omega), if_neg (by omega)]

/-- Two halves that follow each other stand for the character of the pair. -/
theorem joinPieces?_pair {n m : Nat} (hn : 0xD800 ≤ n ∧ n < 0xDC00) (hm : 0xDC00 ≤ m ∧ m < 0xE000)
    (l : List Piece) : joinPieces? (.code n :: .code m :: l) =
      (joinPieces? l).map
        (Char.ofNat (0x10000 + (n - 0xD800) * 0x400 + (m - 0xDC00)) :: ·) := by
  rw [joinPieces?, if_pos hn, if_pos hm]

/-- **What stands between the quotes of a string is read as its text.** -/
theorem pieces?_chars (r : Text) {s t : Text} (h : Chars s t) :
    ∃ l, pieces? (s ++ '"' :: r) = some (l, r) ∧ joinPieces? l = some t := by
  induction h with
  | nil => exact ⟨[], by rw [List.nil_append, pieces?], by rw [joinPieces?]⟩
  | @plain c s t hq hb hc _ ih =>
    obtain ⟨l, hl, hj⟩ := ih
    refine ⟨.char c :: l, ?_, by rw [joinPieces?, hj]; rfl⟩
    rw [List.cons_append, pieces?_char hq hb hc, hl]
    rfl
  | @short e c s t he _ ih =>
    obtain ⟨l, hl, hj⟩ := ih
    refine ⟨.char c :: l, ?_, by rw [joinPieces?, hj]; rfl⟩
    rw [List.cons_append, List.cons_append, pieces?_short he, hl]
    rfl
  | @code w x y z n s t hn hs _ ih =>
    obtain ⟨l, hl, hj⟩ := ih
    refine ⟨.code n :: l, ?_, by rw [joinPieces?_code hs, hj]; rfl⟩
    simp only [List.cons_append]
    rw [pieces?_code hn, hl]
    rfl
  | @pair w x y z w' x' y' z' n m s t hn hm hs hs' _ ih =>
    obtain ⟨l, hl, hj⟩ := ih
    refine ⟨.code n :: .code m :: l, ?_, by rw [joinPieces?_pair hs hs', hj]; rfl⟩
    simp only [List.cons_append]
    rw [pieces?_code hn, pieces?_code hm, hl]
    rfl

theorem scalar?_chars (r : Text) {s t : Text} (h : Chars s t) :
    scalar? ('"' :: (s ++ '"' :: r)) = some (.text t, r) := by
  obtain ⟨l, hl, hj⟩ := pieces?_chars r h
  rw [scalar?]
  simp only [hl, hj]

theorem key?_chars (r : Text) {s t : Text} (h : Chars s t) :
    key? ('"' :: (s ++ '"' :: r)) = some (some t, r) := by
  obtain ⟨l, hl, hj⟩ := pieces?_chars r h
  rw [key?]
  simp only [hl, hj]

/-! ## Blanks -/

theorem skipBlanks_cons {c : Char} (h : isBlank c = false) (r : Text) :
    skipBlanks (c :: r) = c :: r := by
  rw [skipBlanks, if_neg (by simp [h])]

theorem skipBlanks_append {b : Text} (h : Blanks b) (r : Text) :
    skipBlanks (b ++ r) = skipBlanks r := by
  induction b with
  | nil => rfl
  | cons c b ih =>
    rw [List.cons_append, skipBlanks, if_pos (h c (List.mem_cons_self ..))]
    exact ih (fun x hx => h x (List.mem_cons_of_mem _ hx))

theorem skipBlanks_skipBlanks : ∀ s : Text, skipBlanks (skipBlanks s) = skipBlanks s
  | [] => rfl
  | c :: r => by
    rw [skipBlanks]
    split
    · exact skipBlanks_skipBlanks r
    · rename_i h
      rw [skipBlanks, if_neg h]

theorem value_skipBlanks (fuel : Nat) (s : Text) : value fuel (skipBlanks s) = value fuel s := by
  cases fuel with
  | zero => rfl
  | succ fuel => rw [value, value, skipBlanks_skipBlanks]

theorem itemsFrom_skipBlanks (fuel : Nat) (s : Text) :
    itemsFrom fuel (skipBlanks s) = itemsFrom fuel s := by
  cases fuel with
  | zero => rfl
  | succ fuel => rw [itemsFrom, itemsFrom, value_skipBlanks]

theorem entriesFrom_skipBlanks (fuel : Nat) (s : Text) :
    entriesFrom fuel (skipBlanks s) = entriesFrom fuel s := by
  cases fuel with
  | zero => rfl
  | succ fuel => rw [entriesFrom, entriesFrom, skipBlanks_skipBlanks]

/-! ## Numbers -/

/-- What follows is no more of a run of digits. -/
def NoDigitHead (r : Text) : Prop := ∀ c t, r = c :: t → Decimal.isDigit c = false

/-- What follows is no more of a number. -/
def NumberEnds (r : Text) : Prop :=
  ∀ c t, r = c :: t → Decimal.isDigit c = false ∧ c ≠ '.' ∧ c ≠ 'e' ∧ c ≠ 'E'

theorem numberEnds_nil : NumberEnds [] := by
  intro c t h
  cases h

theorem numberEnds_cons {c : Char} (h : Decimal.isDigit c = false ∧ c ≠ '.' ∧ c ≠ 'e' ∧ c ≠ 'E')
    (r : Text) : NumberEnds (c :: r) := by
  intro c' t e
  cases e
  exact h

theorem NumberEnds.noDigitHead {r : Text} (h : NumberEnds r) : NoDigitHead r :=
  fun c t e => (h c t e).1

/-- A run of digits is cut off where no digit follows. -/
theorem digits_append {s r : Text} (hs : Digits s) (hr : NoDigitHead r) :
    (s ++ r).takeWhile Decimal.isDigit = s ∧ (s ++ r).dropWhile Decimal.isDigit = r := by
  rw [List.takeWhile_append_of_pos hs.2, List.dropWhile_append_of_pos hs.2]
  cases r with
  | nil => simp
  | cons c r =>
    have hc : ¬ Decimal.isDigit c = true := by simp [hr c r rfl]
    rw [List.takeWhile_cons_of_neg hc, List.dropWhile_cons_of_neg hc, List.append_nil]
    exact ⟨rfl, rfl⟩

theorem Digits.head {s : Text} (h : Digits s) :
    ∃ c t, s = c :: t ∧ Decimal.isDigit c = true := by
  obtain ⟨hne, hd⟩ := h
  cases s with
  | nil => exact absurd rfl hne
  | cons c t => exact ⟨c, t, rfl, hd c (List.mem_cons_self ..)⟩

theorem signOf_sign {s t : Text} {negative : Bool} (h : Sign s negative) (ht : Digits t)
    (r : Text) : Binary.signOf (s ++ (t ++ r)) = (negative, t ++ r) := by
  cases h with
  | plus | minus => rfl
  | none =>
    obtain ⟨c, t, rfl, hc⟩ := ht.head
    rw [List.nil_append, List.cons_append, Binary.signOf]
    · intro u e
      cases e
      exact absurd hc (by decide)
    · intro u e
      cases e
      exact absurd hc (by decide)

theorem exponent?_written {s t r : Text} {negative : Bool} (hs : Sign s negative) (ht : Digits t)
    (hr : NumberEnds r) : exponent? (s ++ (t ++ r)) = some ((negative, t), r) := by
  obtain ⟨h1, h2⟩ := digits_append ht hr.noDigitHead
  rw [exponent?, signOf_sign hs ht]
  simp only [h1, h2]
  rw [if_neg (by simpa using ht.1)]

/-- The exponent after the places, if there is one. -/
theorem exponent_written {α : Type} {u r : Text} {e : Option (Bool × Text)} (h : Exponent u e)
    (hr : NumberEnds r) (f : Option (Bool × Text) → Text → α) :
    (match u ++ r with
      | c :: t => if c = 'e' || c = 'E' then (exponent? t).map (fun x => f (some x.1) x.2)
        else some (f none (c :: t))
      | [] => some (f none [])) = some (f e r) := by
  cases h with
  | none =>
    cases r with
    | nil => rfl
    | cons c r =>
      obtain ⟨-, -, h1, h2⟩ := hr c r rfl
      simp [h1, h2]
  | @some c s t negative hc hs ht =>
    have h := exponent?_written hs ht hr
    rcases hc with rfl | rfl <;> simp [h]

theorem head_exponent {u r : Text} {e : Option (Bool × Text)} (he : Exponent u e)
    (hr : NumberEnds r) : ∀ c v, u ++ r = c :: v → Decimal.isDigit c = false ∧ c ≠ '.' := by
  cases he with
  | none => exact fun c v h => ⟨(hr c v h).1, (hr c v h).2.1⟩
  | some hc _ _ =>
    rintro c v ⟨⟩
    rcases hc with rfl | rfl <;> decide

theorem fraction?_written {p : Option Text} {t u r : Text} {e : Option (Bool × Text)}
    (hp : Places t p) (he : Exponent u e) (hr : NumberEnds r) :
    fraction? (t ++ (u ++ r)) = some (p, e, r) := by
  have tail := exponent_written he hr (fun e r => (p, e, r))
  cases hp with
  | none =>
    unfold fraction?
    rw [List.nil_append]
    split
    · rename_i v h
      exact absurd rfl (head_exponent he hr _ v h).2
    · exact tail
  | @some s hs =>
    obtain ⟨h1, h2⟩ := digits_append hs (fun c v h => (head_exponent he hr c v h).1)
    unfold fraction?
    simp only [List.cons_append, h1, h2]
    rw [if_neg (by simpa using hs.1)]
    exact tail

theorem noDigitHead_fraction {p : Option Text} {t u r : Text} {e : Option (Bool × Text)}
    (hp : Places t p) (he : Exponent u e) (hr : NumberEnds r) : NoDigitHead (t ++ (u ++ r)) := by
  cases hp with
  | none => exact fun c v h => (head_exponent he hr c v h).1
  | some _ =>
    rintro c v ⟨⟩
    decide

theorem WholeDigits.not_refused {s : Text} (h : WholeDigits s) :
    ¬ (s.isEmpty || (1 < s.length && s.head? = some '0')) = true := by
  obtain ⟨⟨hne, -⟩, hz⟩ := h
  simp only [Bool.or_eq_true, List.isEmpty_iff, Bool.and_eq_true, decide_eq_true_eq]
  rintro (h | ⟨hl, h0⟩)
  · exact hne h
  · have := hz h0
    omega

/-- **A number is read as what is written**, if what follows does not go on with it. -/
theorem number?_written {s r : Text} {n : Number} (h : n.Written s) (hr : NumberEnds r) :
    number? (s ++ r) = some (n, r) := by
  cases h with
  | @positive s t u p e hs hp he =>
    obtain ⟨h1, h2⟩ := digits_append hs.1 (noDigitHead_fraction hp he hr)
    obtain ⟨c, v, rfl, hc⟩ := hs.1.head
    unfold number?
    simp only [List.append_assoc]
    split
    · rename_i w hx
      cases hx
      exact absurd hc (by decide)
    · simp only [h1, h2, fraction?_written hp he hr]
      rw [if_neg hs.not_refused]
  | @negative s t u p e hs hp he =>
    obtain ⟨h1, h2⟩ := digits_append hs.1 (noDigitHead_fraction hp he hr)
    unfold number?
    simp only [List.cons_append, List.append_assoc, h1, h2, fraction?_written hp he hr]
    rw [if_neg hs.not_refused]

theorem Number.Written.head {s : Text} {n : Number} (h : n.Written s) :
    ∃ c t, s = c :: t ∧ (Decimal.isDigit c = true ∨ c = '-') := by
  cases h with
  | positive hs _ _ =>
    obtain ⟨c, v, rfl, hc⟩ := hs.1.head
    exact ⟨c, _, rfl, .inl hc⟩
  | negative _ _ _ => exact ⟨'-', _, rfl, .inr rfl⟩

/-- Where no other scalar starts, a number is read. -/
theorem scalar?_number {c : Char} (hc : c ∉ "ntf\"".toList) {t r : Text} {n : Number}
    (h : number? (c :: t) = some (n, r)) : scalar? (c :: t) = some (n.toScalar, r) := by
  rw [scalar?]
  · rw [h]
  all_goals
    rintro u ⟨⟩
    exact hc (by decide)

theorem scalar?_written {s r : Text} {n : Number} (h : n.Written s) (hr : NumberEnds r) :
    scalar? (s ++ r) = some (n.toScalar, r) := by
  have hn := number?_written h hr
  obtain ⟨c, t, rfl, hc⟩ := h.head
  have other : ∀ x ∈ "ntf\"".toList, ¬ (Decimal.isDigit x = true ∨ x = '-') := by
    simp [Decimal.isDigit]
    decide
  exact scalar?_number (fun hx => other c hx hc) hn

/-! ## Values -/

theorem numberEnds_append {b r : Text} (hb : Blanks b) (hr : NumberEnds r) :
    NumberEnds (b ++ r) := by
  cases b with
  | nil => exact hr
  | cons c b =>
    refine numberEnds_cons ?_ _
    have hc := hb c (List.mem_cons_self ..)
    simp only [isBlank, Bool.or_eq_true, decide_eq_true_eq] at hc
    rcases hc with ((rfl | rfl) | rfl) | rfl <;> decide

/-- A scalar that can be read is the source of its datum. -/
theorem source_of_datum {v : Scalar} {d : Datum} (h : v.datum = .ok d) :
    d.source = .scalar none v := by
  cases v with
  | wide | unreadable => cases h
  | null | bool | unsigned | signed | float | text =>
    cases h
    rfl

/-- What a number starts with is no blank, closes nothing and opens no list or map. -/
theorem opens_of_number {c : Char} (h : Decimal.isDigit c = true ∨ c = '-') :
    isBlank c = false ∧ c ≠ '[' ∧ c ≠ '\x7b' ∧ c ≠ ']' := by
  have other : ∀ x ∈ " \t\n\r[]\x7b".toList, ¬ (Decimal.isDigit x = true ∨ x = '-') := by
    simp [Decimal.isDigit]
    decide
  have hc : c ∉ " \t\n\r[]\x7b".toList := fun hx => other c hx h
  simp at hc
  simp [isBlank, hc]

/-- The first character of a value is no blank and closes nothing. -/
theorem Writes.head {s : Text} {d : Datum} (h : Writes s d) :
    ∃ c t, s = c :: t ∧ isBlank c = false ∧ c ≠ ']' := by
  cases h with
  | number hn _ =>
    obtain ⟨c, t, rfl, hc⟩ := hn.head
    obtain ⟨hb, -, -, hl⟩ := opens_of_number hc
    exact ⟨c, t, rfl, hb, hl⟩
  | null | yes | no | text _ | emptyList _ | list _ | emptyMap _ | map _ =>
    exact ⟨_, _, rfl, by decide, by decide⟩

theorem Denotes.head {s : Text} {d : Datum} (h : Denotes s d) (r : Text) :
    ∃ c t, skipBlanks (s ++ r) = c :: t ∧ c ≠ ']' := by
  obtain ⟨hb, hw, -⟩ := h
  obtain ⟨c, t, rfl, hc, hn⟩ := hw.head
  rw [List.append_assoc, skipBlanks_append hb]
  exact ⟨c, _, skipBlanks_cons hc _, hn⟩

theorem Items.head {s : Text} {l : List Datum} (h : Items s l) (r : Text) :
    ∃ c t, skipBlanks (s ++ r) = c :: t ∧ c ≠ ']' := by
  cases h with
  | last hd => exact hd.head r
  | more hd _ =>
    rw [List.append_assoc]
    exact hd.head _

theorem Pair.head {s : Text} {m : Member} (h : Pair s m) (r : Text) :
    ∃ t, skipBlanks (s ++ r) = '"' :: t := by
  obtain ⟨hb, -, -, -⟩ := h
  rw [List.append_assoc, skipBlanks_append hb]
  exact ⟨_, skipBlanks_cons (by decide) _⟩

theorem Members.head {s : Text} {l : List Member} (h : Members s l) (r : Text) :
    ∃ t, skipBlanks (s ++ r) = '"' :: t := by
  cases h with
  | last hm => exact hm.head r
  | more hm _ =>
    rw [List.append_assoc]
    exact hm.head _

theorem value_scalar {c : Char} {t r : Text} {v : Scalar} (hb : isBlank c = false) (hl : c ≠ '[')
    (hm : c ≠ '\x7b') (h : scalar? (c :: t) = some (v, r)) (fuel : Nat) :
    value (fuel + 1) (c :: t) = (.scalar none v, r) := by
  rw [value, skipBlanks_cons hb]
  split
  · rename_i e
    cases e
    exact absurd rfl hl
  · rename_i e
    cases e
    exact absurd rfl hm
  · simp only [h]

theorem value_emptyList {s r : Text} (h : skipBlanks s = ']' :: r) (fuel : Nat) :
    value (fuel + 1) ('[' :: s) = (.list none [] true, r) := by
  rw [value, skipBlanks_cons (by decide)]
  simp only [h]

theorem value_emptyMap {s r : Text} (h : skipBlanks s = '\x7d' :: r) (fuel : Nat) :
    value (fuel + 1) ('\x7b' :: s) = (.map none [] true, r) := by
  rw [value, skipBlanks_cons (by decide)]
  simp only [h]

theorem value_list {fuel : Nat} {s r : Text} {l : List Source}
    (hs : ∃ c t, skipBlanks s = c :: t ∧ c ≠ ']') (h : itemsFrom fuel s = (l, true, r)) :
    value (fuel + 1) ('[' :: s) = (.list none l true, r) := by
  obtain ⟨c, t, hs, hc⟩ := hs
  rw [← itemsFrom_skipBlanks, hs] at h
  rw [value, skipBlanks_cons (by decide)]
  simp only [hs]
  split
  · rename_i e
    cases e
    exact absurd rfl hc
  · rw [h]

theorem value_map {fuel : Nat} {s r : Text} {l : List Entry}
    (hs : ∃ t, skipBlanks s = '"' :: t) (h : entriesFrom fuel s = (l, true, r)) :
    value (fuel + 1) ('\x7b' :: s) = (.map none l true, r) := by
  obtain ⟨t, hs⟩ := hs
  rw [← entriesFrom_skipBlanks, hs] at h
  rw [value, skipBlanks_cons (by decide)]
  simp only [hs]
  split
  · rename_i e
    cases e
  · rw [h]

theorem itemsFrom_last {fuel : Nat} {s t r : Text} {v : Source} (h : value fuel s = (v, t))
    (ht : skipBlanks t = ']' :: r) : itemsFrom (fuel + 1) s = ([v], true, r) := by
  rw [itemsFrom, h]
  simp only [ht]

theorem itemsFrom_more {fuel : Nat} {s t u r : Text} {v : Source} {l : List Source}
    (h : value fuel s = (v, t)) (ht : skipBlanks t = ',' :: u)
    (hu : itemsFrom fuel u = (l, true, r)) : itemsFrom (fuel + 1) s = (v :: l, true, r) := by
  rw [itemsFrom, h]
  simp only [ht, hu]

/-- A key is read up to its colon. -/
theorem key?_pair {b s k b' : Text} (hb : Blanks b) (hk : Chars s k) (hb' : Blanks b') (r : Text) :
    key? (skipBlanks (b ++ '"' :: (s ++ '"' :: (b' ++ ':' :: r)))) =
        some (some k, b' ++ ':' :: r) ∧ skipBlanks (b' ++ ':' :: r) = ':' :: r := by
  rw [skipBlanks_append hb, skipBlanks_append hb', skipBlanks_cons (by decide),
    skipBlanks_cons (by decide), key?_chars _ hk]
  exact ⟨rfl, rfl⟩

theorem entriesFrom_last {fuel : Nat} {b s k b' u t r : Text} {v : Source} (hb : Blanks b)
    (hk : Chars s k) (hb' : Blanks b') (h : value fuel u = (v, t))
    (ht : skipBlanks t = '\x7d' :: r) :
    entriesFrom (fuel + 1) (b ++ '"' :: (s ++ '"' :: (b' ++ ':' :: u))) =
      ([⟨some k, v⟩], true, r) := by
  obtain ⟨h1, h2⟩ := key?_pair hb hk hb' u
  rw [entriesFrom, h1]
  simp only [h2, h, ht]

theorem entriesFrom_more {fuel : Nat} {b s k b' u t w r : Text} {v : Source} {l : List Entry}
    (hb : Blanks b) (hk : Chars s k) (hb' : Blanks b') (h : value fuel u = (v, t))
    (ht : skipBlanks t = ',' :: w) (hw : entriesFrom fuel w = (l, true, r)) :
    entriesFrom (fuel + 1) (b ++ '"' :: (s ++ '"' :: (b' ++ ':' :: u))) =
      (⟨some k, v⟩ :: l, true, r) := by
  obtain ⟨h1, h2⟩ := key?_pair hb hk hb' u
  rw [entriesFrom, h1]
  simp only [h2, h, ht, hw]

mutual

/-- The fuel that a value needs is bounded by its text: each value and each step from one item or
member to the next takes one unit, and there is a character for each of them. -/
theorem value_writes : ∀ {s : Text} {d : Datum}, Writes s d → ∀ (fuel : Nat) (r : Text),
    2 * s.length ≤ fuel → NumberEnds r → value fuel (s ++ r) = (d.source, r)
  | s, d, h, 0, r, hf, _ => by
    obtain ⟨c, t, rfl, -⟩ := h.head
    simp at hf
  | _, _, .null, fuel + 1, r, _, _ =>
    value_scalar (c := 'n') (by decide) (by decide) (by decide) rfl fuel
  | _, _, .yes, fuel + 1, r, _, _ =>
    value_scalar (c := 't') (by decide) (by decide) (by decide) rfl fuel
  | _, _, .no, fuel + 1, r, _, _ =>
    value_scalar (c := 'f') (by decide) (by decide) (by decide) rfl fuel
  | _, _, .text hs, fuel + 1, r, _, _ => by
    rw [List.cons_append, List.append_assoc, List.singleton_append]
    exact value_scalar (by decide) (by decide) (by decide) (scalar?_chars r hs) fuel
  | _, _, .number hn hd, fuel + 1, r, _, hr => by
    have h := scalar?_written hn hr
    obtain ⟨c, t, rfl, hc⟩ := hn.head
    obtain ⟨hb, hl, hm, -⟩ := opens_of_number hc
    rw [source_of_datum hd]
    exact value_scalar hb hl hm h fuel
  | _, _, .emptyList hb, fuel + 1, r, _, _ => by
    rw [List.cons_append, List.append_assoc, List.singleton_append]
    exact value_emptyList (by rw [skipBlanks_append hb, skipBlanks_cons (by decide)]) fuel
  | _, _, .list hi, fuel + 1, r, hf, _ => by
    simp only [List.length_append, List.length_cons, List.length_nil] at hf
    rw [List.cons_append, List.append_assoc, List.singleton_append]
    exact value_list (hi.head _) (itemsFrom_items hi fuel r (by omega))
  | _, _, .emptyMap hb, fuel + 1, r, _, _ => by
    rw [List.cons_append, List.append_assoc, List.singleton_append]
    exact value_emptyMap (by rw [skipBlanks_append hb, skipBlanks_cons (by decide)]) fuel
  | _, _, .map hm, fuel + 1, r, hf, _ => by
    simp only [List.length_append, List.length_cons, List.length_nil] at hf
    rw [List.cons_append, List.append_assoc, List.singleton_append]
    exact value_map (hm.head _) (entriesFrom_members hm fuel r (by omega))

theorem value_denotes : ∀ {s : Text} {d : Datum}, Denotes s d → ∀ (fuel : Nat) (r : Text),
    2 * s.length ≤ fuel → NumberEnds r →
    ∃ t, value fuel (s ++ r) = (d.source, t) ∧ skipBlanks t = skipBlanks r
  | _, _, @Denotes.padded b s b' _ hb hw hb', fuel, r, hf, hr => by
    simp only [List.length_append] at hf
    refine ⟨b' ++ r, ?_, skipBlanks_append hb' r⟩
    rw [List.append_assoc, List.append_assoc, ← value_skipBlanks, skipBlanks_append hb,
      value_skipBlanks]
    exact value_writes hw fuel _ (by omega) (numberEnds_append hb' hr)

theorem itemsFrom_items : ∀ {s : Text} {l : List Datum}, Items s l → ∀ (fuel : Nat) (r : Text),
    2 * s.length + 1 ≤ fuel → itemsFrom fuel (s ++ ']' :: r) = (Datum.sources l, true, r)
  | _, _, _, 0, _, hf => absurd hf (by omega)
  | _, _, .last hd, fuel + 1, r, hf => by
    obtain ⟨t, ht, hs⟩ := value_denotes hd fuel (']' :: r) (by omega)
      (numberEnds_cons (by decide) r)
    exact itemsFrom_last ht hs
  | _, _, .more hd hi, fuel + 1, r, hf => by
    simp only [List.length_append, List.length_cons] at hf
    obtain ⟨t, ht, hs⟩ := value_denotes hd fuel (',' :: (_ ++ ']' :: r)) (by omega)
      (numberEnds_cons (by decide) _)
    rw [List.append_assoc]
    exact itemsFrom_more ht hs (itemsFrom_items hi fuel r (by omega))

theorem entriesFrom_members : ∀ {s : Text} {l : List Member}, Members s l →
    ∀ (fuel : Nat) (r : Text), 2 * s.length + 1 ≤ fuel →
    entriesFrom fuel (s ++ '\x7d' :: r) = (Member.entries l, true, r)
  | _, _, _, 0, _, hf => absurd hf (by omega)
  | _, _, .last (.mk hb hk hb' hd), fuel + 1, r, hf => by
    simp only [List.length_append, List.length_cons] at hf
    obtain ⟨t, ht, hs⟩ := value_denotes hd fuel ('\x7d' :: r) (by omega)
      (numberEnds_cons (by decide) r)
    simp only [List.append_assoc, List.cons_append]
    exact entriesFrom_last hb hk hb' ht hs
  | _, _, .more (.mk hb hk hb' hd) hm, fuel + 1, r, hf => by
    simp only [List.length_append, List.length_cons] at hf
    obtain ⟨t, ht, hs⟩ := value_denotes hd fuel (',' :: (_ ++ '\x7d' :: r)) (by omega)
      (numberEnds_cons (by decide) _)
    simp only [List.append_assoc, List.cons_append]
    exact entriesFrom_more hb hk hb' ht hs (entriesFrom_members hm fuel r (by omega))

end

/-- **A text that denotes a datum is read as its source**, and nothing but blanks is left. -/
theorem source_of_denotes {s : Text} {d : Datum} (h : Denotes s d) :
    ∃ t, source s = (d.source, t) ∧ skipBlanks t = [] := by
  have hv := value_denotes h (2 * s.length + 2) [] (by omega) numberEnds_nil
  rwa [List.append_nil] at hv

end Json

end DotGraph
