import DotGraph.Proofs.Carrying
import DotGraph.Proofs.Rewriting

/-!
# Integers in descriptions

An integer may be written in place of the text of its digits. Integers of 64 bits with a sign keep
all digits; those from `2^63` up to `2^64` are read as the nearest binary number, so that different
ones can become one value.

- `Dialect.integer`: how an integer arrives from its canonical decimal text.
- `Dialect.parse_integer`: what is read from a description with an integer as a value.
-/

set_option autoImplicit false

namespace DotGraph

/-! ## Canonical decimals -/

namespace Decimal

theorem toNat_of_isDigit {c : Char} (h : isDigit c = true) : 48 ≤ c.toNat ∧ c.toNat ≤ 57 := by
  by_contra outside
  have digit : ¬ ('0' ≤ c ∧ c ≤ '9') := outside
  have letter : ∀ {a b : Char}, a ≤ c ∧ c ≤ b → a.toNat ≤ c.toNat := fun h => h.1
  have none : digitValue? 10 c = none := by
    rw [digitValue?, if_neg digit]
    refine if_neg (Nat.not_lt.mpr ?_)
    split
    · rename_i lower
      have : 97 ≤ c.toNat := letter lower
      omega
    · split
      · rename_i upper
        have : 65 ≤ c.toNat := letter upper
        omega
      · exact Nat.le_refl _
  rw [isDigit, none] at h
  cases h

theorem isDigit_digitChar {d : Nat} (h : d < 10) : isDigit (digitChar d) = true := by
  rw [isDigit, digitValue_digitChar h, Option.isSome_some]

theorem digits_ne_nil (n : Nat) : digits n ≠ [] := by
  rw [digits]
  split <;> simp

theorem isDigit_of_mem_digits (n : Nat) : ∀ c ∈ digits n, isDigit c = true := by
  induction n using Nat.strongRecOn with
  | _ n ih =>
    rw [digits]
    split
    · rename_i h
      exact List.forall_mem_singleton.mpr (isDigit_digitChar h)
    · rename_i h
      have last : isDigit (digitChar (n % 10)) = true := isDigit_digitChar (Nat.mod_lt _ (by omega))
      exact List.forall_mem_append.mpr ⟨ih (n / 10) (by omega), List.forall_mem_singleton.mpr last⟩

/-- Only zero starts with the digit zero. -/
theorem eq_zero_of_head?_digits (n : Nat) : (digits n).head? = some '0' → n = 0 := by
  induction n using Nat.strongRecOn with
  | _ n ih =>
    intro hz
    rw [digits] at hz
    split at hz
    · rename_i h
      have value := digitValue_digitChar h
      rw [Option.some.inj hz] at value
      exact (Option.some.inj value).symm
    · rename_i h
      rw [List.head?_append_of_ne_nil _ (digits_ne_nil _)] at hz
      have := ih (n / 10) (by omega) hz
      omega

theorem digits_injective {m n : Nat} (h : digits m = digits n) : m = n := by
  rw [← valueOf_digits m, h, valueOf_digits]

theorem digits_head (n : Nat) : ∃ c s, digits n = c :: s ∧ isDigit c = true ∧
    ∀ d ∈ s, isDigit d = true := by
  have all := isDigit_of_mem_digits n
  cases h : digits n with
  | nil => exact absurd h (digits_ne_nil n)
  | cons c s =>
    rw [h] at all
    exact ⟨c, s, rfl, List.forall_mem_cons.mp all⟩

/-- An integer is written as a digit or a sign, and digits after it. -/
theorem ofInt_head (n : Int) : ∃ c s, ofInt n = c :: s ∧ (isDigit c = true ∨ c = '-') ∧
    ∀ d ∈ s, isDigit d = true := by
  cases n with
  | ofNat n =>
    obtain ⟨c, s, h, hc, hs⟩ := digits_head n
    exact ⟨c, s, h, .inl hc, hs⟩
  | negSucc n => exact ⟨'-', _, rfl, .inr rfl, isDigit_of_mem_digits (n + 1)⟩

/-- Different integers have different texts. -/
theorem ofInt_injective {m n : Int} (h : ofInt m = ofInt n) : m = n := by
  have other : ∀ k l : Nat, digits k ≠ '-' :: digits l := by
    intro k l e
    have sign := isDigit_of_mem_digits k '-' (e ▸ List.mem_cons_self ..)
    exact absurd sign (by decide)
  cases m with
  | ofNat m =>
    cases n with
    | ofNat n => exact congrArg Int.ofNat (digits_injective h)
    | negSucc n => exact absurd h (other m (n + 1))
  | negSucc m =>
    cases n with
    | ofNat n => exact absurd h.symm (other n (m + 1))
    | negSucc n => exact congrArg Int.negSucc (Nat.succ.inj (digits_injective (List.cons.inj h).2))

end Decimal

theorem Value.ofInt_injective {m n : Int} (h : Value.ofInt m = Value.ofInt n) : m = n :=
  Decimal.ofInt_injective (Value.plain.inj h)

/-! ## Literals -/

/-- The datum that an integer is, from its canonical decimal text. JSON knows integers by their
sign, TOML by their size. -/
def Dialect.integer : Dialect → Int → Datum
  | json, n => if 0 ≤ n then .unsigned n.toNat else .signed n
  | toml, n => if n < Nat.pow 2 63 then .signed n else .unsigned n.toNat

namespace Json

theorem wholeDigits_digits (n : Nat) : WholeDigits (Decimal.digits n) := by
  refine ⟨⟨Decimal.digits_ne_nil n, Decimal.isDigit_of_mem_digits n⟩, fun h => ?_⟩
  rw [Decimal.eq_zero_of_head?_digits n h, Decimal.digits]
  rfl

/-- In JSON the decimal text of an integer of 64 bits writes it. -/
theorem writes_ofInt {n : Int} (low : -(Nat.pow 2 63 : Int) ≤ n) (high : n < Nat.pow 2 64) :
    Writes (Decimal.ofInt n) (Dialect.json.integer n) := by
  cases n with
  | ofNat n =>
    have number : Number.Written (Decimal.digits n) ⟨false, Decimal.digits n, none, none⟩ := by
      simpa using Number.Written.positive (wholeDigits_digits n) .none .none
    have inside : n < Nat.pow 2 64 := Int.ofNat_lt.mp high
    have scalar : Number.toScalar ⟨false, Decimal.digits n, none, none⟩ = .unsigned n := by
      simp [Number.toScalar, Decimal.valueOf_digits, inside]
    refine .number number ?_
    have positive : 0 ≤ Int.ofNat n := Int.natCast_nonneg n
    rw [scalar, Dialect.integer, if_pos positive]
    rfl
  | negSucc n =>
    have number : Number.Written ('-' :: Decimal.digits (n + 1))
        ⟨true, Decimal.digits (n + 1), none, none⟩ := by
      simpa using Number.Written.negative (wholeDigits_digits (n + 1)) .none .none
    have inside : n + 1 ≤ Nat.pow 2 63 := by
      have := Int.negSucc_eq n
      omega
    have scalar : Number.toScalar ⟨true, Decimal.digits (n + 1), none, none⟩ =
        .signed (-((n + 1 : Nat) : Int)) := by
      simp [Number.toScalar, Decimal.valueOf_digits, inside]
    refine .number number ?_
    rw [scalar, Dialect.integer, if_neg (Int.not_le.mpr (Int.negSucc_lt_zero n))]
    rfl

end Json

namespace Toml

/-- No atom goes on with what follows. -/
def AtomEnds (r : Text) : Prop := ∀ c t, r = c :: t → endsAtom c = true

/-- No unquoted scalar goes on with the tokens that follow. -/
def RunEnds (r : List Token) : Prop :=
  ∀ t u, r = t :: u → t.kind ≠ .dot ∧ ∀ s, t.kind ≠ .atom s

/-- A text that stands for a scalar: it is cut off as one token, and where a value is expected this
token is read as the scalar. -/
structure Literal (s : Text) (v : Scalar) : Prop where
  token : ∀ r, AtomEnds r → token? (s ++ r) = some (.atom s, r)
  value : ∀ room fuel place r, RunEnds r →
    value? room (fuel + 1) (⟨.atom s, place⟩ :: r) = some (.scalar place v, r)

theorem joinDigits?_digits : ∀ {s : Text} {after : Bool}, (∀ c ∈ s, Decimal.isDigit c = true) →
    (after = true ∨ s ≠ []) → joinDigits? 10 after s = some s
  | [], after, _, h => by
    obtain rfl : after = true := h.resolve_right (fun hs => hs rfl)
    rfl
  | c :: r, after, hs, _ => by
    obtain ⟨hc, hr⟩ := List.forall_mem_cons.mp hs
    have plain : c ≠ '_' := by
      rintro rfl
      exact absurd hc (by decide)
    have digit : (Decimal.digitValue? 10 c).isSome = true := hc
    rw [joinDigits?, if_neg plain, if_pos digit, joinDigits?_digits hr (.inl rfl)]
    rfl

theorem wholeDigits?_digits {s : Text} (h : Json.WholeDigits s) : wholeDigits? s = some s := by
  rw [wholeDigits?, joinDigits?_digits h.1.2 (.inr h.1.1)]
  split
  · rename_i c d r hs
    cases hs
    have first : c ≠ '0' := by
      rintro rfl
      have := h.2 rfl
      simp at this
    rw [if_neg first]
  · rfl

theorem signOf_digits (n : Nat) : Binary.signOf (Decimal.digits n) = (false, Decimal.digits n) := by
  have h := Json.signOf_sign .none (Json.wholeDigits_digits n).1 []
  rwa [List.append_nil, List.nil_append] at h

/-- The decimal text of an integer is read as this integer. -/
theorem integer?_ofInt (n : Int) : integer? (Decimal.ofInt n) = some (ofInteger n) := by
  have based : ∀ {a b : Char} {r : Text}, Decimal.ofInt n = a :: b :: r →
      Decimal.isDigit b = true := by
    intro a b r h
    obtain ⟨c, s, hn, -, hs⟩ := Decimal.ofInt_head n
    cases h.symm.trans hn
    exact hs b (List.mem_cons_self ..)
  unfold integer?
  split
  · rename_i h
    exact absurd (based h) (by decide)
  · rename_i h
    exact absurd (based h) (by decide)
  · rename_i h
    exact absurd (based h) (by decide)
  · cases n with
    | ofNat n =>
      rw [Decimal.ofInt, signOf_digits]
      simp [wholeDigits?_digits (Json.wholeDigits_digits n), Decimal.valueOf_digits]
    | negSucc n =>
      have sign : Binary.signOf (Decimal.ofInt (.negSucc n)) =
          (true, Decimal.digits (n + 1)) := rfl
      rw [sign]
      simp [wholeDigits?_digits (Json.wholeDigits_digits (n + 1)), Decimal.valueOf_digits,
        Int.negSucc_eq]

theorem scalarSource?_ofInt (n : Int) (place : Span) :
    scalarSource? place (Decimal.ofInt n) = some (.scalar place (ofInteger n)) := by
  obtain ⟨c, s, hn, hc, -⟩ := Decimal.ofInt_head n
  have word : ∀ {d : Char} {r : Text}, Decimal.isDigit d = false → d ≠ '-' →
      Decimal.ofInt n ≠ d :: r := by
    intro d r hd sign h
    cases h.symm.trans hn
    rcases hc with hc | hc
    · rw [hd] at hc
      cases hc
    · exact sign hc
  have yes : Decimal.ofInt n ≠ "true".toList := word (by decide) (by decide)
  have no : Decimal.ofInt n ≠ "false".toList := word (by decide) (by decide)
  rw [scalarSource?, if_neg yes, if_neg no, integer?_ofInt]

theorem isDate_ofInt (n : Int) : isDate (Decimal.ofInt n) = false := by
  obtain ⟨c, s, hn, -, hs⟩ := Decimal.ofInt_head n
  have none : date? (Decimal.ofInt n) = none := by
    unfold date?
    split
    · rename_i h
      cases h.symm.trans hn
      exact absurd (hs '-' (by simp)) (by decide)
    · rfl
  rw [isDate, none]

theorem run_of_ends {r : List Token} (h : RunEnds r) (stop : Nat) : run stop r = ([], stop, r) := by
  cases r with
  | nil => rfl
  | cons t u =>
    obtain ⟨dot, atom⟩ := h t u rfl
    unfold run
    split
    · rename_i s hs
      exact absurd hs (atom s)
    · rename_i hd
      exact absurd hd dot
    · rfl

theorem value?_ofInt (n : Int) (room fuel : Nat) (place : Span) {r : List Token} (hr : RunEnds r) :
    value? room (fuel + 1) (⟨.atom (Decimal.ofInt n), place⟩ :: r) =
      some (.scalar place (ofInteger n), r) := by
  obtain ⟨c, s, hn, -⟩ := Decimal.ofInt_head n
  have whole : run place.start (⟨.atom (Decimal.ofInt n), place⟩ :: r) =
      (Decimal.ofInt n, place.stop, r) := by
    simp only [run, run_of_ends hr, List.append_nil]
  have plain : bare? place.start (⟨.atom (Decimal.ofInt n), place⟩ :: r) =
      some (.scalar place (ofInteger n), r) := by
    have nonempty : ¬ (Decimal.ofInt n).isEmpty = true := by simp [hn]
    rw [bare?, whole]
    simp only [if_neg nonempty, scalarSource?_ofInt, isDate_ofInt, Bool.false_and,
      Bool.false_eq_true, if_false]
    split
    · rfl
    · split <;> rfl
  rw [value?.eq_def]
  exact plain

theorem endsAtom_of_isDigit {c : Char} (h : Decimal.isDigit c = true ∨ c = '-') :
    endsAtom c = false := by
  refine Bool.eq_false_iff.mpr (fun ends => ?_)
  simp only [endsAtom, Bool.or_eq_true, decide_eq_true_eq, or_assoc] at ends
  rcases ends with rfl | rfl | rfl | rfl | rfl | rfl | rfl | rfl | rfl | rfl | rfl | rfl <;>
    exact absurd h (by decide)

theorem isPlain_of_isDigit {c : Char} (h : Decimal.isDigit c = true ∨ c = '-') :
    isPlain c = true := by
  rcases h with h | rfl
  · have := Decimal.toNat_of_isDigit h
    simp only [isPlain, Bool.or_eq_true, Bool.and_eq_true, decide_eq_true_eq]
    omega
  · decide

/-- The decimal text of an integer is cut off as one token. -/
theorem token?_ofInt (n : Int) {r : Text} (hr : AtomEnds r) :
    token? (Decimal.ofInt n ++ r) = some (.atom (Decimal.ofInt n), r) := by
  obtain ⟨c, s, hn, hc, hs⟩ := Decimal.ofInt_head n
  have chars : ∀ d ∈ Decimal.ofInt n, (!endsAtom d) = true := by
    intro d hd
    rw [hn] at hd
    rw [Bool.not_eq_true']
    rcases List.mem_cons.mp hd with rfl | hd
    · exact endsAtom_of_isDigit hc
    · exact endsAtom_of_isDigit (.inl (hs d hd))
  have cut : (Decimal.ofInt n ++ r).takeWhile (fun d => !endsAtom d) = Decimal.ofInt n ∧
      (Decimal.ofInt n ++ r).dropWhile (fun d => !endsAtom d) = r := by
    rw [List.takeWhile_append_of_pos chars, List.dropWhile_append_of_pos chars]
    cases r with
    | nil => exact ⟨by simp, rfl⟩
    | cons d t =>
      have ends : ¬ (!endsAtom d) = true := by simp [hr d t rfl]
      rw [List.takeWhile_cons_of_neg (p := fun d => !endsAtom d) ends,
        List.dropWhile_cons_of_neg (p := fun d => !endsAtom d) ends, List.append_nil]
      exact ⟨rfl, rfl⟩
  rw [hn, List.cons_append] at cut ⊢
  unfold token?
  split
  case h_12 e =>
    obtain ⟨rfl, rfl⟩ := List.cons.inj e
    have other : ∀ d, ¬ (Decimal.isDigit d = true ∨ d = '-') → c ≠ d := by
      rintro d hd rfl
      exact hd hc
    simp [other '"' (by decide), other '\'' (by decide), other ' ' (by decide),
      other '\t' (by decide), isPlain_of_isDigit hc, cut]
  case h_1 e => cases e
  all_goals
    rename_i e
    rw [(List.cons.inj e).1] at hc
    exact absurd hc (by decide)

/-- In TOML the decimal text of an integer stands for it. -/
theorem literal_ofInt (n : Int) : Literal (Decimal.ofInt n) (ofInteger n) where
  token _ hr := token?_ofInt n hr
  value room fuel place _ hr := value?_ofInt n room fuel place hr

theorem datum_ofInteger {n : Int} (low : -(Nat.pow 2 63 : Int) ≤ n) (high : n < Nat.pow 2 64) :
    (ofInteger n).datum = .ok (Dialect.toml.integer n) := by
  by_cases inside : n < Nat.pow 2 63
  · rw [ofInteger, if_pos ⟨low, inside⟩, Dialect.integer, if_pos inside]
    rfl
  · have positive : 0 ≤ n := by omega
    rw [ofInteger, if_neg (fun h => inside h.2), if_pos ⟨positive, high⟩, Dialect.integer,
      if_neg inside]
    rfl

end Toml

/-- A text that, where a value is expected, stands for a datum. -/
def Dialect.Literal : Dialect → Text → Datum → Prop
  | json, s, d => Json.Writes s d
  | toml, s, d => ∃ v, Toml.Literal s v ∧ v.datum = .ok d

/-- **The decimal text of an integer of 64 bits stands for it** in either format. -/
theorem Dialect.literal_ofInt (D : Dialect) {n : Int} (low : -(Nat.pow 2 63 : Int) ≤ n)
    (high : n < Nat.pow 2 64) : D.Literal (Decimal.ofInt n) (D.integer n) := by
  cases D with
  | json => exact Json.writes_ofInt low high
  | toml => exact ⟨Toml.ofInteger n, Toml.literal_ofInt n, Toml.datum_ofInteger low high⟩

/-! ## Values -/

theorem Value.ofDatum?_integer (D : Dialect) {n : Int} (high : n < Nat.pow 2 63) :
    Value.ofDatum? (D.integer n) = some (.ofInt n) := by
  cases D with
  | json =>
    by_cases positive : 0 ≤ n
    · have inside : n.toNat < Nat.pow 2 63 := by omega
      rw [Dialect.integer, if_pos positive, Value.ofDatum?, if_pos inside,
        Int.toNat_of_nonneg positive]
    · rw [Dialect.integer, if_neg positive, Value.ofDatum?]
  | toml => rw [Dialect.integer, if_pos high, Value.ofDatum?]

/-- Without room for a sign an integer is rounded. -/
theorem Value.ofDatum?_unsigned (D : Dialect) {n : Int} (low : (Nat.pow 2 63 : Int) ≤ n) :
    Value.ofDatum? (D.integer n) = some (.ofBinary64 (Binary.binary64.ofNat n.toNat)) := by
  have unsigned : D.integer n = .unsigned n.toNat := by
    cases D with
    | json => exact if_pos (by omega)
    | toml => exact if_neg (by omega)
  rw [unsigned, Value.ofDatum?, if_neg (by omega)]

/-! ## Descriptions -/

open Schema

/-- A description that can be read with some value can be read with every other one, as the same
graph around it. -/
theorem Dialect.exists_parse_eq_hold {D : Dialect} {p : List Layer} (hp : Within .graph p .value)
    (kept : Kept .graph p) {name₀ t₀ : Text} {v₀ : Datum} {g₀ : Graph}
    (h₀ : D.Describes t₀ (surround p v₀)) (hg : D.parse name₀ t₀ = .ok g₀) :
    ∃ s : Surroundings, ∃ c : Carrier, c.IsFor p ∧ ∀ name t v, D.Describes t (surround p v) →
      (D.parse name t).toOption = (Value.ofDatum? v).map (s.hold c) := by
  obtain ⟨named₀, graph₀⟩ := h₀.parse_iff.mp hg
  obtain ⟨_, ⟨c, hc, rfl⟩, s, read⟩ := hp.carries (.inr ⟨rfl, kept⟩) graph₀
  -- In JSON some kinds of statements are refused, whatever the value is.
  have named : ∀ v, Graph.BodyNamed (surround p v) ↔ Graph.BodyNamed (surround p v₀) :=
    fun v => hp.named_iff Iff.rfl
  refine ⟨s, c, hc, fun name t v h => Option.ext (fun g => ?_)⟩
  rw [toOption_eq_some_iff, h.parse_iff, named, read, Option.map_map]
  exact and_iff_right named₀

/-- **Integers of 64 bits with a sign keep their digits.** The value is that of an identity, or the
last one that an attribute list gives to a key. Every text that is read as a graph describes a
datum. If a description can be read with some value at the place, then with every other one it is
read as the same graph with what this value is read as in this place, and different values give
different graphs. The decimal text of an integer below `2^63` is read there as the text of its
digits, so that different integers are different values. One from `2^63` up to `2^64` is rounded to
a binary number first. -/
theorem Dialect.parse_integer (D : Dialect) {p : List Layer} (hp : Within .graph p .value)
    (kept : Kept .graph p) :
    (∀ name t g, D.parse name t = .ok g → ∃ d, D.Describes t d) ∧
    (∀ name₀ t₀ v₀ g₀, D.Describes t₀ (surround p v₀) → D.parse name₀ t₀ = .ok g₀ →
      ∃ s : Surroundings, ∃ c : Carrier, c.IsFor p ∧ Function.Injective (s.hold c) ∧
        (∀ name t v, D.Describes t (surround p v) →
          (D.parse name t).toOption = (Value.ofDatum? v).map (s.hold c)) ∧
        ∀ name t n, D.Describes t (surround p (D.integer n)) →
          (n < Nat.pow 2 63 → D.parse name t = .ok (s.hold c (.ofInt n))) ∧
          ((Nat.pow 2 63 : Int) ≤ n → D.parse name t =
            .ok (s.hold c (.ofBinary64 (Binary.binary64.ofNat n.toNat))))) ∧
    (∀ n : Int, -(Nat.pow 2 63 : Int) ≤ n → n < Nat.pow 2 64 →
      D.Literal (Decimal.ofInt n) (D.integer n)) ∧
    ∀ m n : Int, Value.ofInt m = .ofInt n → m = n := by
  refine ⟨fun _ _ _ => exists_describes, fun name₀ t₀ v₀ g₀ h₀ hg => ?_,
    fun n => D.literal_ofInt, fun _ _ => Value.ofInt_injective⟩
  obtain ⟨s, c, hc, read⟩ := exists_parse_eq_hold hp kept h₀ hg
  refine ⟨s, c, hc, s.hold_injective c, read, fun name t n h => ⟨fun high => ?_, fun low => ?_⟩⟩
  · rw [← toOption_eq_some_iff, read name t _ h, Value.ofDatum?_integer D high, Option.map_some]
  · rw [← toOption_eq_some_iff, read name t _ h, Value.ofDatum?_unsigned D low, Option.map_some]

/-- A description of a graph with a single identity, whose value is written as a text. -/
def Dialect.identity : Dialect → Text → Text
  | json, value =>
    "\x7b\"statements\":[\x7b\"key\":\"a\",\"kind\":\"identity\",\"value\":".toList ++ value ++
      "\x7d]\x7d".toList
  | toml, value =>
    "[[statements]]\nkey = \"a\"\nkind = \"identity\"\nvalue = ".toList ++ value ++ "\n".toList

/-- The largest integer with room for a sign, as the value of an identity. -/
theorem Dialect.parse_integer_largest :
    let p : List Layer := [.member [] "statements".toList [], .item [] [],
      .member [⟨"key".toList, .text "a".toList⟩, ⟨"kind".toList, .text "identity".toList⟩]
        "value".toList []]
    let n : Int := 9223372036854775807
    Within .graph p .value ∧ Kept .graph p ∧ ∀ D : Dialect,
      D.Describes (D.identity (Decimal.ofInt n)) (surround p (D.integer n)) ∧
      D.Describes (D.identity "false".toList) (surround p (.bool false)) ∧
      ∃ s : Surroundings, ∃ c : Carrier, c.IsFor p ∧
        D.parse [] (D.identity "false".toList) = .ok (s.hold c (.ofBool false)) ∧
        D.parse [] (D.identity (Decimal.ofInt n)) = .ok (s.hold c (.ofInt n)) := by
  intro p n
  have hp : Within .graph p .value :=
    .graph (f := .body) rfl (.body (.statement (k := .assign) (f := .value)
      ⟨_, List.mem_cons_of_mem _ (List.mem_cons_self ..), rfl⟩ (by decide) rfl .here))
  have kept : Kept .graph p := by
    intro q front key back h _
    have last := congrArg List.getLast? h
    rw [List.getLast?_concat] at last
    cases last
    exact nofun
  have number : ∀ D : Dialect, D.Denotes (D.identity (Decimal.ofInt n))
      (surround p (D.integer n)) := by
    intro D
    cases D with
    | json => exact Dialect.denotes_json (by decide +kernel)
    | toml => exact Dialect.denotes_toml (by decide +kernel)
  have truth : ∀ D : Dialect, D.Denotes (D.identity "false".toList)
      (surround p (.bool false)) := by
    intro D
    cases D with
    | json => exact Dialect.denotes_json (by decide +kernel)
    | toml => exact Dialect.denotes_toml (by decide +kernel)
  have taken : ∀ D : Dialect, (D.parse [] (D.identity "false".toList)).toOption.isSome := by
    intro D
    cases D <;> decide +kernel
  refine ⟨hp, kept, fun D => ⟨(number D).describes, (truth D).describes, ?_⟩⟩
  obtain ⟨g, hg⟩ := toOption_isSome_iff.mp (taken D)
  obtain ⟨-, held, -⟩ := D.parse_integer hp kept
  obtain ⟨s, c, hc, -, read, integer⟩ := held [] _ _ g (truth D).describes hg
  exact ⟨s, c, hc, toOption_eq_some_iff.mp (read [] _ _ (truth D).describes),
    (integer [] _ n (number D).describes).1 (by decide)⟩

/-- Without room for a sign two integers are read as one value, which has the digits of neither. -/
theorem Dialect.parse_integer_rounded :
    let rounded : Value := .plain "18446744073709552000".toList
    (∀ D : Dialect, ∃ g : Graph,
      D.parse [] (D.identity (Decimal.ofInt 18446744073709551614)) = .ok g ∧
      D.parse [] (D.identity (Decimal.ofInt 18446744073709551615)) = .ok g ∧
      g.body = [.assign "a".toList rounded]) ∧
      Value.ofInt 18446744073709551614 ≠ rounded ∧ Value.ofInt 18446744073709551615 ≠ rounded := by
  intro rounded
  have read : ∀ D : Dialect, ∀ n ∈ ([18446744073709551614, 18446744073709551615] : List Int),
      (D.parse [] (D.identity (Decimal.ofInt n))).toOption =
        some ⟨false, false, none, [.assign "a".toList rounded]⟩ := by
    intro D
    cases D <;> decide +kernel
  refine ⟨fun D => ⟨_, toOption_eq_some_iff.mp (read D _ (by decide)),
    toOption_eq_some_iff.mp (read D _ (by decide)), rfl⟩, ?_, ?_⟩ <;> decide +kernel

end DotGraph
