import Mathlib.Data.List.Infix
import DotGraph.Dot.Escape
import DotGraph.Dot.Grammar
import DotGraph.Proofs.Parts

/-!
# Texts that can be written

What the texts in a graph have to be like so that its text can be read again: keys and the segments
of ports are plain words, markup has balanced angle brackets, and what stands between quotes does
not end the quotes by itself.

- `Dot.escape_eq_self_iff`: escaping changes exactly the texts that would end their quotes.
- `Dot.quotable_escape`: the escaped form of a text never ends its quotes.
- `Dot.quotedEnd?_append`, `Dot.markupEnd?_append`: such texts are read up to what encloses them.
-/

set_option autoImplicit false

namespace DotGraph

/-! ## Words -/

/-- A non-empty text of ASCII letters, digits and underscores. -/
def Text.IsWord (t : Text) : Prop :=
  t ≠ [] ∧ ∀ c ∈ t, c.isAlphanum = true ∨ c = '_'

instance (t : Text) : Decidable t.IsWord :=
  decidable_of_iff (t ≠ [] ∧ t.all (fun c => c.isAlphanum || c = '_') = true)
    (by simp [Text.IsWord])

/-- The reserved words of DOT. -/
def Dot.keywords : List Text :=
  ["strict".toList, "graph".toList, "digraph".toList, "subgraph".toList, "node".toList,
    "edge".toList]

/-- A reserved word of DOT in any mixture of capitals. -/
def Text.IsKeyword (t : Text) : Prop :=
  t.asciiLower ∈ Dot.keywords

instance (t : Text) : Decidable t.IsKeyword :=
  inferInstanceAs (Decidable (_ ∈ _))

/-- A port of one or more segments that are words. -/
def NodeId.IsWordPort (p : Text) : Prop :=
  ∃ segments : List Text, segments ≠ [] ∧ (∀ s ∈ segments, s.IsWord) ∧ p = portOf segments

/-- A port of one word, or of one word and a point of the compass. -/
def NodeId.IsPlace (p : Text) : Prop :=
  ∃ s : Text, s.IsWord ∧ (p = portOf [s] ∨ ∃ c : Compass, p = portOf [s, c.text])

theorem Compass.isWord_text (c : Compass) : c.text.IsWord := by
  cases c <;> decide

theorem NodeId.IsPlace.isWordPort {p : Text} (h : IsPlace p) : IsWordPort p := by
  obtain ⟨s, hs, rfl | ⟨c, rfl⟩⟩ := h
  · refine ⟨[s], by simp, ?_, rfl⟩
    intro t ht
    rwa [List.mem_singleton.mp ht]
  · refine ⟨[s, c.text], by simp, ?_, rfl⟩
    intro t ht
    rcases List.mem_cons.mp ht with rfl | ht
    · exact hs
    · rw [List.mem_singleton.mp ht]
      exact c.isWord_text

/-! ## Quotes -/

/-- A text of which each quote has a backslash that takes it, and each backslash a character that it
takes. -/
inductive Text.Quotable : Text → Prop where
  | nil : Quotable []
  | cons {c : Char} {r : Text} : c ≠ '"' → c ≠ '\\' → Quotable r → Quotable (c :: r)
  | taken {c : Char} {r : Text} : Quotable r → Quotable ('\\' :: c :: r)

namespace Dot

open Text (Quotable)

/-- Escaping leaves what follows a backslash that takes the next character as it is. -/
theorem quotable_escapeFrom : ∀ s : Text,
    Quotable (escapeFrom false s) ∧ Quotable ('\\' :: escapeFrom true s)
  | [] => ⟨.nil, .taken .nil⟩
  | c :: r => by
    obtain ⟨ih, ih'⟩ := quotable_escapeFrom r
    constructor
    · by_cases hq : c = '"'
      · subst hq
        exact .taken ih
      · by_cases hb : c = '\\'
        · subst hb
          exact ih'
        · rw [escapeFrom, if_neg (by simp [hq]), show (c = '\\' && !false) = false by simp [hb]]
          exact .cons hq hb ih
    · rw [escapeFrom, if_neg (by simp), show (c = '\\' && !true) = false by simp]
      exact .taken ih

/-- **The escaped form of a text never ends its quotes.** -/
theorem quotable_escape (s : Text) : Quotable (escape s) :=
  (quotable_escapeFrom s).1

theorem escape_of_quotable {s : Text} (h : Quotable s) : escape s = s := by
  induction h with
  | nil => rfl
  | @cons c r hq hb _ ih =>
    rw [escape, escapeFrom, if_neg (by simp [hq]), show (c = '\\' && !false) = false by simp [hb]]
    exact congrArg (c :: ·) ih
  | @taken c r _ ih =>
    have hc : escape ('\\' :: c :: r) = '\\' :: c :: escape r := by
      simp [escape, escapeFrom]
    rw [hc, ih]

/-- **Escaping changes exactly the texts that would end their quotes.** -/
theorem escape_eq_self_iff {s : Text} : escape s = s ↔ Quotable s :=
  ⟨fun h => h ▸ quotable_escape s, escape_of_quotable⟩

instance (s : Text) : Decidable (Quotable s) :=
  decidable_of_iff _ escape_eq_self_iff

/-- A quoted text is read up to the quote that ends it. -/
theorem quotedEnd?_append {s : Text} (h : Quotable s) (r : Text) :
    quotedEnd? false (s ++ '"' :: r) = some (s, r) := by
  induction h with
  | nil => rfl
  | @cons c s hq hb _ ih =>
    rw [List.cons_append, quotedEnd?, if_neg (by simp [hq]),
      show (c = '\\' && !false) = false by simp [hb], ih]
    rfl
  | @taken c s _ ih =>
    rw [List.cons_append, quotedEnd?, if_neg (by simp), List.cons_append,
      show ('\\' = '\\' && !false) = true by rfl, quotedEnd?, if_neg (by simp),
      show (c = '\\' && !true) = false by simp, ih]
    rfl

end Dot

/-! ## Angle brackets -/

/-- Markup in which `depth` angle brackets are open at the start and none at the end, and of which
no prefix closes more of them than are open. -/
def Text.BalancedFrom (depth : Nat) (m : Text) : Prop :=
  m.count '>' = depth + m.count '<' ∧ ∀ p, p <+: m → p.count '>' ≤ depth + p.count '<'

/-- Markup whose angle brackets are balanced, and of which no prefix closes more than it opens. -/
def Text.Balanced (m : Text) : Prop :=
  m.count '>' = m.count '<' ∧ ∀ p, p <+: m → p.count '>' ≤ p.count '<'

namespace Dot

open Text (BalancedFrom)

instance (m : Text) : Decidable m.Balanced :=
  decidable_of_iff (m.count '>' = m.count '<' ∧
      m.inits.all (fun p => p.count '>' ≤ p.count '<') = true)
    (by simp [Text.Balanced, List.mem_inits])

theorem balancedFrom_zero {m : Text} : BalancedFrom 0 m ↔ m.Balanced := by
  simp only [BalancedFrom, Text.Balanced, Nat.zero_add]

/-- A closing bracket needs an open one. -/
theorem not_balancedFrom_zero_cons (m : Text) : ¬ BalancedFrom 0 ('>' :: m) := by
  intro h
  have := h.2 ['>'] (by simp)
  simp at this

/-- After its first character markup is balanced from the depth to which that one leads. -/
theorem balancedFrom_tail {depth : Nat} {c : Char} {m : Text} (h : BalancedFrom depth (c :: m)) :
    BalancedFrom (markupDepth depth c) m := by
  obtain ⟨hm, hp⟩ := h
  have hp : ∀ p, p <+: m → (c :: p).count '>' ≤ depth + (c :: p).count '<' :=
    fun p k => hp (c :: p) ((List.prefix_cons_inj c).mpr k)
  have hc := hp [] List.nil_prefix
  simp only [List.count_cons, List.count_nil] at hm hp hc
  by_cases ho : c = '<'
  · subst ho
    simp only [markupDepth, if_true]
    refine ⟨by simp at hm; omega, fun p k => ?_⟩
    have := hp p k
    simp at this
    omega
  · by_cases hx : c = '>'
    · subst hx
      simp only [markupDepth]
      simp at hc hm
      refine ⟨by simp; omega, fun p k => ?_⟩
      have := hp p k
      simp at this ⊢
      omega
    · simp only [markupDepth, if_neg ho, if_neg hx]
      refine ⟨by simpa [ho, hx] using hm, fun p k => ?_⟩
      simpa [ho, hx] using hp p k

/-- Markup is read up to the bracket that ends it. -/
theorem markupEnd?_append : ∀ {m : Text} {depth : Nat}, BalancedFrom depth m → ∀ r : Text,
    markupEnd? depth (m ++ '>' :: r) = some (m, r)
  | [], depth, h, r => by
    obtain ⟨h, -⟩ := h
    simp only [List.count_nil] at h
    rw [List.nil_append, markupEnd?, if_pos (by simp; omega)]
  | c :: m, depth, h, r => by
    have hc : ¬ (c = '>' && depth = 0) = true := by
      intro hc
      simp only [Bool.and_eq_true, decide_eq_true_eq] at hc
      obtain ⟨rfl, rfl⟩ := hc
      exact not_balancedFrom_zero_cons m h
    rw [List.cons_append, markupEnd?, if_neg hc, markupEnd?_append (balancedFrom_tail h) r]
    rfl

end Dot

/-! ## Parts -/

/-- A value whose angle brackets, if it is markup, are balanced. -/
def Value.Balanced : Value → Prop
  | .plain _ => True
  | .html m => m.Balanced

/-- A value that, if it is plain, does not end its quotes. -/
def Value.Quotable : Value → Prop
  | .plain t => t.Quotable
  | .html _ => True

/-- A part whose keys and port segments are words and whose markup is balanced. -/
def Part.Worded : Part → Prop
  | .node id => ∀ p, id.port = some p → NodeId.IsWordPort p
  | .entry k v | .assign k v => k.IsWord ∧ v.Balanced
  | .name _ | .flag _ | .targets _ => True

/-- A part that fits the grammar: its keys are words and its markup is balanced, a port is a word
with at most a point of the compass after it, and no key of an assignment is reserved. -/
def Part.Grammatical : Part → Prop
  | .node id => ∀ p, id.port = some p → NodeId.IsPlace p
  | .entry k v => k.IsWord ∧ v.Balanced
  | .assign k v => k.IsWord ∧ ¬ k.IsKeyword ∧ v.Balanced
  | .name _ | .flag _ | .targets _ => True

/-- A part whose names and plain values do not end their quotes. -/
def Part.Quotable : Part → Prop
  | .name n => n.Quotable
  | .node id => id.name.Quotable
  | .entry _ v | .assign _ v => v.Quotable
  | .flag _ | .targets _ => True

theorem Part.Grammatical.worded : ∀ {p : Part}, p.Grammatical → p.Worded
  | .name _, _ | .flag _, _ | .targets _, _ => trivial
  | .node _, h => fun p hp => (h p hp).isWordPort
  | .entry _ _, h => h
  | .assign _ _, h => ⟨h.1, h.2.2⟩

end DotGraph
