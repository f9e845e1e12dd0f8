import DotGraph.Json.Print
import DotGraph.Proofs.JsonReading

/-!
# Reading back JSON text

The compact text of a datum without numbers is JSON for that datum, so that it is read as its
source. It has as many brackets and braces open at a time as the datum has lists and maps inside
each other.

- `Json.writes_print`: the text of a datum writes it.
- `Json.source_print`: the text of a datum is read as its source.
- `Json.nesting_print`: the text of a datum nests as deeply as the datum.
-/

set_option autoImplicit false

namespace DotGraph

/-! ## Data without numbers -/

mutual

/-- A datum without numbers. -/
def Datum.Plain : Datum → Prop
  | .null | .bool _ | .text _ => True
  | .unsigned _ | .signed _ | .float _ => False
  | .list items => Datum.PlainAll items
  | .map members => Member.PlainAll members

/-- Data without numbers. -/
def Datum.PlainAll : List Datum → Prop
  | [] => True
  | d :: r => d.Plain ∧ Datum.PlainAll r

/-- Members without numbers. -/
def Member.PlainAll : List Member → Prop
  | [] => True
  | ⟨_, d⟩ :: r => d.Plain ∧ Member.PlainAll r

end

mutual

/-- How many lists and maps of a datum are open at a time. -/
def Datum.depth : Datum → Nat
  | .list items => Datum.depthAll items + 1
  | .map members => Member.depthAll members + 1
  | .null | .bool _ | .unsigned _ | .signed _ | .float _ | .text _ => 0

/-- How many lists and maps inside data are open at a time. -/
def Datum.depthAll : List Datum → Nat
  | [] => 0
  | d :: r => max d.depth (Datum.depthAll r)

/-- How many lists and maps inside members are open at a time. -/
def Member.depthAll : List Member → Nat
  | [] => 0
  | ⟨_, d⟩ :: r => max d.depth (Member.depthAll r)

end

namespace Json

/-! ## Strings -/

/-- Whether a character is written by its number. -/
def isCoded (c : Char) : Bool :=
  c.toNat < 32 && c.toNat ≠ 8 && c.toNat ≠ 9 && c.toNat ≠ 10 && c.toNat ≠ 12 && c.toNat ≠ 13

theorem hex4?_hexChar {n : Nat} (h : n < 32) :
    hex4? '0' '0' (Decimal.hexChar (n / 16)) (Decimal.hexChar (n % 16)) = some n := by
  revert n
  decide

/-- What is written for a character: a short escape, its number, or the character itself. -/
theorem escapeChar_cases (c : Char) :
    (∃ e, escapeChar c = ['\\', e] ∧ shortEscape? e = some c ∧ isCoded c = false) ∨
      (escapeChar c = ['\\', 'u', '0', '0', Decimal.hexChar (c.toNat / 16),
        Decimal.hexChar (c.toNat % 16)] ∧ isCoded c = true) ∨
      escapeChar c = [c] ∧ c ≠ '"' ∧ c ≠ '\\' ∧ ¬ c.toNat < 32 := by
  have named : ∀ {n : Nat} {e : Char}, c.toNat = n → e.toNat = n → c = e :=
    fun hc he => Text.char_eq_of_toNat (hc.trans he.symm)
  unfold escapeChar
  split
  · rename_i h
    subst h
    exact .inl ⟨_, rfl, by decide, by decide⟩
  split
  · rename_i h
    subst h
    exact .inl ⟨_, rfl, by decide, by decide⟩
  split
  · rename_i h
    obtain rfl := named h (e := Char.ofNat 8) (by decide)
    exact .inl ⟨_, rfl, by decide, by decide⟩
  split
  · rename_i h
    obtain rfl := named h (e := '\t') (by decide)
    exact .inl ⟨_, rfl, by decide, by decide⟩
  split
  · rename_i h
    obtain rfl := named h (e := '\n') (by decide)
    exact .inl ⟨_, rfl, by decide, by decide⟩
  split
  · rename_i h
    obtain rfl := named h (e := Char.ofNat 12) (by decide)
    exact .inl ⟨_, rfl, by decide, by decide⟩
  split
  · rename_i h
    obtain rfl := named h (e := '\r') (by decide)
    exact .inl ⟨_, rfl, by decide, by decide⟩
  split
  · rename_i h8 h9 h10 h12 h13 h
    exact .inr (.inl ⟨rfl, by simp [isCoded, h8, h9, h10, h12, h13, h]⟩)
  · rename_i hq hb _ _ _ _ _ h
    exact .inr (.inr ⟨rfl, hq, hb, h⟩)

theorem lt_of_isCoded {c : Char} (h : isCoded c = true) : c.toNat < 32 := by
  simp only [isCoded, Bool.and_eq_true, decide_eq_true_eq] at h
  omega

/-- What is written for a character stands for it. -/
theorem chars_escapeChar (c : Char) {s t : Text} (h : Chars s t) :
    Chars (escapeChar c ++ s) (c :: t) := by
  rcases escapeChar_cases c with ⟨e, he, hs, -⟩ | ⟨he, hc⟩ | ⟨he, hq, hb, hn⟩
  · rw [he]
    exact .short hs h
  · have hn := lt_of_isCoded hc
    have hcode := Chars.code (hex4?_hexChar hn) (by omega) h
    rw [Char.ofNat_toNat] at hcode
    rw [he]
    exact hcode
  · rw [he]
    exact .plain hq hb hn h

theorem chars_escaped : ∀ t : Text, Chars (escaped t) t
  | [] => .nil
  | c :: t => chars_escapeChar c (chars_escaped t)

/-! ## Values -/

theorem blanks_nil : Blanks [] := by
  intro c h
  cases h

theorem Writes.denotes {s : Text} {d : Datum} (h : Writes s d) : Denotes s d := by
  have hp := Denotes.padded blanks_nil h blanks_nil
  rwa [List.nil_append, List.append_nil] at hp

theorem string_append (t r : Text) : string t ++ r = '"' :: (escaped t ++ '"' :: r) := by
  simp [string]

theorem pair_print {s : Text} {d : Datum} (k : Text) (h : Writes s d) :
    Pair (string k ++ ':' :: s) ⟨k, d⟩ := by
  rw [string_append]
  exact Pair.mk blanks_nil (chars_escaped k) blanks_nil h.denotes

mutual

/-- **The text of a datum without numbers writes it.** -/
theorem writes_print : ∀ d : Datum, d.Plain → Writes (print d) d
  | .null, _ => .null
  | .bool true, _ => .yes
  | .bool false, _ => .no
  | .text t, _ => .text (chars_escaped t)
  | .list [], _ => .emptyList blanks_nil
  | .list (d :: l), h => .list (items_print (d :: l) (by simp) h)
  | .map [], _ => .emptyMap blanks_nil
  | .map (m :: l), h => .map (members_print (m :: l) (by simp) h)

theorem items_print : ∀ l : List Datum, l ≠ [] → Datum.PlainAll l → Items (printItems l) l
  | [], hne, _ => absurd rfl hne
  | [d], _, h => by
    rw [printItems, printMore, List.append_nil]
    exact .last (writes_print d h.1).denotes
  | d :: e :: l, _, h =>
    .more (writes_print d h.1).denotes (items_print (e :: l) (by simp) h.2)

theorem members_print : ∀ l : List Member, l ≠ [] → Member.PlainAll l →
    Members (printMembers l) l
  | [], hne, _ => absurd rfl hne
  | [⟨k, d⟩], _, h => by
    rw [printMembers, printMoreMembers, List.append_nil]
    exact .last (pair_print k (writes_print d h.1))
  | ⟨k, d⟩ :: ⟨k', e⟩ :: l, _, h => by
    have hm := Members.more (pair_print k (writes_print d h.1))
      (members_print (⟨k', e⟩ :: l) (by simp) h.2)
    simpa [printMembers, printMoreMembers] using hm

end

theorem denotes_print {d : Datum} (h : d.Plain) : Denotes (print d) d :=
  (writes_print d h).denotes

/-- **The text of a datum without numbers is read as its source.** -/
theorem source_print {d : Datum} (h : d.Plain) : source (print d) = (d.source, []) := by
  have hv := value_writes (writes_print d h) (2 * (print d).length + 2) [] (by omega) numberEnds_nil
  rwa [List.append_nil] at hv

/-! ## Nesting -/

/-- The largest number of lists and maps that are open at a time while a text is read, of which
`now` are open at its start. Inside a string, `quoted` says whether the character before is a
backslash that takes the next one with it. -/
def mostOpen (quoted : Option Bool) (now : Nat) : Text → Nat
  | [] => now
  | c :: r => max now (match quoted with
    | some pending =>
      if c = '"' && !pending then mostOpen none now r
      else mostOpen (some (c = '\\' && !pending)) now r
    | none =>
      if c = '"' then mostOpen (some false) now r
      else if c = '[' || c = '\x7b' then mostOpen none (now + 1) r
      else if c = ']' || c = '\x7d' then mostOpen none (now - 1) r
      else mostOpen none now r)

/-- How many lists and maps a JSON text has open at a time. -/
def nesting (s : Text) : Nat :=
  mostOpen none 0 s

theorem le_mostOpen (quoted : Option Bool) (now : Nat) (s : Text) :
    now ≤ mostOpen quoted now s := by
  cases s with
  | nil => exact Nat.le_refl now
  | cons c r => exact Nat.le_max_left now _

theorem mostOpen_open {c : Char} (hc : c = '[' ∨ c = '\x7b') (now : Nat) (r : Text) :
    mostOpen none now (c :: r) = mostOpen none (now + 1) r := by
  have := le_mostOpen none (now + 1) r
  rcases hc with rfl | rfl <;> simp [mostOpen] <;> omega

theorem mostOpen_close {c : Char} (hc : c = ']' ∨ c = '\x7d') (now : Nat) (r : Text) :
    mostOpen none (now + 1) (c :: r) = max (now + 1) (mostOpen none now r) := by
  rcases hc with rfl | rfl <;> simp [mostOpen]

theorem mostOpen_other {c : Char} (hq : c ≠ '"') (h : c ∉ "[]\x7b\x7d".toList) (now : Nat)
    (r : Text) : mostOpen none now (c :: r) = mostOpen none now r := by
  have := le_mostOpen none now r
  simp at h
  simp [mostOpen, hq, h]
  omega

theorem mostOpen_inside {c : Char} (hq : c ≠ '"') (hb : c ≠ '\\') (now : Nat) (r : Text) :
    mostOpen (some false) now (c :: r) = mostOpen (some false) now r := by
  have := le_mostOpen (some false) now r
  simp [mostOpen, hq, hb]
  omega

theorem mostOpen_taken (c : Char) (now : Nat) (r : Text) :
    mostOpen (some false) now ('\\' :: c :: r) = mostOpen (some false) now r := by
  have := le_mostOpen (some false) now r
  simp [mostOpen]
  omega

theorem hexChar_inside {n : Nat} (h : n < 16) :
    Decimal.hexChar n ≠ '"' ∧ Decimal.hexChar n ≠ '\\' := by
  revert n
  decide

theorem mostOpen_escapeChar (c : Char) (now : Nat) (r : Text) :
    mostOpen (some false) now (escapeChar c ++ r) = mostOpen (some false) now r := by
  rcases escapeChar_cases c with ⟨e, he, -⟩ | ⟨he, hc⟩ | ⟨he, hq, hb, -⟩
  · rw [he]
    exact mostOpen_taken e now r
  · have hn := lt_of_isCoded hc
    have h1 := hexChar_inside (n := c.toNat / 16) (by omega)
    have h2 := hexChar_inside (n := c.toNat % 16) (by omega)
    rw [he]
    refine (mostOpen_taken 'u' now _).trans ?_
    refine (mostOpen_inside (c := '0') (by decide) (by decide) now _).trans ?_
    refine (mostOpen_inside (c := '0') (by decide) (by decide) now _).trans ?_
    exact (mostOpen_inside h1.1 h1.2 now _).trans (mostOpen_inside h2.1 h2.2 now r)
  · rw [he]
    exact mostOpen_inside hq hb now r

theorem mostOpen_escaped (now : Nat) (r : Text) : ∀ t : Text,
    mostOpen (some false) now (escaped t ++ r) = mostOpen (some false) now r
  | [] => rfl
  | c :: t => by
    rw [escaped, List.append_assoc, mostOpen_escapeChar, mostOpen_escaped now r t]

theorem mostOpen_string (t : Text) (now : Nat) (r : Text) :
    mostOpen none now (string t ++ r) = mostOpen none now r := by
  have := le_mostOpen none now r
  have := le_mostOpen (some false) now (escaped t ++ '"' :: r)
  rw [string_append]
  simp only [mostOpen, if_true, mostOpen_escaped] at *
  simp
  omega

theorem mostOpen_word (now : Nat) (r : Text) : ∀ {w : Text},
    (∀ c ∈ w, c ≠ '"' ∧ c ∉ "[]\x7b\x7d".toList) →
    mostOpen none now (w ++ r) = mostOpen none now r
  | [], _ => rfl
  | c :: w, h => by
    obtain ⟨hq, hc⟩ := h c (List.mem_cons_self ..)
    rw [List.cons_append, mostOpen_other hq hc,
      mostOpen_word now r (fun d hd => h d (List.mem_cons_of_mem _ hd))]

/-- What stands between brackets is open once more than the brackets. -/
theorem mostOpen_bracketed {a z : Char} (ha : a = '[' ∨ a = '\x7b') (hz : z = ']' ∨ z = '\x7d')
    {s : Text} {depth : Nat} (h : ∀ now r, mostOpen none now (s ++ r) =
      max (now + depth) (mostOpen none now r)) (now : Nat) (r : Text) :
    mostOpen none now (a :: s ++ [z] ++ r) = max (now + (depth + 1)) (mostOpen none now r) := by
  rw [List.cons_append, List.cons_append, mostOpen_open ha, List.append_assoc,
    List.singleton_append, h, mostOpen_close hz]
  omega

mutual

theorem mostOpen_print : ∀ (d : Datum) (now : Nat) (r : Text), d.Plain →
    mostOpen none now (print d ++ r) = max (now + d.depth) (mostOpen none now r)
  | .null, now, r, _ => by
    have := le_mostOpen none now r
    rw [print, mostOpen_word now r (by simp), Datum.depth]
    omega
  | .bool b, now, r, _ => by
    have := le_mostOpen none now r
    rw [print, Datum.depth, mostOpen_word now r (by cases b <;> simp)]
    omega
  | .text t, now, r, _ => by
    have := le_mostOpen none now r
    rw [print, mostOpen_string, Datum.depth]
    omega
  | .list l, now, r, h => by
    rw [Datum.Plain] at h
    rw [print, Datum.depth]
    exact mostOpen_bracketed (.inl rfl) (.inl rfl) (fun n s => mostOpen_printItems l n s h) now r
  | .map l, now, r, h => by
    rw [Datum.Plain] at h
    rw [print, Datum.depth]
    exact mostOpen_bracketed (.inr rfl) (.inr rfl) (fun n s => mostOpen_printMembers l n s h) now r

theorem mostOpen_printItems : ∀ (l : List Datum) (now : Nat) (r : Text), Datum.PlainAll l →
    mostOpen none now (printItems l ++ r) = max (now + Datum.depthAll l) (mostOpen none now r)
  | [], now, r, _ => by
    have := le_mostOpen none now r
    rw [printItems, Datum.depthAll, List.nil_append]
    omega
  | d :: l, now, r, h => by
    rw [Datum.PlainAll] at h
    rw [printItems, Datum.depthAll, List.append_assoc, mostOpen_print d now _ h.1,
      mostOpen_printMore l now r h.2]
    omega

theorem mostOpen_printMore : ∀ (l : List Datum) (now : Nat) (r : Text), Datum.PlainAll l →
    mostOpen none now (printMore l ++ r) = max (now + Datum.depthAll l) (mostOpen none now r)
  | [], now, r, _ => by
    have := le_mostOpen none now r
    rw [printMore, Datum.depthAll, List.nil_append]
    omega
  | d :: l, now, r, h => by
    rw [Datum.PlainAll] at h
    rw [printMore, Datum.depthAll, List.append_assoc, List.cons_append,
      mostOpen_other (by decide) (by decide), mostOpen_print d now _ h.1,
      mostOpen_printMore l now r h.2]
    omega

theorem mostOpen_printMembers : ∀ (l : List Member) (now : Nat) (r : Text), Member.PlainAll l →
    mostOpen none now (printMembers l ++ r) = max (now + Member.depthAll l) (mostOpen none now r)
  | [], now, r, _ => by
    have := le_mostOpen none now r
    rw [printMembers, Member.depthAll, List.nil_append]
    omega
  | ⟨k, d⟩ :: l, now, r, h => by
    rw [Member.PlainAll] at h
    rw [printMembers, Member.depthAll, List.append_assoc, List.append_assoc, mostOpen_string,
      List.cons_append, mostOpen_other (by decide) (by decide), mostOpen_print d now _ h.1,
      mostOpen_printMoreMembers l now r h.2]
    omega

theorem mostOpen_printMoreMembers : ∀ (l : List Member) (now : Nat) (r : Text),
    Member.PlainAll l → mostOpen none now (printMoreMembers l ++ r) =
      max (now + Member.depthAll l) (mostOpen none now r)
  | [], now, r, _ => by
    have := le_mostOpen none now r
    rw [printMoreMembers, Member.depthAll, List.nil_append]
    omega
  | ⟨k, d⟩ :: l, now, r, h => by
    rw [Member.PlainAll] at h
    rw [printMoreMembers, Member.depthAll, List.append_assoc, List.append_assoc,
      List.cons_append, mostOpen_other (by decide) (by decide), mostOpen_string,
      List.cons_append, mostOpen_other (by decide) (by decide), mostOpen_print d now _ h.1,
      mostOpen_printMoreMembers l now r h.2]
    omega

end

/-- **The text of a datum nests as deeply as the datum.** -/
theorem nesting_print {d : Datum} (h : d.Plain) : nesting (print d) = d.depth := by
  have hd := mostOpen_print d 0 [] h
  rw [List.append_nil, mostOpen] at hd
  rw [nesting, hd]
  omega

end Json

end DotGraph
