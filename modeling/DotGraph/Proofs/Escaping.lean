import DotGraph.Proofs.Wording

/-!
# Escaped texts

The content of a quoted string is read sign by sign: a backslash takes the next character with it,
and every other character stands for itself. A text can end in a backslash that has nothing to
take. Escaping is told sign by sign, too: a quote that stands for itself and a backslash that has
nothing to take get a backslash in front, and no other sign does.

- `Dot.signs_escape`: the signs of an escaped text.
- `Dot.escape_bare`, `Dot.bare_escape`: a text and its bare form have the same escaped form, and a
  text and its escaped form have the same bare form.
- `Dot.escape_sound_minimal`: escaping puts in what has to be there and nothing else, changes
  nothing the second time, and makes those texts equal that differ in needless backslashes only.
-/

set_option autoImplicit false

namespace DotGraph.Dot

open Text (Quotable)

/-- A sign of the content of a quoted string. -/
inductive Sign where
  /-- a character that stands for itself -/
  | single (c : Char)
  /-- a backslash and the character that it takes -/
  | taken (c : Char)
  /-- a backslash at the end, with nothing to take -/
  | dangling
  deriving DecidableEq, Repr

/-- The signs of a text. -/
def signs : Text → List Sign
  | [] => []
  | c :: r =>
    if c = '\\' then match r with
      | [] => [.dangling]
      | d :: r => .taken d :: signs r
    else .single c :: signs r

namespace Sign

/-- A sign as it is written. -/
def text : Sign → Text
  | single c => [c]
  | taken c => ['\\', c]
  | dangling => ['\\']

/-- The backslash that is missing in front of a sign. -/
def guard : Sign → Text
  | single c => if c = '"' then ['\\'] else []
  | taken _ => []
  | dangling => ['\\']

/-- What a sign becomes with the backslash that is missing. -/
def guarded : Sign → Sign
  | single c => if c = '"' then taken c else single c
  | taken c => taken c
  | dangling => taken '\\'

/-- What a sign becomes if no quote keeps its backslash, and a backslash with nothing to take is
doubled. -/
def bared : Sign → Sign
  | single c => single c
  | taken c => if c = '"' then single c else taken c
  | dangling => taken '\\'

/-- A sign that ends where it is written to end, whatever follows. -/
def Whole (z : Sign) : Prop := z ≠ single '\\' ∧ z ≠ dangling

theorem guard_append_text (z : Sign) : z.guard ++ z.text = z.guarded.text := by
  cases z with
  | single c => by_cases hc : c = '"' <;> simp [guard, guarded, text, hc]
  | taken c => rfl
  | dangling => rfl

theorem guarded_bared (z : Sign) : z.bared.guarded = z.guarded := by
  cases z with
  | single c => rfl
  | taken c => by_cases hc : c = '"' <;> simp [guarded, bared, hc]
  | dangling => rfl

theorem bared_guarded (z : Sign) : z.guarded.bared = z.bared := by
  cases z with
  | single c => by_cases hc : c = '"' <;> simp [guarded, bared, hc]
  | taken c => rfl
  | dangling => rfl

theorem whole_guarded {z : Sign} (h : z ≠ single '\\') : z.guarded.Whole := by
  cases z with
  | single c =>
    rw [guarded]
    split
    · exact ⟨nofun, nofun⟩
    · exact ⟨h, nofun⟩
  | taken c => exact ⟨nofun, nofun⟩
  | dangling => exact ⟨nofun, nofun⟩

theorem whole_bared {z : Sign} (h : z ≠ single '\\') : z.bared.Whole := by
  cases z with
  | single c => exact ⟨h, nofun⟩
  | taken c =>
    rw [bared]
    split
    · rename_i hc
      exact ⟨by simp [hc], nofun⟩
    · exact ⟨nofun, nofun⟩
  | dangling => exact ⟨nofun, nofun⟩

end Sign

/-! ## Reading signs -/

@[simp]
theorem signs_backslash_cons (c : Char) (r : Text) :
    signs ('\\' :: c :: r) = .taken c :: signs r := rfl

theorem signs_cons {c : Char} (h : c ≠ '\\') (r : Text) :
    signs (c :: r) = .single c :: signs r := by
  rw [signs.eq_def]
  exact if_neg h

/-- The signs of a text make up the text. -/
theorem flatMap_text_signs (s : Text) : (signs s).flatMap Sign.text = s := by
  fun_induction signs s with
  | case1 => rfl
  | case2 => rfl
  | case3 d r ih => rw [List.flatMap_cons, ih]; rfl
  | case4 c r hc ih => rw [List.flatMap_cons, ih]; rfl

/-- A backslash never stands for itself. -/
theorem ne_backslash_of_mem_signs (s : Text) : ∀ z ∈ signs s, z ≠ .single '\\' := by
  fun_induction signs s with
  | case1 => nofun
  | case2 => simp
  | case3 d r ih => exact List.forall_mem_cons.mpr ⟨nofun, ih⟩
  | case4 c r hc ih => exact List.forall_mem_cons.mpr ⟨by simpa using hc, ih⟩

/-- Whole signs that are written are read as they were. -/
theorem signs_flatMap_text {l : List Sign} (h : ∀ z ∈ l, z.Whole) :
    signs (l.flatMap Sign.text) = l := by
  induction l with
  | nil => rfl
  | cons z l ih =>
    obtain ⟨hz, hl⟩ := List.forall_mem_cons.mp h
    rw [List.flatMap_cons]
    cases z with
    | single c =>
      have hc : c ≠ '\\' := fun e => hz.1 (by rw [e])
      rw [Sign.text, List.singleton_append, signs_cons hc, ih hl]
    | taken c =>
      rw [Sign.text, List.cons_append, List.singleton_append, signs_backslash_cons, ih hl]
    | dangling => exact absurd rfl hz.2

/-- A text does not end its quotes exactly if no sign of it lacks a backslash. -/
theorem quotable_iff_signs {s : Text} :
    Quotable s ↔ Sign.single '"' ∉ signs s ∧ Sign.dangling ∉ signs s := by
  constructor
  · intro h
    induction h with
    | nil => exact ⟨nofun, nofun⟩
    | @cons c r hq hb _ ih =>
      rw [signs_cons hb]
      simpa [Ne.symm hq] using ih
    | @taken c r _ ih => simpa using ih
  · rintro ⟨hq, hd⟩
    fun_induction signs s with
    | case1 => exact .nil
    | case2 => simp at hd
    | case3 d r ih =>
      exact .taken (ih (by simpa using hq) (by simpa using hd))
    | case4 c r hc ih =>
      have hquote : c ≠ '"' := by
        rintro rfl
        simp at hq
      exact .cons hquote hc (ih (by simp_all) (by simpa using hd))

/-- The reader of DOT reads a text up to the quote behind it exactly if the text does not end its
quotes by itself. -/
theorem quotedEnd?_eq_iff {s : Text} :
    (∀ r, quotedEnd? false (s ++ '"' :: r) = some (s, r)) ↔ Quotable s := by
  refine ⟨fun h => ?_, fun h r => quotedEnd?_append h r⟩
  -- one rest that is empty is enough, since a backslash with nothing to take would take the quote
  replace h := h []
  fun_induction signs s with
  | case1 => exact .nil
  | case2 => simp [quotedEnd?] at h
  | case3 d r ih =>
    refine .taken (ih ?_)
    have taken : quotedEnd? false ('\\' :: d :: r ++ ['"']) =
        (quotedEnd? false (r ++ ['"'])).map (fun x => ('\\' :: d :: x.1, x.2)) := by
      simp [quotedEnd?, Function.comp_def]
    rw [taken] at h
    obtain ⟨x, hx, hpair⟩ := Option.map_eq_some_iff.mp h
    simp only [Prod.mk.injEq, List.cons.injEq, true_and] at hpair
    rw [hx, ← hpair.1, ← hpair.2]
  | case4 c r hc ih =>
    by_cases hquote : c = '"'
    · simp [hquote, quotedEnd?] at h
    · refine .cons hquote hc (ih ?_)
      rw [List.cons_append, quotedEnd?, if_neg (by simp [hquote]),
        show (c = '\\' && !false) = false by simp [hc]] at h
      obtain ⟨x, hx, hpair⟩ := Option.map_eq_some_iff.mp h
      simp only [Prod.mk.injEq, List.cons.injEq, true_and] at hpair
      rw [hx, ← hpair.1, ← hpair.2]

/-! ## Escaping signs -/

/-- **Escaping puts the missing backslash in front of each sign.** -/
theorem escape_eq_flatMap (s : Text) :
    escape s = (signs s).flatMap (fun z => z.guard ++ z.text) := by
  fun_induction signs s with
  | case1 => rfl
  | case2 => rfl
  | case3 d r ih =>
    rw [List.flatMap_cons, ← ih]
    simp [escape, escapeFrom, Sign.guard, Sign.text]
  | case4 c r hc ih =>
    rw [List.flatMap_cons, ← ih]
    by_cases hq : c = '"' <;> simp [escape, escapeFrom, Sign.guard, Sign.text, hq, hc]

/-- Escaping takes nothing away. -/
theorem sublist_escape (s : Text) : s.Sublist (escape s) := by
  have signwise : ∀ l : List Sign,
      (l.flatMap Sign.text).Sublist (l.flatMap (fun z => z.guard ++ z.text)) := by
    intro l
    induction l with
    | nil => exact .slnil
    | cons z l ih => exact (List.sublist_append_right z.guard z.text).append ih
  have h := signwise (signs s)
  rwa [flatMap_text_signs, ← escape_eq_flatMap] at h

/-- The bare form of a text: without the backslashes of its quotes, and with a backslash that has
nothing to take doubled. -/
def bare (s : Text) : Text :=
  (signs s).flatMap (fun z => z.bared.text)

theorem escape_eq_guarded (s : Text) :
    escape s = ((signs s).map Sign.guarded).flatMap Sign.text := by
  simp only [escape_eq_flatMap, Sign.guard_append_text, List.flatMap_map]

/-- **The signs of an escaped text** are those of the text, each with its missing backslash. -/
theorem signs_escape (s : Text) : signs (escape s) = (signs s).map Sign.guarded := by
  rw [escape_eq_guarded]
  refine signs_flatMap_text (List.forall_mem_map.mpr (fun z hz => ?_))
  exact Sign.whole_guarded (ne_backslash_of_mem_signs s z hz)

theorem signs_bare (s : Text) : signs (bare s) = (signs s).map Sign.bared := by
  have hbare : bare s = ((signs s).map Sign.bared).flatMap Sign.text := by
    rw [bare, List.flatMap_map]
  rw [hbare]
  refine signs_flatMap_text (List.forall_mem_map.mpr (fun z hz => ?_))
  exact Sign.whole_bared (ne_backslash_of_mem_signs s z hz)

/-- A text and its bare form are escaped to the same. -/
theorem escape_bare (s : Text) : escape (bare s) = escape s := by
  rw [escape_eq_guarded, signs_bare, escape_eq_guarded, List.map_map]
  simp only [Function.comp_def, Sign.guarded_bared]

/-- A text and its escaped form have the same bare form. -/
theorem bare_escape (s : Text) : bare (escape s) = bare s := by
  rw [bare, signs_escape, bare, List.flatMap_map]
  simp only [Sign.bared_guarded]

/-- Escaping changes nothing the second time. -/
theorem escape_escape (s : Text) : escape (escape s) = escape s :=
  escape_of_quotable (quotable_escape s)

/-- **Texts are escaped to the same exactly if they have the same bare form.** -/
theorem escape_eq_escape_iff {s t : Text} : escape s = escape t ↔ bare s = bare t := by
  constructor
  · intro h
    rw [← bare_escape s, h, bare_escape]
  · intro h
    rw [← escape_bare s, h, escape_bare]

/-- **Escaping is sound, minimal and idempotent.** The reader of DOT reads an escaped text up to the
quote behind it: none of its quotes stands for itself, and it does not end in a backslash with
nothing to take. It is the text with a backslash put in front of each quote that stands for itself,
and one more at the end if there a backslash has nothing to take. It is the text itself exactly if
the text is like that already, and so it is for every text that has been escaped. Two texts are
escaped to the same exactly if they are equal once no quote keeps its backslash and a backslash
with nothing to take is doubled. -/
theorem escape_sound_minimal (s : Text) :
    (Sign.single '"' ∉ signs (escape s) ∧ Sign.dangling ∉ signs (escape s) ∧
      ∀ r, quotedEnd? false (escape s ++ '"' :: r) = some (escape s, r)) ∧
    (s = (signs s).flatMap Sign.text ∧
      escape s = (signs s).flatMap (fun z => z.guard ++ z.text)) ∧
    (escape s = s ↔ Sign.single '"' ∉ signs s ∧ Sign.dangling ∉ signs s) ∧
    escape (escape s) = escape s ∧
    ∀ t, escape s = escape t ↔ bare s = bare t := by
  obtain ⟨noQuote, noDangling⟩ := quotable_iff_signs.mp (quotable_escape s)
  refine ⟨⟨noQuote, noDangling, quotedEnd?_eq_iff.mpr (quotable_escape s)⟩,
    ⟨(flatMap_text_signs s).symm, escape_eq_flatMap s⟩, ?_, escape_escape s,
    fun t => escape_eq_escape_iff⟩
  rw [escape_eq_self_iff, quotable_iff_signs]

end DotGraph.Dot
