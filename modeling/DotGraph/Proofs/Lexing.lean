import DotGraph.Dot.Render
import DotGraph.Proofs.NodeIds
import DotGraph.Proofs.Wording

/-!
# The tokens of rendered text

The tokens that a statement is written as, in the order of its text, and the proof that they are
what its text is read as. Some pieces of text end where a token ends whatever comes after them;
others end with a word and are read as their tokens unless the word goes on.

- `Dot.tokens?_render`: the text of a graph is read as the tokens of the graph.
-/

set_option autoImplicit false

namespace DotGraph.Dot

/-! ## Tokens -/

/-- The token of a value. -/
def valueToken (q : Quoting) : Value → Token
  | .plain t => .quoted (q.content t)
  | .html m => .html m

/-- The tokens of the entries of an attribute list. -/
def entryTokens (q : Quoting) : List (Text × Value) → List Token
  | [] => []
  | (k, v) :: r => .word k :: .equals :: valueToken q v :: .semicolon :: entryTokens q r

/-- The tokens of attribute lists. -/
def listTokens (q : Quoting) : List Attrs → List Token
  | [] => []
  | a :: r => .openBracket :: (entryTokens q a.entries ++ .closeBracket :: listTokens q r)

/-- The tokens of attribute lists without the empty ones. -/
def filledTokens (q : Quoting) (l : List Attrs) : List Token :=
  listTokens q (l.filter (fun a => !a.isEmpty))

/-- The tokens of the segments of a port. -/
def segmentTokens : List Text → List Token
  | [] => []
  | s :: r => .colon :: .word s :: segmentTokens r

/-- The tokens of a port, which has nothing in front of its first colon. -/
def portTokens (p : Text) : List Token :=
  segmentTokens (List.splitOn ':' p).tail

/-- The tokens of a node id. -/
def nodeTokens (q : Quoting) (id : NodeId) : List Token :=
  .quoted (q.content id.name) :: portTokens (id.port.getD [])

/-- The tokens of an optional name. -/
def nameTokens (q : Quoting) : Option Text → List Token
  | none => []
  | some n => [.quoted (q.content n)]

/-- The tokens of default attributes. -/
def defaultTokens (q : Quoting) (c : Component) : List Attrs → List Token
  | [] => [.word c.keyword, .openBracket, .closeBracket]
  | a :: r => .word c.keyword :: listTokens q (a :: r)

mutual

/-- The tokens of a statement. -/
def statementTokens (q : Quoting) : Statement → List Token
  | .node id l => nodeTokens q id ++ filledTokens q l
  | .edge e => edgeTokens q e
  | .attr c l => defaultTokens q c l
  | .subgraph s => subgraphTokens q s
  | .assign k v => [.word k, .equals, valueToken q v]

/-- The tokens of an edge. -/
def edgeTokens (q : Quoting) : Edge → List Token
  | ⟨d, s, t, l⟩ => endpointTokens q s ++ targetTokens q d t ++ filledTokens q l

/-- The tokens of an endpoint. -/
def endpointTokens (q : Quoting) : Endpoint → List Token
  | .node id => nodeTokens q id
  | .subgraph s => subgraphTokens q s

/-- The tokens of the targets of an edge, each with the operator in front. -/
def targetTokens (q : Quoting) (directed : Bool) : List Endpoint → List Token
  | [] => []
  | e :: r => .edgeOperator directed :: (endpointTokens q e ++ targetTokens q directed r)

/-- The tokens of a subgraph. -/
def subgraphTokens (q : Quoting) : Subgraph → List Token
  | ⟨n, _, b⟩ =>
    .word "subgraph".toList :: (nameTokens q n ++ .openBrace :: (lineTokens q b ++ [.closeBrace]))

/-- The tokens of the lines of a body. -/
def lineTokens (q : Quoting) : List Statement → List Token
  | [] => []
  | s :: r => statementTokens q s ++ .semicolon :: lineTokens q r

end

/-- The tokens of a graph. -/
def graphTokens (q : Quoting) (g : Graph) : List Token :=
  (if g.strict then [.word "strict".toList] else []) ++
    .word (if g.directed then "digraph".toList else "graph".toList) ::
      (nameTokens q g.name ++ .openBrace :: (lineTokens q g.body ++ [.closeBrace]))

/-- No statement starts with a closing brace. -/
theorem statementTokens_head (q : Quoting) (s : Statement) :
    ∃ t u, t ≠ .closeBrace ∧ statementTokens q s = t :: u := by
  cases s with
  | node id a =>
    rw [statementTokens]
    exact ⟨_, _, by simp, rfl⟩
  | edge e =>
    obtain ⟨_, s, _, _⟩ := e
    cases s with
    | node id =>
      rw [statementTokens, edgeTokens, endpointTokens]
      exact ⟨_, _, by simp, rfl⟩
    | subgraph s =>
      cases s
      rw [statementTokens, edgeTokens, endpointTokens, subgraphTokens]
      exact ⟨_, _, by simp, rfl⟩
  | attr c a =>
    rw [statementTokens]
    cases a <;> exact ⟨_, _, by simp, rfl⟩
  | subgraph s =>
    cases s
    rw [statementTokens, subgraphTokens]
    exact ⟨_, _, by simp, rfl⟩
  | assign k v =>
    rw [statementTokens]
    exact ⟨_, _, by simp, rfl⟩

/-- Attribute lists start with a bracket, or with what follows if there are none. -/
theorem listTokens_ne_cons {t : Token} {r : List Token} (ht : t ≠ .openBracket)
    (hr : ∀ x, r ≠ t :: x) (q : Quoting) (l : List Attrs) (x : List Token) :
    listTokens q l ++ r ≠ t :: x := by
  cases l with
  | nil => exact hr x
  | cons a m =>
    intro e
    cases e
    exact ht rfl

/-- Targets start with an operator, or with what follows if there are none. -/
theorem targetTokens_ne_cons {t : Token} {r : List Token} (ht : ∀ d, t ≠ .edgeOperator d)
    (hr : ∀ x, r ≠ t :: x) (q : Quoting) (d : Bool) (l : List Endpoint) (x : List Token) :
    targetTokens q d l ++ r ≠ t :: x := by
  cases l with
  | nil =>
    rw [targetTokens]
    exact hr x
  | cons e m =>
    rw [targetTokens]
    intro e
    cases e
    exact ht d rfl

/-! ## Pieces of text -/

/-- The text that follows does not go on with a word. -/
def NoWordHead (r : Text) : Prop :=
  ∀ c t, r = c :: t → isWordChar c = false

/-- A piece of text that is read as some tokens whatever follows. -/
def Ends (s : Text) (ts : List Token) : Prop :=
  ∀ r, tokens? (s ++ r) = (tokens? r).map (ts ++ ·)

/-- A piece of text that is read as some tokens unless a word goes on after it. -/
def Lexes (s : Text) (ts : List Token) : Prop :=
  ∀ r, NoWordHead r → tokens? (s ++ r) = (tokens? r).map (ts ++ ·)

theorem noWordHead_nil : NoWordHead [] := by
  intro c t h
  cases h

theorem noWordHead_cons {c : Char} {r : Text} (h : isWordChar c = false) : NoWordHead (c :: r) := by
  intro d t e
  cases e
  exact h

theorem NoWordHead.append {s r : Text} (hs : NoWordHead s) (hr : NoWordHead r) :
    NoWordHead (s ++ r) := by
  cases s with
  | nil => exact hr
  | cons c s => exact noWordHead_cons (hs c s rfl)

theorem ends_nil : Ends [] [] := by
  intro r
  simp

variable {s t : Text} {ts us : List Token}

theorem map_append_map (x : Option (List Token)) :
    (x.map (us ++ ·)).map (ts ++ ·) = x.map (ts ++ us ++ ·) := by
  simp [Function.comp_def]

theorem Ends.lexes (h : Ends s ts) : Lexes s ts :=
  fun r _ => h r

theorem Ends.append (hs : Ends s ts) (ht : Ends t us) : Ends (s ++ t) (ts ++ us) := by
  intro r
  rw [List.append_assoc, hs, ht, map_append_map]

theorem Ends.append_lexes (hs : Ends s ts) (ht : Lexes t us) : Lexes (s ++ t) (ts ++ us) := by
  intro r hr
  rw [List.append_assoc, hs, ht r hr, map_append_map]

theorem Lexes.append (hs : Lexes s ts) (hn : NoWordHead t) (ht : Lexes t us) :
    Lexes (s ++ t) (ts ++ us) := by
  intro r hr
  rw [List.append_assoc, hs _ (hn.append hr), ht r hr, map_append_map]

/-- A piece that starts with something other than a word ends the word before it. -/
theorem Lexes.cons_ends {c : Char} (hs : Lexes s ts) (hc : isWordChar c = false)
    (ht : Ends (c :: t) us) : Ends (s ++ c :: t) (ts ++ us) := by
  intro r
  have hn : NoWordHead (c :: t ++ r) := noWordHead_cons hc
  rw [List.append_assoc, hs _ hn, ht, map_append_map]

theorem ends_of_next? {c : Char} {t : Token} (hb : Text.isBlank c = false)
    (h : ∀ r, next? c (s ++ r) = some (t, r)) : Ends (c :: s) [t] := by
  intro r
  rw [List.cons_append, tokens?_cons hb (h r)]
  rfl

theorem ends_blank {c : Char} (h : Text.isBlank c = true) : Ends [c] [] := by
  intro r
  rw [List.singleton_append, tokens?_cons_blank h]
  simp

theorem ends_punctuation {c : Char} {t : Token} (hb : Text.isBlank c = false)
    (h : punctuation? c = some t) : Ends [c] [t] := by
  refine ends_of_next? hb (fun r => ?_)
  simp only [next?, h]
  rfl

theorem ends_replicate (n : Nat) : Ends (List.replicate n ' ') [] := by
  induction n with
  | zero => exact ends_nil
  | succ n ih =>
    rw [List.replicate_succ]
    exact (ends_blank (by decide)).append ih

theorem ends_indent (depth : Nat) : Ends (indent depth) [] :=
  ends_replicate _

theorem ends_edgeOperator (d : Bool) : Ends (edgeOperator d) [.edgeOperator d] := by
  cases d <;> exact ends_of_next? (by decide) (fun r => rfl)

theorem ends_quoted {q : Quoting} (h : (q.content s).Quotable) :
    Ends (q.quoted s) [.quoted (q.content s)] := by
  refine ends_of_next? (by decide) (fun r => ?_)
  have he := quotedEnd?_append h r
  have hp : punctuation? '"' = none := by decide
  simp only [next?, hp, List.append_eq, List.append_assoc, List.singleton_append, he]
  rfl

theorem ends_html (h : s.Balanced) : Ends ('<' :: s ++ ['>']) [.html s] := by
  refine ends_of_next? (by decide) (fun r => ?_)
  have he := markupEnd?_append (balancedFrom_zero.mpr h) r
  have hp : punctuation? '<' = none := by decide
  simp only [next?, hp, List.append_eq, List.append_assoc, List.singleton_append, he]
  rfl

/-! ## Words -/

/-- The code points of what a word is made of. -/
theorem toNat_of_isWord {c : Char} (h : c.isAlphanum = true ∨ c = '_') :
    (48 ≤ c.toNat ∧ c.toNat ≤ 57) ∨ (65 ≤ c.toNat ∧ c.toNat ≤ 90) ∨ c.toNat = 95 ∨
      (97 ≤ c.toNat ∧ c.toNat ≤ 122) := by
  rcases h with h | rfl
  · have h : (decide ('A'.val ≤ c.val ∧ c.val ≤ 'Z'.val) ||
        (decide ('a'.val ≤ c.val) && decide (c.val ≤ 'z'.val)) ||
        (decide ('0'.val ≤ c.val) && decide (c.val ≤ '9'.val))) = true := h
    simp only [Bool.or_eq_true, Bool.and_eq_true, decide_eq_true_eq,
      UInt32.le_iff_toNat_le] at h
    change ((65 ≤ c.toNat ∧ c.toNat ≤ 90) ∨ (97 ≤ c.toNat ∧ c.toNat ≤ 122)) ∨
      (48 ≤ c.toNat ∧ c.toNat ≤ 57) at h
    omega
  · decide

theorem isBlank_of_isWord {c : Char} (h : c.isAlphanum = true ∨ c = '_') :
    Text.isBlank c = false := by
  have := toNat_of_isWord h
  simp only [Text.isBlank, Text.blankRanges, List.any_cons, List.any_nil, Bool.or_false,
    Bool.or_eq_false_iff, Bool.and_eq_false_iff, decide_eq_false_iff_not]
  omega

theorem isWordChar_of_isWord {c : Char} (h : c.isAlphanum = true ∨ c = '_') :
    isWordChar c = true := by
  rcases h with h | rfl
  · simp [isWordChar, h]
  · decide

theorem ne_of_isWordChar {c d : Char} (h : isWordChar c = true) (hd : isWordChar d = false) :
    c ≠ d := by
  intro e
  rw [e, hd] at h
  cases h

theorem punctuation?_of_isWordChar {c : Char} (h : isWordChar c = true) :
    punctuation? c = none := by
  unfold punctuation?
  repeat rw [if_neg (ne_of_isWordChar h (by decide))]

theorem next?_of_isWordChar {c : Char} (h : isWordChar c = true) (r : Text) :
    next? c r = some (.word (c :: r.takeWhile isWordChar), r.dropWhile isWordChar) := by
  simp only [next?, punctuation?_of_isWordChar h]
  rw [if_neg (ne_of_isWordChar h (by decide)), if_neg (ne_of_isWordChar h (by decide)),
    if_neg (ne_of_isWordChar h (by decide)), if_pos h]

theorem takeWhile_of_noWordHead {r : Text} (h : NoWordHead r) : r.takeWhile isWordChar = [] := by
  cases r with
  | nil => rfl
  | cons c r => rw [List.takeWhile_cons_of_neg (by simp [h c r rfl])]

theorem dropWhile_of_noWordHead {r : Text} (h : NoWordHead r) : r.dropWhile isWordChar = r := by
  cases r with
  | nil => rfl
  | cons c r => rw [List.dropWhile_cons_of_neg (by simp [h c r rfl])]

theorem lexes_word (h : s.IsWord) : Lexes s [.word s] := by
  obtain ⟨hne, hc⟩ := h
  cases s with
  | nil => exact absurd rfl hne
  | cons c s =>
    intro r hr
    have hs : ∀ x ∈ s, isWordChar x = true :=
      fun x hx => isWordChar_of_isWord (hc x (List.mem_cons_of_mem _ hx))
    have hn := next?_of_isWordChar (isWordChar_of_isWord (hc c (List.mem_cons_self ..))) (s ++ r)
    rw [List.takeWhile_append_of_pos hs, List.dropWhile_append_of_pos hs,
      takeWhile_of_noWordHead hr, dropWhile_of_noWordHead hr, List.append_nil] at hn
    rw [List.cons_append, tokens?_cons (isBlank_of_isWord (hc c (List.mem_cons_self ..))) hn]
    rfl

/-! ## Node ids and attribute lists -/

/-- Parts of which the keys are words and which, where they are written between quotes, do not end
these. -/
def Legible (q : Quoting) (l : List Part) : Prop :=
  ∀ p ∈ l, p.Worded ∧ (q = .asIs → p.Quotable)

@[simp]
theorem legible_cons {q : Quoting} {p : Part} {l : List Part} :
    Legible q (p :: l) ↔ (p.Worded ∧ (q = .asIs → p.Quotable)) ∧ Legible q l := by
  simp only [Legible, List.forall_mem_cons]

@[simp]
theorem legible_append {q : Quoting} {l m : List Part} :
    Legible q (l ++ m) ↔ Legible q l ∧ Legible q m := by
  simp only [Legible, List.forall_mem_append]

theorem quotable_content {q : Quoting} (h : q = .asIs → s.Quotable) : (q.content s).Quotable := by
  cases q with
  | asIs => exact h rfl
  | escaped => exact quotable_escape s

theorem ends_value {q : Quoting} : ∀ {v : Value}, v.Balanced → (q = .asIs → v.Quotable) →
    Ends (value q v) [valueToken q v]
  | .plain _, _, h => ends_quoted (quotable_content h)
  | .html _, h, _ => ends_html h

theorem lexes_segments : ∀ {l : List Text}, (∀ s ∈ l, s.IsWord) →
    Lexes (NodeId.portOf l) (segmentTokens l) ∧ NoWordHead (NodeId.portOf l)
  | [], _ => ⟨ends_nil.lexes, noWordHead_nil⟩
  | s :: r, h => by
    obtain ⟨hr, hn⟩ := lexes_segments (fun t ht => h t (List.mem_cons_of_mem _ ht))
    have hc : Ends [':'] [.colon] := ends_punctuation (by decide) (by decide)
    have hs : Lexes s [.word s] := lexes_word (h s (List.mem_cons_self ..))
    exact ⟨hc.append_lexes (hs.append hn hr), noWordHead_cons (by decide)⟩

theorem isSegment_of_isWord (h : s.IsWord) : NodeId.IsSegment s := by
  refine ⟨h.1, fun hc => ?_⟩
  have := h.2 ':' hc
  revert this
  decide

theorem portTokens_portOf {l : List Text} (h : ∀ s ∈ l, s.IsWord) :
    portTokens (NodeId.portOf l) = segmentTokens l := by
  have hs : List.splitOn ':' ([] ++ NodeId.portOf l) = [] :: l :=
    NodeId.split_portOf (by simp) (fun s hs => isSegment_of_isWord (h s hs))
  rw [portTokens, ← List.nil_append (NodeId.portOf l), hs, List.tail_cons]

theorem lexes_nodeId {q : Quoting} {id : NodeId} (h : Legible q [.node id]) :
    Lexes (nodeId q id) (nodeTokens q id) := by
  obtain ⟨hw, hq⟩ := h _ (List.mem_singleton_self _)
  have hn : Ends (q.quoted id.name) [.quoted (q.content id.name)] :=
    ends_quoted (quotable_content hq)
  have hp : Lexes (id.port.getD []) (portTokens (id.port.getD [])) := by
    cases hid : id.port with
    | none => exact ends_nil.lexes
    | some p =>
      obtain ⟨l, -, hl, rfl⟩ := hw p hid
      rw [Option.getD_some, portTokens_portOf hl]
      exact (lexes_segments hl).1
  exact hn.append_lexes hp

theorem ends_entries {q : Quoting} : ∀ {l : List (Text × Value)},
    Legible q (l.map (fun e => .entry e.1 e.2)) → Ends (entries q l) (entryTokens q l)
  | [], _ => ends_nil
  | (k, v) :: r, h => by
    rw [List.map_cons, legible_cons] at h
    obtain ⟨⟨⟨hk, hv⟩, hq⟩, hr⟩ := h
    have he : Ends ('=' :: value q v) [.equals, valueToken q v] :=
      (ends_punctuation (by decide) (by decide)).append (ends_value hv hq)
    have hs : Ends (';' :: entries q r) (.semicolon :: entryTokens q r) :=
      (ends_punctuation (by decide) (by decide)).append (ends_entries hr)
    exact ((lexes_word hk).cons_ends (by decide) he).append hs

theorem ends_attrLists {q : Quoting} : ∀ {l : List Attrs}, Legible q (Attrs.parts l) →
    Ends (attrLists q l) (listTokens q l)
  | [], _ => ends_nil
  | a :: r, h => by
    rw [Attrs.parts, List.flatMap_cons, legible_append] at h
    have ho : Ends ['['] [.openBracket] := ends_punctuation (by decide) (by decide)
    have hc : Ends [']'] [.closeBracket] := ends_punctuation (by decide) (by decide)
    have ha := ((ho.append (ends_entries h.1)).append hc).append (ends_attrLists h.2)
    simpa [attrLists, attrs, listTokens] using ha

theorem noWordHead_attrLists (q : Quoting) (l : List Attrs) : NoWordHead (attrLists q l) := by
  cases l with
  | nil => exact noWordHead_nil
  | cons a r => exact noWordHead_cons (by decide)

theorem ends_filled {q : Quoting} {l : List Attrs} (h : Legible q (Attrs.parts l)) :
    Ends (filledAttrLists q l) (filledTokens q l) := by
  refine ends_attrLists (fun p hp => h p ?_)
  simp only [Attrs.parts, List.mem_flatMap, List.mem_filter] at hp ⊢
  obtain ⟨a, ⟨ha, -⟩, hp⟩ := hp
  exact ⟨a, ha, hp⟩

theorem isWord_keyword (c : Component) : c.keyword.IsWord := by
  cases c <;> decide

theorem ends_defaults {q : Quoting} {c : Component} {l : List Attrs}
    (h : Legible q (Attrs.parts l)) : Ends (defaults q c l) (defaultTokens q c l) := by
  have hk : Lexes c.keyword [.word c.keyword] := lexes_word (isWord_keyword c)
  cases l with
  | nil =>
    have ho : Ends ['['] [.openBracket] := ends_punctuation (by decide) (by decide)
    have hc : Ends [']'] [.closeBracket] := ends_punctuation (by decide) (by decide)
    exact hk.cons_ends (by decide) (ho.append hc)
  | cons a r => exact hk.cons_ends (by decide) (ends_attrLists h)

/-! ## Statements -/

/-- The header of a subgraph or of a graph: a word, an optional name, and the opening brace. -/
theorem ends_opening {q : Quoting} {w : Text} {n : Option Text} (hw : w.IsWord)
    (h : Legible q (Part.ofName n)) :
    Ends (w ++ headerName q n ++ " \x7b\n".toList)
      (.word w :: (nameTokens q n ++ [.openBrace])) := by
  have hs : Ends [' '] [] := ends_blank (by decide)
  have hb : Ends ['\x7b'] [.openBrace] := ends_punctuation (by decide) (by decide)
  have ho : Ends " \x7b\n".toList [.openBrace] :=
    (hs.append hb).append (ends_blank (by decide))
  cases n with
  | none =>
    rw [headerName, List.append_nil]
    exact (lexes_word hw).cons_ends (by decide) ho
  | some n =>
    have hn : Ends (' ' :: q.quoted n) [.quoted (q.content n)] :=
      hs.append (ends_quoted (quotable_content (h _ (List.mem_singleton_self _)).2))
    exact ((lexes_word hw).cons_ends (by decide) hn).append ho

/-- The text of a subgraph in full. Stated by itself, because unfolding the definition would have
its strings evaluated. -/
theorem subgraph_mk (q : Quoting) (depth : Nat) (n : Option Text) (d : Bool) (b : List Statement) :
    subgraph q depth ⟨n, d, b⟩ = "subgraph".toList ++ headerName q n ++ " \x7b\n".toList ++
      lines q (depth + 1) b ++ indent depth ++ ['\x7d'] :=
  rfl

theorem noWordHead_targets (q : Quoting) (depth : Nat) (d : Bool) (t : List Endpoint) :
    NoWordHead (targets q depth d t) := by
  cases t with
  | nil => exact noWordHead_nil
  | cons e r =>
    rw [targets]
    cases d <;> exact noWordHead_cons (by decide)

mutual

theorem lexes_statement (q : Quoting) : ∀ (s : Statement) (depth : Nat), Legible q s.parts →
    Lexes (statement q depth s) (statementTokens q s)
  | .node id l, depth, h => by
    rw [Statement.parts, ← List.singleton_append, legible_append] at h
    rw [statement, statementTokens]
    exact (lexes_nodeId h.1).append (noWordHead_attrLists q _) (ends_filled h.2).lexes
  | .edge e, depth, h => by
    rw [statement, statementTokens]
    exact lexes_edge q e depth h
  | .attr c l, depth, h => by
    rw [statement, statementTokens]
    exact (ends_defaults h).lexes
  | .subgraph s, depth, h => by
    rw [statement, statementTokens]
    exact (ends_subgraph q s depth h).lexes
  | .assign k v, depth, h => by
    rw [Statement.parts] at h
    obtain ⟨⟨hk, hv⟩, hq⟩ := h _ (List.mem_singleton_self _)
    have he : Ends ('=' :: value q v) [.equals, valueToken q v] :=
      (ends_punctuation (by decide) (by decide)).append (ends_value hv hq)
    rw [statement, statementTokens]
    exact ((lexes_word hk).cons_ends (by decide) he).lexes

theorem lexes_edge (q : Quoting) : ∀ (e : Edge) (depth : Nat), Legible q e.parts →
    Lexes (edge q depth e) (edgeTokens q e)
  | ⟨d, s, t, l⟩, depth, h => by
    rw [Edge.parts, legible_cons, legible_cons, legible_append, legible_append] at h
    obtain ⟨-, -, ⟨hs, ht⟩, hl⟩ := h
    rw [edge, edgeTokens]
    have hst := (lexes_endpoint q s depth hs).append (noWordHead_targets q depth d t)
      (lexes_targets q d t depth ht)
    exact hst.append (noWordHead_attrLists q _) (ends_filled hl).lexes

theorem lexes_endpoint (q : Quoting) : ∀ (e : Endpoint) (depth : Nat), Legible q e.parts →
    Lexes (endpoint q depth e) (endpointTokens q e)
  | .node id, depth, h => by
    rw [endpoint, endpointTokens]
    exact lexes_nodeId h
  | .subgraph s, depth, h => by
    rw [endpoint, endpointTokens]
    exact (ends_subgraph q s depth h).lexes

theorem lexes_targets (q : Quoting) (d : Bool) : ∀ (t : List Endpoint) (depth : Nat),
    Legible q (Endpoint.partsAll t) → Lexes (targets q depth d t) (targetTokens q d t)
  | [], depth, _ => by
    rw [targets, targetTokens]
    exact ends_nil.lexes
  | e :: r, depth, h => by
    rw [Endpoint.partsAll, legible_append] at h
    rw [targets, targetTokens, List.append_assoc]
    have her := (lexes_endpoint q e depth h.1).append (noWordHead_targets q depth d r)
      (lexes_targets q d r depth h.2)
    exact (ends_edgeOperator d).append_lexes her

theorem ends_subgraph (q : Quoting) : ∀ (s : Subgraph) (depth : Nat), Legible q s.parts →
    Ends (subgraph q depth s) (subgraphTokens q s)
  | ⟨n, d, b⟩, depth, h => by
    rw [Subgraph.parts, legible_cons, legible_append] at h
    obtain ⟨-, hn, hb⟩ := h
    have ho := ends_opening (w := "subgraph".toList) (by decide) hn
    have hc : Ends ['\x7d'] [.closeBrace] := ends_punctuation (by decide) (by decide)
    have hs := ((ho.append (ends_lines q b (depth + 1) hb)).append (ends_indent depth)).append hc
    have ht : .word "subgraph".toList :: (nameTokens q n ++ [.openBrace]) ++ lineTokens q b ++ []
        ++ [.closeBrace] = subgraphTokens q ⟨n, d, b⟩ := by
      simp only [subgraphTokens, List.cons_append, List.append_assoc, List.nil_append]
    rw [subgraph_mk, ← ht]
    exact hs

theorem ends_lines (q : Quoting) : ∀ (b : List Statement) (depth : Nat),
    Legible q (Statement.partsAll b) → Ends (lines q depth b) (lineTokens q b)
  | [], depth, _ => by
    rw [lines, lineTokens]
    exact ends_nil
  | s :: r, depth, h => by
    rw [Statement.partsAll, legible_append] at h
    have hc : Ends [';', '\n'] [.semicolon] :=
      Ends.append (s := [';']) (ends_punctuation (by decide) (by decide)) (ends_blank (by decide))
    have hs : Lexes (indent depth ++ statement q depth s) (statementTokens q s) :=
      (ends_indent depth).append_lexes (lexes_statement q s depth h.1)
    have hr := (hs.cons_ends (by decide) hc).append (ends_lines q r depth h.2)
    simp only [List.append_assoc, List.singleton_append] at hr
    simp only [lines, lineTokens, List.append_assoc]
    exact hr

end

/-- **The text of a graph is read as the tokens of the graph.** -/
theorem tokens?_render {q : Quoting} {g : Graph} (h : Legible q g.parts) :
    tokens? (render q g) = some (graphTokens q g) := by
  rw [Graph.parts, legible_append] at h
  have hs : Ends (if g.strict then "strict ".toList else [])
      (if g.strict then [.word "strict".toList] else []) := by
    split
    · exact (lexes_word (s := "strict".toList) (by decide)).cons_ends (by decide)
        (ends_blank (by decide))
    · exact ends_nil
  have hk : Text.IsWord (if g.directed then "digraph".toList else "graph".toList) := by
    split <;> decide
  have hc : Ends ['\x7d'] [.closeBrace] := ends_punctuation (by decide) (by decide)
  have hg := ((hs.append (ends_opening hk h.1)).append (ends_lines q g.body 1 h.2)).append hc
  have hg := hg []
  rw [tokens?_nil] at hg
  simp only [List.append_assoc, List.cons_append, List.nil_append, List.append_nil,
    Option.map_some] at hg
  simp only [render, header, graphTokens, List.append_assoc]
  exact hg

end DotGraph.Dot
