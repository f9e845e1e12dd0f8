import DotGraph.Description.Source

/-!
# TOML tables

A table under construction. A table can be opened by a header, by a longer header that only passes
through it, or by a dotted key; which of these may follow which is what makes a document valid.
Tables written in braces are finished at once and never extended.

The entries of a table are kept in the order of their keys.
-/

set_option autoImplicit false

namespace DotGraph.Toml

/-- A part of a key with its place. -/
structure Key where
  name : Text
  place : Span
  deriving DecidableEq, Repr

mutual

/-- What a key of a table leads to: a finished value, a table, or the tables of an array of tables,
the latest first. -/
inductive Node where
  | leaf (value : Source)
  | table (place : Span) (body : Body)
  | tables (place : Span) (latest : Span × Body) (earlier : List (Span × Body))

/-- The contents of a table. `implied` says that no header has opened it, `dotted` that a dotted key
has. -/
inductive Body where
  | mk (implied dotted : Bool) (entries : List (Text × Node))

end

namespace Body

/-- Whether no header has opened the table. -/
def implied : Body → Bool
  | ⟨i, _, _⟩ => i

/-- Whether a dotted key has opened the table. -/
def dotted : Body → Bool
  | ⟨_, d, _⟩ => d

/-- The entries of the table. -/
def entries : Body → List (Text × Node)
  | ⟨_, _, e⟩ => e

/-- The table that a header opens. -/
def empty : Body := ⟨false, false, []⟩

/-- The table with other entries. -/
def withEntries (b : Body) (e : List (Text × Node)) : Body := ⟨b.implied, b.dotted, e⟩

end Body

/-- The entries with one put in its place by the order of keys. -/
def put (k : Text) (n : Node) : List (Text × Node) → List (Text × Node)
  | [] => [(k, n)]
  | (j, m) :: r => match Text.cmp k j with
    | .lt => (k, n) :: (j, m) :: r
    | .eq => (k, n) :: r
    | .gt => (j, m) :: put k n r

/-- The entries without those of a key. -/
def remove (k : Text) (l : List (Text × Node)) : List (Text × Node) :=
  l.filter (fun e => e.1 ≠ k)

/-- Changes the table that a path leads to. Tables on the way that do not exist yet are opened at
their key; an array of tables leads to its latest one. A dotted key may not pass through a table
that a header has opened. -/
def Body.within (byDots : Bool) (change : Body → Option Body) : List Key → Body → Option Body
  | [], b => change b
  | k :: path, b => match b.entries.lookup k.name with
    | none => match Body.within byDots change path ⟨true, byDots, []⟩ with
      | some c => some (b.withEntries (put k.name (.table k.place c) b.entries))
      | none => none
    | some (.table place c) =>
      if byDots && !c.implied then none
      else match Body.within byDots change path c with
        | some c' => some (b.withEntries (put k.name (.table place c') b.entries))
        | none => none
    | some (.tables place latest earlier) =>
      match Body.within byDots change path latest.2 with
      | some c => some (b.withEntries (put k.name (.tables place (latest.1, c) earlier) b.entries))
      | none => none
    | some (.leaf _) => none

/-- Enters a value at a key of a table. -/
def Body.enter (byDots : Bool) (k : Key) (v : Source) (b : Body) : Option Body :=
  if b.dotted != byDots then none
  else match b.entries.lookup k.name with
    | some _ => none
    | none => some (b.withEntries (put k.name (.leaf v) b.entries))

/-- Enters a value at a dotted key: a path and a last part. -/
def Body.assign (b : Body) (path : List Key) (k : Key) (v : Source) : Option Body :=
  let byDots := !path.isEmpty
  b.within byDots (Body.enter byDots k v) path

/-! ## Headers -/

/-- The header of a table: its path, its last key, its place, and whether it opens one more table of
an array. -/
structure Header where
  path : List Key
  last : Key
  place : Span
  isArray : Bool

/-- Hangs a finished table where its header says. -/
def Header.hang (h : Header) (table : Body) (b : Body) : Option Body :=
  if h.isArray then
    match b.entries.lookup h.last.name with
    | none => some (b.withEntries
        (put h.last.name (.tables h.place (h.place, table) []) b.entries))
    | some (.tables place latest earlier) => some (b.withEntries
        (put h.last.name (.tables place (h.place, table) (latest :: earlier)) b.entries))
    | some _ => none
  else some (b.withEntries (put h.last.name (.table h.place table) b.entries))

/-- The table that a header opens. A table that was only passed through keeps what it has. -/
def Header.opens (h : Header) (b : Body) : Option Body :=
  if h.isArray then some .empty
  else match b.entries.lookup h.last.name with
    | none => some .empty
    | some (.table _ c) =>
      if c.implied && !c.dotted then some ⟨false, false, c.entries⟩ else none
    | some _ => none

/-- A document under construction: all finished tables, and the open one with its header. -/
structure Document where
  root : Body
  header : Option Header
  current : Body

namespace Document

/-- The document before its first line. -/
def start : Document := ⟨.empty, none, .empty⟩

/-- Finishes the open table. -/
def close (d : Document) : Option Body :=
  match d.header with
  | none => some d.current
  | some h => d.root.within false (h.hang d.current) h.path

/-- The table at the end of a path. -/
def at? : List Key → Body → Option Body
  | [], b => some b
  | k :: path, b => match b.entries.lookup k.name with
    | none => some ⟨true, false, []⟩
    | some (.table _ c) => at? path c
    | some (.tables _ latest _) => at? path latest.2
    | some (.leaf _) => none

/-- The document after a header. -/
def openTable (d : Document) (h : Header) : Option Document :=
  match d.close with
  | none => none
  | some root => match at? h.path root with
    | none => none
    | some parent => match h.opens parent with
      | none => none
      | some current =>
        let taken (b : Body) : Option Body :=
          some (b.withEntries (remove h.last.name b.entries))
        let root? := if h.isArray then some root else root.within false taken h.path
        match root? with
        | none => none
        | some root => some ⟨root, some h, current⟩

/-- The document after a line that assigns a value. -/
def assign (d : Document) (path : List Key) (k : Key) (v : Source) : Option Document :=
  match d.current.assign path k v with
  | some c => some { d with current := c }
  | none => none

end Document

/-! ## Sources -/

mutual

/-- The source of what a key leads to. -/
def Node.source : Node → Source
  | .leaf v => v
  | .table place b => .map place b.sourceEntries true
  | .tables place latest earlier =>
    .list place (tableSources [.map latest.1 latest.2.sourceEntries true] earlier) true

/-- The sources of tables given latest first, in front of others. -/
def tableSources (after : List Source) : List (Span × Body) → List Source
  | [] => after
  | t :: r => tableSources (.map t.1 t.2.sourceEntries true :: after) r

/-- The entries of the source of a table. -/
def Body.sourceEntries : Body → List Entry
  | ⟨_, _, e⟩ => entrySources e

/-- The sources of entries. -/
def entrySources : List (Text × Node) → List Entry
  | [] => []
  | (k, n) :: r => ⟨some k, n.source⟩ :: entrySources r

end

end DotGraph.Toml
