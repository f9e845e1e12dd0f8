import DotGraph.Description.Layers

/-!
# Equal values

One value can be written in several ways: the members of a map may come in any order, and formats
differ in the form in which they give whole numbers below `2^63`. `Datum.Same` says which data are
one value.
-/

set_option autoImplicit false

namespace DotGraph

mutual

/-- Two data are one value. If they are of mixed formats, small whole numbers may have a different
form in each. -/
inductive Datum.Same (mixed : Prop) : Datum → Datum → Prop where
  | null : Datum.Same mixed .null .null
  | bool {b : Bool} : Datum.Same mixed (.bool b) (.bool b)
  | unsigned {n : Nat} : Datum.Same mixed (.unsigned n) (.unsigned n)
  | signed {n : Int} : Datum.Same mixed (.signed n) (.signed n)
  | withSign {n : Nat} : mixed → n < Nat.pow 2 63 → Datum.Same mixed (.unsigned n) (.signed n)
  | withoutSign {n : Nat} : mixed → n < Nat.pow 2 63 → Datum.Same mixed (.signed n) (.unsigned n)
  | float {x : Binary} : Datum.Same mixed (.float x) (.float x)
  | text {t : Text} : Datum.Same mixed (.text t) (.text t)
  | list {l m : List Datum} : Datum.SameAll mixed l m → Datum.Same mixed (.list l) (.list m)
  | map {l l' m : List Member} : l.Perm l' → Member.SameAll mixed l' m →
      Datum.Same mixed (.map l) (.map m)

/-- The data of two lists are one value each. -/
inductive Datum.SameAll (mixed : Prop) : List Datum → List Datum → Prop where
  | nil : Datum.SameAll mixed [] []
  | cons {d e : Datum} {l m : List Datum} : Datum.Same mixed d e → Datum.SameAll mixed l m →
      Datum.SameAll mixed (d :: l) (e :: m)

/-- The members of two lists have one key and value each. -/
inductive Member.SameAll (mixed : Prop) : List Member → List Member → Prop where
  | nil : Member.SameAll mixed [] []
  | cons {k : Text} {d e : Datum} {l m : List Member} : Datum.Same mixed d e →
      Member.SameAll mixed l m → Member.SameAll mixed (⟨k, d⟩ :: l) (⟨k, e⟩ :: m)

end

/-- A whole number. -/
def Datum.IsWhole (d : Datum) : Prop := (∃ n, d = .unsigned n) ∨ ∃ n, d = .signed n

namespace Schema

/-- The kind of a statement is no number. -/
structure Unnumbered (d : Datum) : Prop where
  map : ∀ l, d = .map l → ∀ e, ⟨"kind".toList, e⟩ ∈ l → ¬ e.IsWhole
  list : ∀ e l, d = .list (e :: l) → ¬ e.IsWhole

/-- No statement in a part of a graph has a number as its kind. -/
def AllUnnumbered (r : Role) (d : Datum) : Prop :=
  ∀ p s, Leads r p → d = surround p s → Unnumbered s

end Schema

end DotGraph
