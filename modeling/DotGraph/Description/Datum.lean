import DotGraph.Decimal.Binary

/-!
# Data

A datum is the value of a description once its notation is gone: a tree of numbers, texts, truth
values, lists and maps. The members of a map keep their order and may repeat a key.

Whole numbers come in two forms, as notations differ in which one they use: `unsigned` below `2^64`
and `signed` from `-2^63` to `2^63 - 1`.
-/

set_option autoImplicit false

namespace DotGraph

mutual

/-- The value of a description or of a part of it. -/
inductive Datum where
  | null
  | bool (b : Bool)
  | unsigned (n : Nat)
  | signed (n : Int)
  | float (x : Binary)
  | text (t : Text)
  | list (items : List Datum)
  | map (members : List Member)

/-- A key of a map with its value. -/
structure Member where
  key : Text
  value : Datum

end

instance : Inhabited Datum := ⟨.null⟩

/-! ## Equality -/

mutual

/-- Whether two data are equal. -/
def Datum.beq : Datum → Datum → Bool
  | .null, .null => true
  | .bool a, .bool b => a == b
  | .unsigned n, .unsigned m => n == m
  | .signed n, .signed m => n == m
  | .float x, .float y => x == y
  | .text s, .text t => s == t
  | .list l, .list m => Datum.beqAll l m
  | .map l, .map m => Member.beqAll l m
  | _, _ => false

/-- Whether the data of two lists are equal. -/
def Datum.beqAll : List Datum → List Datum → Bool
  | [], [] => true
  | d :: r, e :: s => Datum.beq d e && Datum.beqAll r s
  | _, _ => false

/-- Whether the members of two lists are equal. -/
def Member.beqAll : List Member → List Member → Bool
  | [], [] => true
  | ⟨j, d⟩ :: r, ⟨k, e⟩ :: s => j == k && (Datum.beq d e && Member.beqAll r s)
  | _, _ => false

end

mutual

theorem Datum.beq_iff : ∀ {d e : Datum}, Datum.beq d e = true ↔ d = e
  | .list l, e => by cases e <;> simp [Datum.beq, Datum.beqAll_iff]
  | .map l, e => by cases e <;> simp [Datum.beq, Member.beqAll_iff]
  | .null, e | .bool _, e | .unsigned _, e | .signed _, e | .float _, e | .text _, e => by
    cases e <;> simp [Datum.beq]

theorem Datum.beqAll_iff : ∀ {l m : List Datum}, Datum.beqAll l m = true ↔ l = m
  | [], m => by cases m <;> simp [Datum.beqAll]
  | d :: r, m => by cases m <;> simp [Datum.beqAll, Datum.beq_iff, Datum.beqAll_iff]

theorem Member.beqAll_iff : ∀ {l m : List Member}, Member.beqAll l m = true ↔ l = m
  | [], m => by cases m <;> simp [Member.beqAll]
  | ⟨_, _⟩ :: _, [] => by simp [Member.beqAll]
  | ⟨j, d⟩ :: r, ⟨k, e⟩ :: s => by
    simp [Member.beqAll, Datum.beq_iff (d := d), Member.beqAll_iff (l := r), and_assoc]

end

instance : DecidableEq Datum := fun _ _ => decidable_of_iff _ Datum.beq_iff

end DotGraph
