import DotGraph.Decimal.Integer
import DotGraph.Text

/-!
# Messages for those who watch

While it works the program notes what it does. A note has a level and a topic; which notes are shown
is decided by rules, of which the one with the longest topic that starts the topic of the note
counts.
-/

set_option autoImplicit false

namespace DotGraph.Log

/-- How important a note is; `off` is for rules that show none. -/
inductive Level where
  | off | error | warn | info | debug | trace
  deriving DecidableEq, Repr

namespace Level

/-- The levels in order. -/
def all : List Level := [.off, .error, .warn, .info, .debug, .trace]

/-- The place of a level in the order. -/
def rank : Level → Nat
  | off => 0
  | error => 1
  | warn => 2
  | info => 3
  | debug => 4
  | trace => 5

/-- The name of a level. -/
def name : Level → Text
  | off => "off".toList
  | error => "error".toList
  | warn => "warn".toList
  | info => "info".toList
  | debug => "debug".toList
  | trace => "trace".toList

/-- The level with a name, in any mixture of ASCII capitals and small letters, or with a number. -/
def ofText? (t : Text) : Option Level :=
  if !t.isEmpty && t.all Decimal.isDigit then all[Decimal.valueOf t]?
  else all.find? (fun l => l.name = t.asciiLower)

end Level

/-- A note. -/
structure Note where
  level : Level
  topic : Text
  text : Text
  deriving DecidableEq, Repr

/-- A rule: up to which level notes on a topic are shown. -/
structure Rule where
  topic : Text
  level : Level
  deriving DecidableEq, Repr

/-- Whether a piece of a list of rules can start one. -/
def startsRule (c : Char) : Bool :=
  c.isAlphanum || 127 < c.toNat || c = '-' || c = ':' || c = '_' || c = '['

/-- The rule that a text writes: a level, a topic, or a topic and a level. A rule for a span of
work, in brackets, is no rule for notes outside of it. -/
def Rule.ofText? (t : Text) : Option (Option Rule) :=
  if !(t.head?.any startsRule) then none
  else if t.any (fun c => c = '[') then some none
  else match t.dropWhile (fun c => c ≠ '=') with
    | [] => match Level.ofText? t with
      | some l => some (some ⟨[], l⟩)
      | none => some (some ⟨t, .trace⟩)
    | _ :: r =>
      let topic := t.takeWhile (fun c => c ≠ '=')
      if r.isEmpty then some (some ⟨topic, .trace⟩)
      else (Level.ofText? r).map (fun l => some ⟨topic, l⟩)

/-- The rules that a text writes, separated by commas. Without any, only errors are shown. -/
def rulesOf? (t : Text) : Option (List Rule) :=
  match (List.splitOn ',' t).filter (fun p => !p.isEmpty) with
  | [] => some [⟨[], .error⟩]
  | l => (l.mapM (fun p => Rule.ofText? (Text.trim p))).map (List.filterMap id)

/-- The rules for a number of requests for notes. Without a request they are those of the
environment, and if there are none that can be read, warnings are shown. -/
def rules (environment : List (Text × Text)) : Nat → List Rule
  | 0 =>
    let written := (environment.find? (fun v => v.1 = "RUST_LOG".toList)).map Prod.snd
    (written.bind rulesOf?).getD [⟨[], .warn⟩]
  | 1 => [⟨[], .info⟩]
  | 2 => [⟨[], .debug⟩]
  | _ => [⟨[], .trace⟩]

/-- The rule that counts for a topic; of two with the same topic it is the later one. -/
def ruleFor? (topic : Text) (l : List Rule) : Option Rule :=
  l.foldl (fun best r =>
    if Text.startsWith topic r.topic ∧ ∀ b ∈ best, b.topic.length ≤ r.topic.length then some r
    else best) none

/-- Whether a note is shown. -/
def shows (l : List Rule) (n : Note) : Bool :=
  match ruleFor? n.topic l with
  | some r => n.level.rank ≤ r.level.rank
  | none => false

end DotGraph.Log
