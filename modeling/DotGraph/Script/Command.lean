import DotGraph.Text.Octets

/-!
# Commands of scripts

A script is a list of commands. A word of a command is made of parts, each of which stands between
quotes or not: what does not is taken apart at blanks after it has been replaced by its value.
-/

set_option autoImplicit false

namespace DotGraph.Script

/-- Where a redirection leads. -/
inductive Direction where
  | read
  | write
  | append
  | copy
  deriving DecidableEq, Repr

/-- How the parts of a compound condition are joined. -/
inductive Joint where
  | andThen
  | orElse
  deriving DecidableEq, Repr

/-- What is made of the value of a parameter: the value itself, a text instead of a missing value
or, if `orEmpty`, of an empty one, its length, or what is left without the part at its start or end
that a pattern matches. -/
inductive Use where
  | value
  | orElse (orEmpty : Bool) (text : Text)
  | length
  | without (atEnd longest : Bool) (pattern : Text)
  deriving DecidableEq, Repr

/-- The name of a parameter and what is made of its value. -/
structure Parameter where
  name : Text
  use : Use
  deriving DecidableEq, Repr

mutual

/-- A part of a word. -/
inductive Part where
  | text (quoted : Bool) (text : Text)
  | parameter (quoted : Bool) (parameter : Parameter)
  | output (quoted : Bool) (commands : List Command)

/-- A redirection of the stream with a number. -/
inductive Redirection where
  | mk (stream : Nat) (direction : Direction) (target : List Part)

/-- A command. -/
inductive Command where
  | simple (line : Nat) (assignments : List (Text × List Part)) (words : List (List Part))
      (redirections : List Redirection)
  | pipeline (negated : Bool) (commands : List Command)
  | join (joint : Joint) (first second : Command)
  | group (line : Nat) (own : Bool) (body : List Command) (redirections : List Redirection)
  | branch (condition body otherwise : List Command)
  | loop (whileFails : Bool) (condition body : List Command)
  | each (name : Text) (words : List (List Part)) (body : List Command)
  | choose (subject : List Part) (cases : List (List (List Part) × List Command))

end

instance : Inhabited Command := ⟨.pipeline false []⟩

end DotGraph.Script
