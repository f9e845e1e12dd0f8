import DotGraph.Error
import DotGraph.Path

/-!
# Plans of batches

A plan gives every input the file its rendering goes to: the input's name with another extension, in
one directory for all. Inputs that would share a file are refused.

The name is put together as a text. A name of octets that encodes no text comes into it as it is
shown, with replacement characters.
-/

set_option autoImplicit false

namespace DotGraph.Batch

open Alphabet

variable {α : Type} [DecidableEq α] [Alphabet α]

/-- The name of what an input leads to, without its extension, as it is shown. -/
def shownStem? (input : List α) : Option Text :=
  (Path.stem? input).map toText

/-- The path an input is rendered to. An input without a name counts as `graph`. -/
def outputPath (directory input : List α) (extension : Text) : List α :=
  Path.join directory (ofText ((shownStem? input).getD "graph".toList ++ '.' :: extension))

/-- The input of a plan that is rendered to a path. -/
def claimedBy? (output : List α) (plan : List (List α × List α)) : Option (List α) :=
  (plan.find? (fun t => Path.same t.2 output)).map Prod.fst

/-- Goes on with a plan, of which the tasks so far are listed with the last one first. -/
def planFrom (directory : List α) (extension : Text) (planned : List (List α × List α)) :
    List (List α) → Except Error (List (List α × List α))
  | [] => .ok planned.reverse
  | input :: r =>
    let output := outputPath directory input extension
    match claimedBy? output planned with
    | some earlier =>
      .error (.configuration (.sharedOutput (toText earlier) (toText input) (toText output)))
    | none => planFrom directory extension ((input, output) :: planned) r

/-- Pairs every input with its output. -/
def plan (directory : List α) (extension : Text) (inputs : List (List α)) :
    Except Error (List (List α × List α)) :=
  planFrom directory extension [] inputs

end DotGraph.Batch
