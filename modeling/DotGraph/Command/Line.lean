import DotGraph.Command.Basic

/-!
# The command line

The words after the program's name name a command and its arguments. Options may stand before and
after the positional argument, with their values attached or in the next word; two hyphens end them.
What is not given is taken from variables of the environment, and then from defaults.

A value is judged when the next argument begins, so that of two faults in a line the one counts that
is noticed first.
-/

set_option autoImplicit false

namespace DotGraph

/-- Why a command line is not run: it is wrong, or it asks for help or for the version. -/
inductive Usage where
  | missingArgument
  | invalidValue
  | unknownArgument
  | repeatedArgument
  | unknownCommand
  | missingCommand
  | needlessValue
  | nothingGiven
  | help
  | version
  deriving DecidableEq, Repr

/-- The status with which the program ends. -/
def Usage.exitCode : Usage → Nat
  | help => 0
  | version => 0
  | _ => 2

/-- What a command can be told. -/
inductive Argument where
  | input | pattern | output | directory | demoDirectory | engine | format | graphviz | escapeQuotes
  deriving DecidableEq, Repr

namespace Argument

/-- Whether an argument is given by its place. -/
def isPositional : Argument → Bool
  | input => true
  | pattern => true
  | _ => false

/-- The letter of an option. -/
def short? : Argument → Option Char
  | output => some 'o'
  | demoDirectory => some 'o'
  | engine => some 'e'
  | format => some 'f'
  | _ => none

/-- The long name of an option. -/
def long? : Argument → Option Text
  | input => none
  | pattern => none
  | output => some "output".toList
  | demoDirectory => some "output".toList
  | directory => some "out-dir".toList
  | engine => some "engine".toList
  | format => some "format".toList
  | graphviz => some "graphviz".toList
  | escapeQuotes => some "escape-quotes".toList

/-- The variable of the environment that stands in for an argument. -/
def variableName : Argument → Text
  | input => "DOTWEAVE_INPUT".toList
  | pattern => "DOTWEAVE_PATTERN".toList
  | output => "DOTWEAVE_OUTPUT".toList
  | demoDirectory => "DOTWEAVE_DEMO_DIR".toList
  | directory => "DOTWEAVE_OUT_DIR".toList
  | engine => "DOTWEAVE_ENGINE".toList
  | format => "DOTWEAVE_FORMAT".toList
  | graphviz => "DOTWEAVE_GRAPHVIZ".toList
  | escapeQuotes => "DOTWEAVE_ESCAPE_QUOTES".toList

/-- Whether a text is a value of an argument. Paths may not be empty. -/
def admits (t : Text) : Argument → Bool
  | pattern => true
  | engine => (Engine.ofName? t).isSome
  | format => (ImageFormat.ofName? t).isSome
  | escapeQuotes => t = "true".toList || t = "false".toList
  | _ => !t.isEmpty

end Argument

namespace CommandName

/-- The arguments of a command. -/
def arguments : CommandName → List Argument
  | build => [.input, .output, .escapeQuotes]
  | render => [.input, .output, .engine, .format, .graphviz, .escapeQuotes]
  | batch => [.pattern, .directory, .engine, .format, .graphviz, .escapeQuotes]
  | demo => [.demoDirectory]

end CommandName

/-! ## Reading words -/

/-- What has been read of a command line. `pending` is an argument whose value is still awaited or
has not been judged yet; the main program takes no arguments and has no `command`. -/
structure Reading where
  command : Option CommandName
  given : List (Argument × Text)
  pending : Option (Argument × Option Text)
  verbosity : Nat
  positionalRead : Bool
  optionsEnded : Bool
  deriving Repr

namespace Reading

/-- Nothing has been read. -/
def start (command : Option CommandName) : Reading :=
  ⟨command, [], none, 0, false, false⟩

/-- The value of an argument. -/
def value? (r : Reading) (a : Argument) : Option Text :=
  (r.given.find? (fun g => g.1 = a)).map Prod.snd

/-- Judges a value of an argument and keeps it. An argument may be given once. -/
def give (r : Reading) (a : Argument) (t : Text) : Except Usage Reading :=
  if (r.value? a).isSome then .error .repeatedArgument
  else if a.admits t then .ok { r with given := (a, t) :: r.given, pending := none }
  else .error .invalidValue

/-- Judges the value that is pending. -/
def settle (r : Reading) : Except Usage Reading :=
  match r.pending with
  | none => .ok r
  | some (_, none) => .error .invalidValue
  | some (a, some t) => r.give a t

/-- Counts one more request for messages. -/
def count (r : Reading) : Except Usage Reading :=
  match r.settle with
  | .error u => .error u
  | .ok r => .ok { r with verbosity := min 255 (r.verbosity + 1) }

/-- Ends the reading, after the pending value has been judged. -/
def stop (r : Reading) (u : Usage) : Except Usage Reading :=
  match r.settle with
  | .error v => .error v
  | .ok _ => .error u

/-- Begins an option, with the value that is attached to it. -/
def beginOption (r : Reading) (a : Argument) (attached : Option Text) : Except Usage Reading :=
  match r.settle with
  | .error u => .error u
  | .ok r =>
    if a = .escapeQuotes then r.give a "true".toList
    else match attached with
      | some t => r.give a t
      | none => .ok { r with pending := some (a, none) }

/-- The arguments that can be given. -/
def arguments (r : Reading) : List Argument :=
  match r.command with
  | some c => c.arguments
  | none => []

/-- Reads an option by its long name, with the value attached to it. -/
def readLong (r : Reading) (name : Text) (attached : Option Text) : Except Usage Reading :=
  let plain (go : Except Usage Reading) : Except Usage Reading :=
    if attached.isSome then .error .needlessValue else go
  if name = "help".toList then plain (r.stop .help)
  else if name = "verbose".toList then plain r.count
  else if name = "version".toList ∧ r.command = none then plain (r.stop .version)
  else match r.arguments.find? (fun a => a.long? = some name) with
    | none => .error .unknownArgument
    | some .escapeQuotes => plain (r.beginOption .escapeQuotes none)
    | some a => r.beginOption a attached

/-- The value that is attached to a letter by what follows it in the word. -/
def attachedTo : Text → Option Text
  | [] => none
  | '=' :: t => some t
  | t => some t

/-- Reads options by their letters. -/
def readShort (r : Reading) : Text → Except Usage Reading
  | [] => .ok r
  | c :: t =>
    if c = 'v' then
      match r.count with
      | .error u => .error u
      | .ok r => readShort r t
    else if c = 'h' then r.stop .help
    else if c = 'V' ∧ r.command = none then r.stop .version
    else match r.arguments.find? (fun a => a.short? = some c) with
      | none => .error .unknownArgument
      | some a => r.beginOption a (attachedTo t)

/-- The name of a long option and the value attached to it. -/
def cutLong (t : Text) : Text × Option Text :=
  match t.dropWhile (fun c => c ≠ '=') with
  | [] => (t, none)
  | _ :: v => (t.takeWhile (fun c => c ≠ '='), some v)

/-- Reads a word that belongs to no option. -/
def readPlain (r : Reading) (w : Text) : Except Usage Reading :=
  match r.arguments.find? Argument.isPositional with
  | none => .error .unknownArgument
  | some a =>
    if r.positionalRead then .error .unknownArgument
    else match r.settle with
      | .error u => .error u
      | .ok r => .ok { r with pending := some (a, some w), positionalRead := true }

/-- Reads one word. -/
def read (r : Reading) (w : Text) : Except Usage Reading :=
  if r.optionsEnded then r.readPlain w
  else match w with
    | ['-', '-'] => .ok { r with optionsEnded := true }
    | '-' :: '-' :: t => r.readLong (cutLong t).1 (cutLong t).2
    | '-' :: c :: t => r.readShort (c :: t)
    | w => match r.pending with
      | some (a, none) => .ok { r with pending := some (a, some w) }
      | _ => r.readPlain w

/-- Reads several words. -/
def readAll (r : Reading) : List Text → Except Usage Reading
  | [] => .ok r
  | w :: ws => match r.read w with
    | .error u => .error u
    | .ok r => readAll r ws

/-- The value of a variable of the environment. -/
def lookUp? (environment : List (Text × Text)) (name : Text) : Option Text :=
  (environment.find? (fun v => v.1 = name)).map Prod.snd

/-- Takes what has not been given from the environment. -/
def fill (environment : List (Text × Text)) (r : Reading) : List Argument → Except Usage Reading
  | [] => .ok r
  | a :: l => match r.value? a, lookUp? environment a.variableName with
    | none, some t => match r.give a t with
      | .error u => .error u
      | .ok r => fill environment r l
    | _, _ => fill environment r l

/-- The choice of an engine that has been made. -/
def choice (r : Reading) : EngineChoice :=
  ⟨((r.value? .engine).bind Engine.ofName?).getD default,
    ((r.value? .format).bind ImageFormat.ofName?).getD default,
    (r.value? .graphviz).getD defaultGraphviz⟩

/-- The command that has been read, if no required argument is missing. -/
def toCommand (r : Reading) (c : CommandName) : Except Usage Command :=
  let escape := r.value? .escapeQuotes = some "true".toList
  match c, r.value? .input, r.value? .output, r.value? .pattern, r.value? .directory with
  | .build, some i, o, _, _ => .ok (.build i o escape)
  | .render, some i, some o, _, _ => .ok (.render i o r.choice escape)
  | .batch, _, _, some p, some d => .ok (.batch p d r.choice escape)
  | .demo, _, _, _, _ => .ok (.demo (r.value? .demoDirectory))
  | _, _, _, _, _ => .error .missingArgument

end Reading

/-! ## Whole lines -/

/-- What a command line asks for. -/
structure Invocation where
  command : Command
  verbosity : Nat
  deriving DecidableEq, Repr

namespace CommandLine

/-- Reads the words after the name of a command. A number of requests for messages among them takes
the place of the one before. -/
def readCommand (environment : List (Text × Text)) (verbosity : Nat) (c : CommandName)
    (words : List Text) : Except Usage Invocation :=
  match (Reading.start (some c)).readAll words with
  | .error u => .error u
  | .ok r => match r.settle with
    | .error u => .error u
    | .ok r => match r.fill environment c.arguments with
      | .error u => .error u
      | .ok r => match r.toCommand c with
        | .error u => .error u
        | .ok command => .ok ⟨command, if r.verbosity = 0 then verbosity else r.verbosity⟩

/-- What a request for help about commands leads to. -/
def helpAbout : List Text → Usage
  | [] => .help
  | [t] => if t = "help".toList ∨ (CommandName.ofText? t).isSome then .help else .unknownCommand
  | _ => .unknownCommand

/-- Reads the words up to the name of a command, and the command. -/
def readFrom (environment : List (Text × Text)) (r : Reading) : List Text → Except Usage Invocation
  | [] => .error (if r.verbosity = 0 then .nothingGiven else .missingCommand)
  | w :: ws =>
    if r.optionsEnded then
      .error (if w = "help".toList ∨ (CommandName.ofText? w).isSome then .unknownArgument
        else .unknownCommand)
    else if w = "help".toList then .error (helpAbout ws)
    else match CommandName.ofText? w, w with
      | some c, _ => readCommand environment r.verbosity c ws
      | none, '-' :: _ :: _ => match r.read w with
        | .error u => .error u
        | .ok r => readFrom environment r ws
      | none, _ => .error .unknownCommand

/-- Reads the words of a command line. -/
def read (environment : List (Text × Text)) (words : List Text) : Except Usage Invocation :=
  readFrom environment (.start none) words

end CommandLine

end DotGraph
