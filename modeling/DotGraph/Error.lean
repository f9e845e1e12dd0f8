import DotGraph.Description.Problem
import DotGraph.Export.Engine

/-!
# Errors

Everything that can go wrong, by cause, with the wording, the code and the advice that go with it.
-/

set_option autoImplicit false

namespace DotGraph

/-- Why a file or directory could not be used. -/
inductive FileFault where
  | notFound | isDirectory | notDirectory | permissionDenied | alreadyExists | notText | notProgram
  deriving DecidableEq, Repr

/-- The wording of a fault of a file. -/
def FileFault.message : FileFault → Text
  | notFound => "No such file or directory (os error 2)".toList
  | isDirectory => "Is a directory (os error 21)".toList
  | notDirectory => "Not a directory (os error 20)".toList
  | permissionDenied => "Permission denied (os error 13)".toList
  | alreadyExists => "File exists (os error 17)".toList
  | notText => "stream did not contain valid UTF-8".toList
  | notProgram => "Exec format error (os error 8)".toList

/-- How a program ended. -/
inductive ExitStatus where
  | code (n : Nat)
  | signal (n : Nat)
  deriving DecidableEq, Repr

namespace ExitStatus

/-- The names of the signals from number 1 on. -/
def signalNames : List String :=
  ["HUP", "INT", "QUIT", "ILL", "TRAP", "ABRT", "BUS", "FPE", "KILL", "USR1", "SEGV", "USR2",
    "PIPE", "ALRM", "TERM", "STKFLT", "CHLD", "CONT", "STOP", "TSTP", "TTIN", "TTOU", "URG", "XCPU",
    "XFSZ", "VTALRM", "PROF", "WINCH", "IO", "PWR", "SYS"]

/-- The name of a signal in brackets, if it has one. -/
def signalLabel (n : Nat) : Text :=
  match n with
  | 0 => []
  | k + 1 => match signalNames[k]? with
    | some s => " (SIG".toList ++ s.toList ++ [')']
    | none => []

/-- The wording of a status. -/
def phrase : ExitStatus → Text
  | code n => "exit status: ".toList ++ Decimal.digits n
  | signal n => "signal: ".toList ++ Decimal.digits n ++ signalLabel n

end ExitStatus

/-- The commands of the program. -/
inductive CommandName where
  | build | render | batch | demo
  deriving DecidableEq, Repr

namespace CommandName

/-- All commands in their order of declaration. -/
def all : List CommandName := [.build, .render, .batch, .demo]

/-- The name of a command as it is typed. -/
def text : CommandName → Text
  | build => "build".toList
  | render => "render".toList
  | batch => "batch".toList
  | demo => "demo".toList

/-- The name of a command's options in messages. -/
def optionsName : CommandName → Text
  | build => "BuildOptions".toList
  | render => "RenderOptions".toList
  | batch => "BatchOptions".toList
  | demo => "DemoOptions".toList

/-- The command that is typed as a text. -/
def ofText? (t : Text) : Option CommandName :=
  all.find? (fun c => c.text = t)

end CommandName

/-- Why what was asked for makes no sense. -/
inductive ConfigurationFault where
  | missingField (field : Text)
  | blankPattern
  | otherCommand (wanted : CommandName)
  | unsupportedInput (path : Text)
  | notDescription (path : Text)
  | sharedOutput (first second output : Text)
  deriving DecidableEq, Repr

/-- The wording of a fault of the configuration. -/
def ConfigurationFault.message : ConfigurationFault → Text
  | missingField f => "Missing required field: ".toList ++ f
  | blankPattern => "Glob pattern must not be empty".toList
  | otherCommand c => "Invalid command type for ".toList ++ c.optionsName
  | unsupportedInput p =>
    "Unsupported input '".toList ++ p ++ "': expected a .dot, .gv, .json or .toml file".toList
  | notDescription p => '\'' :: p ++ "' is DOT source, not a description".toList
  | sharedOutput a b o =>
    '\'' :: a ++ "' and '".toList ++ b ++ "' would both be rendered to '".toList ++ o ++ ['\'']

/-- What can go wrong. -/
inductive Error where
  | argument (fault : ArgumentFault)
  | engineNotFound (executable : Text)
  | renderFailed (engine : Engine) (status : ExitStatus) (complaint : Text)
  | unreadable (path : Text) (fault : FileFault)
  | json (problem : Problem)
  | toml (source : Text) (problem : Problem)
  | file (fault : FileFault)
  | configuration (fault : ConfigurationFault)
  deriving DecidableEq, Repr

namespace Error

/-- The wording of an error. -/
def message : Error → Text
  | argument f => f.sentence
  | engineNotFound x => "Graphviz executable '".toList ++ x ++ "' was not found".toList
  | renderFailed e s t =>
    "Graphviz engine '".toList ++ e.name ++ "' failed with ".toList ++ s.phrase ++ ": ".toList ++ t
  | unreadable p _ => "Failed to read file '".toList ++ p ++ ['\'']
  | json _ => "JSON error".toList
  | toml n _ => "Invalid TOML syntax in '".toList ++ n ++ ['\'']
  | file _ => "IO error".toList
  | configuration f => "Configuration error: ".toList ++ f.message

/-- The code of an error. -/
def code : Error → Text
  | argument _ => "dotweave::invalid_argument".toList
  | engineNotFound _ => "dotweave::engine_not_found".toList
  | renderFailed _ _ _ => "dotweave::render_failed".toList
  | unreadable _ _ => "dotweave::io_error".toList
  | json _ => "dotweave::json_error".toList
  | toml _ _ => "dotweave::toml_parse_error".toList
  | file _ => "dotweave::io_error".toList
  | configuration _ => "dotweave::config_error".toList

/-- The advice that goes with an error. -/
def help : Error → Text
  | argument _ => "Check the arguments passed to the graph builder".toList
  | engineNotFound _ =>
    "Install Graphviz or point --graphviz / DOTWEAVE_GRAPHVIZ at the executable".toList
  | renderFailed _ _ _ =>
    "The DOT text is still available; inspect it with the `build` command".toList
  | unreadable _ _ => "Check if the file exists and you have read permissions".toList
  | json _ => "Check the JSON graph description for syntax or schema errors".toList
  | toml _ _ => "Check the TOML syntax near the highlighted position".toList
  | file _ => "Check file permissions and disk space".toList
  | configuration _ => "Check your command arguments and configuration".toList

/-- The wording of an error and of the fault of a file behind it, outermost first. -/
def chain (e : Error) : List Text :=
  match e with
  | unreadable _ f => [e.message, f.message]
  | file f => [e.message, f.message]
  | e => [e.message]

end Error

end DotGraph
