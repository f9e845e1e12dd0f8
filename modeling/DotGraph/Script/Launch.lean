import DotGraph.Script.Run

/-!
# Starting programs

A program is named, and is then one of the tools or the interpreter of scripts, or a path leads to
an executable file that names its interpreter in its first line.
-/

set_option autoImplicit false

namespace DotGraph.Script

/-- Whether a name is that of the interpreter of scripts. -/
def isInterpreter (name : Text) : Bool :=
  name = "sh".toList || name = "dash".toList || name = "bash".toList

/-- The options of the interpreter that change nothing here. -/
def isQuietOption (o : Octets) : Bool :=
  match o with
  | 45 :: b :: r => (b :: r).all (fun c => (octets "aefuvxs").contains c)
  | _ => false

/-- Runs the interpreter with its own name, its arguments and an input: on a text after `-c`, on a
file, or on its input. -/
def interpret (name : Octets) (input : Octets) (f : Files) : List Octets → Result
  | [] => runText name (Octets.decodeLossy input) [] [] f
  | [45, 99] :: script :: r =>
    runText (r.headD name) (Octets.decodeLossy script) (r.drop 1) input f
  | a :: r =>
    if isQuietOption a then interpret name input f r
    else match a with
      | 45 :: c :: _ =>
        ⟨[], name ++ octets ": 0: Illegal option -" ++ [c, 10], .code 2, f⟩
      | a => match f.read (Octets.decodeLossy a) with
        | .ok script => runText a (Octets.decodeLossy script) r input f
        | .error _ =>
          ⟨[], name ++ octets ": 0: cannot open " ++ a ++ octets ": No such file\n", .code 2, f⟩

/-- Runs a program that is known by name. -/
def runNamed (name : Text) (called : Octets) (arguments : List Octets) (input : Octets)
    (f : Files) : Option Result :=
  if isInterpreter name then some (interpret called input f arguments)
  else (runTool? (Octets.ofText name) arguments input f).map (fun e =>
    ⟨e.output, e.complaint, .code e.status, e.files⟩)

/-- The name of the interpreter in the first line of a file: the program at the end of the path, or
the one that `env` is told to start. -/
def interpreterOf? (content : Octets) : Option Text :=
  match content with
  | 35 :: 33 :: r =>
    let line := Octets.decodeLossy (r.takeWhile (fun b => b ≠ 10))
    match (List.splitOn ' ' line).filter (fun w => !w.isEmpty) with
    | [] => none
    | p :: more =>
      let name := Octets.decodeLossy (programName (Octets.ofText p))
      if name = "env".toList then more.head? else some name
  | _ => none

/-- The directories of the programs that are known by name. -/
def systemDirectories : List Path :=
  ["/bin".toList, "/usr/bin".toList]

/-- Starts a program. -/
def launch (f : Files) (executable : Path) (arguments : List Text) (input : Octets) :
    Except FileFault Result :=
  let arguments := arguments.map Octets.ofText
  let called := Octets.ofText executable
  if !executable.any (fun c => c = '/') then
    if executable = ['.'] ∨ executable = ['.', '.'] then .error .permissionDenied
    else match runNamed executable called arguments input f with
      | some r => .ok r
      | none => .error .notFound
  else match f.lookup executable with
    | .error e =>
      if systemDirectories.contains (Path.parent executable) then
        match runNamed (Octets.decodeLossy (programName called)) called arguments input f with
        | some r => .ok r
        | none => .error e
      else .error e
    | .ok .directory => .error .permissionDenied
    | .ok (.file content runnable) =>
      if !runnable then .error .permissionDenied
      else match interpreterOf? content with
        | none => .error .notProgram
        | some name =>
          if isInterpreter name then
            .ok (runText called (Octets.decodeLossy content) arguments input f)
          else match runNamed name called (called :: arguments) input f with
            | some r => .ok r
            | none => .error .notFound

end DotGraph.Script
