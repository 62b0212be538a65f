import CallLowering.Json.Parser
import CallLowering.Lowering.Function

/-!
# The command line

`CommandLine.parse?` reads the arguments into an `Invocation`, and `Invocation.run` compiles
the text of the program file. Reading and writing files is left to the caller.

Options may stand before or after the program. A value follows its option as the next
argument or after an equals sign, and directly after the letter of a short option. An option
is given at most once, and two dashes end the options.
-/

namespace CallLowering

/-- Reads a program text from the given place. -/
def Program.load? (text path : String) : Option Program :=
  ((Json.parse? text).bind Program.ofJson?).map (·.loadedFrom path)

/-- What the command line asks for. -/
structure Invocation where
  program : String
  output : Option String
  options : Options
  emit : EmitKind

/-- Why an invocation produced no text. -/
inductive RunError where
  | unreadable
  | unparsable
  | lowering (error : CompileError)

/-- The report of a failed invocation, as shown to a user. -/
def RunError.report (error : RunError) (path : String) : String :=
  match error with
  | unreadable => "error: the program cannot be read\n  --> " ++ path ++ "\n"
  | unparsable => "error: the program cannot be parsed\n  --> " ++ path ++ "\n"
  | lowering error => error.error.report path

/-- Compiles the content of the program file; there is none if it cannot be read. -/
def Invocation.run (invocation : Invocation) (content : Option String) :
    Except RunError String :=
  match content with
  | none => .error .unreadable
  | some text =>
    match Program.load? text invocation.program with
    | none => .error .unparsable
    | some program =>
      match (program.compile invocation.options).result with
      | .error error => .error (.lowering error)
      | .ok code => .ok (invocation.emit.display code)

namespace CommandLine

/-- The arguments read so far. -/
structure Given where
  program : Option String
  output : Option String
  target : Option Target
  emit : Option EmitKind
  noCache : Bool

/-- No argument read. -/
def Given.empty : Given := ⟨none, none, none, none, false⟩

/-- Takes the program file. -/
def Given.addProgram? (read : Given) (arg : String) : Option Given :=
  if read.program.isSome || arg.isEmpty then none else some { read with program := some arg }

/-- Takes the value of an option. -/
def Given.addValue? (read : Given) (option value : String) : Option Given :=
  match option with
  | "output" =>
    if read.output.isSome || value.isEmpty then none else some { read with output := some value }
  | "target" =>
    match read.target, value with
    | none, "x86_64" => some { read with target := some .x86_64 }
    | none, "aarch64" => some { read with target := some .aarch64 }
    | _, _ => none
  | "emit" =>
    match read.emit, value with
    | none, "ir" => some { read with emit := some .code }
    | none, "cfg" => some { read with emit := some .flow }
    | _, _ => none
  | _ => none

/-- Takes an option without a value. -/
def Given.addFlag? (read : Given) (option : String) : Option Given :=
  if option = "no-abi-cache" && !read.noCache then some { read with noCache := true } else none

/-- Whether a long option takes a value. -/
def takesValue (option : String) : Bool :=
  option = "output" || option = "target" || option = "emit"

/-- The kinds of arguments before the options end. -/
inductive Arg where
  | endOfOptions
  /-- An option with a value attached to it. -/
  | attached (option value : String)
  /-- An option by itself. -/
  | bare (option : String)
  | program (path : String)
  | unknown

/-- Splits a long option at its first equals sign. -/
def longArg (cs : List Char) : Arg :=
  let name := String.ofList (cs.takeWhile (· ≠ '='))
  match cs.dropWhile (· ≠ '=') with
  | [] => .bare name
  | _ :: value => .attached name (String.ofList value)

/-- The kind of an argument. -/
def Arg.ofString (arg : String) : Arg :=
  match arg.toList with
  | ['-', '-'] => .endOfOptions
  | '-' :: '-' :: cs => longArg cs
  | ['-'] => .program arg
  | ['-', 'o'] => .bare "output"
  | '-' :: 'o' :: '=' :: value => .attached "output" (String.ofList value)
  | '-' :: 'o' :: value => .attached "output" (String.ofList value)
  | '-' :: _ => .unknown
  | _ => .program arg

/-- Whether an argument can be the value of the option before it. -/
def isValue (arg : String) : Bool :=
  match arg.toList with
  | '-' :: _ :: _ => false
  | _ => true

/-- Reads the arguments after the end of the options. -/
def readPrograms : List String → Given → Option Given
  | [], read => some read
  | arg :: args, read => (read.addProgram? arg).bind (readPrograms args)

/-- Reads arguments; `pending` is an option that waits for its value. -/
def readArgs : List String → (pending : Option String) → Given → Option Given
  | [], none, read => some read
  | [], some _, _ => none
  | arg :: args, some option, read =>
    if isValue arg then (read.addValue? option arg).bind (readArgs args none) else none
  | arg :: args, none, read =>
    match Arg.ofString arg with
    | .endOfOptions => readPrograms args read
    | .attached option value => (read.addValue? option value).bind (readArgs args none)
    | .bare option =>
      if takesValue option then readArgs args (some option) read
      else (read.addFlag? option).bind (readArgs args none)
    | .program path => (read.addProgram? path).bind (readArgs args none)
    | .unknown => none

/-- Reads the command line; there is no invocation if it is misused. -/
def parse? (args : List String) : Option Invocation := do
  let read ← readArgs args none .empty
  let program ← read.program
  return {
    program := program
    output := read.output
    options := ⟨read.target.getD .x86_64, !read.noCache⟩
    emit := read.emit.getD .code }

end CommandLine

end CallLowering
