import CallLowering.CommandLine

/-!
# The program

Reads the program file named on the command line, compiles it, and writes the text to the
standard output or to the file asked for.
-/

namespace CallLowering

/-- How the command line is used. -/
def usage : String :=
  "usage: PROGRAM [-o|--output FILE] [--target x86_64|aarch64] [--emit ir|cfg] [--no-abi-cache]"

/-- The content of a file; none if it cannot be read. -/
def readContent (path : String) : IO (Option String) := do
  try return some (← IO.FS.readFile path)
  catch _ => return none

/-- Writes the text of an invocation and answers the exit code. -/
def writeText (output : Option String) (text : String) : IO UInt32 := do
  match output with
  | none =>
    IO.print text
    return 0
  | some path =>
    try
      IO.FS.writeFile path text
      return 0
    catch error =>
      IO.eprintln s!"error: {error}"
      return 1

end CallLowering

open CallLowering in
/-- Compiles the program named by the arguments. -/
def main (args : List String) : IO UInt32 := do
  match CommandLine.parse? args with
  | none =>
    IO.eprintln usage
    return 2
  | some invocation =>
    match invocation.run (← readContent invocation.program) with
    | .error error =>
      IO.eprint (error.report invocation.program)
      return 1
    | .ok text => writeText invocation.output text
