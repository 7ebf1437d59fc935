import FluxBalance.CommandLine.Run

/-!
# The program

Solves a model document from the command line.
-/

open FluxBalance

namespace FluxBalance.CommandLine

/-- Access to the files of the machine. -/
def machine : FileAccess IO where
  read p := do
    try
      return some (← IO.FS.readBinFile p.text)
    catch _ => return none
  write p text := do
    try
      IO.FS.writeFile p.text text
      return true
    catch _ => return false

/-- How the program is called. -/
def usage : String :=
  "usage: fluxbalance [-h] [--margin MARGIN] [--limit LIMIT] [--output OUTPUT] [--verbose] model"

/-- Whether the arguments ask for help. -/
def asksForHelp (args : List String) : Bool :=
  match Request.ofArguments args with
  | .error .helpShown => true
  | _ => false

/-- What is said about a run that did not write a solution. -/
def Outcome.complaint? : Outcome → Option String
  | exit 0 => none
  | exit 2 => some usage
  | exit _ => some "The model could not be solved, or its solution could not be written."
  | fault _ => some "The model could not be read."

/-- The exit code of a run. -/
def Outcome.code : Outcome → UInt32
  | exit n => n.toUInt32
  | fault _ => 1

end FluxBalance.CommandLine

/-- Runs the program with its arguments. -/
def main (args : List String) : IO UInt32 := do
  if CommandLine.asksForHelp args then IO.println CommandLine.usage
  let outcome ← CommandLine.run CommandLine.machine args
  if let some line := outcome.complaint? then IO.eprintln line
  return outcome.code
