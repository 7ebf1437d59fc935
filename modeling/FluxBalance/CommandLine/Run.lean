import FluxBalance.CommandLine.Arguments
import FluxBalance.CommandLine.Disk
import FluxBalance.Json.Writer
import FluxBalance.Model.Build
import FluxBalance.Model.Reading

/-!
# Running the program

The program reads a model document, solves it and writes the solution as a document. Its exit
code is zero if the solution was written, one if the model could not be read or solved or the
solution could not be written, and two if the arguments are not understood.
-/

namespace FluxBalance.CommandLine

/-- How a run ends. -/
inductive Outcome where
  | exit (code : Nat)
  /-- A fault that is not reported by an exit code. -/
  | fault (cause : Fault)
  deriving Repr, DecidableEq

/-- The text of a file. -/
def decodeText (bytes : ByteArray) : Except (Error Float) String :=
  match String.fromUTF8? bytes with
  | some s => .ok s
  | none => .error (.fault .badEncoding)

/-- The solution of the model in a file, as the text of a document. -/
def solutionText (bytes : ByteArray) (margin : Float) (limit : Int) :
    Except (Error Float) String := do
  let m ← Model.ofText (← decodeText bytes)
  return (← m.run margin limit).toJson.pretty

/-- The place of the solution. Without one there is no place next to the model either. -/
def Request.outputPath? (r : Request) (model : Path) : Option Path := r.output.or model.solution?

/-- Solves the model at one path and writes the solution to another. -/
def solveFile {m : Type → Type} [Monad m] (files : FileAccess m) (model output : Path)
    (margin : Float) (limit : Int) : m Outcome := do
  if !model.isUsable then return .fault .badValue
  match ← files.read model with
  | none => return .exit 1
  | some bytes =>
    match solutionText bytes margin limit with
    | .error (.fault cause) => return .fault cause
    | .error _ => return .exit 1
    | .ok text =>
      if !output.isUsable then return .fault .badValue
      if ← files.write output text then return .exit 0 else return .exit 1

/-- Does what is asked for. -/
def perform {m : Type → Type} [Monad m] (files : FileAccess m) (r : Request) : m Outcome :=
  match r.model with
  | none => return .exit 2
  | some model =>
    match r.outputPath? model with
    | none => return .fault .badValue
    | some output =>
      solveFile files model output (r.margin.getD Newton.defaultMargin) (r.limit.getD 1000)

/-- Runs the program with its arguments. -/
def run {m : Type → Type} [Monad m] (files : FileAccess m) (args : List String) : m Outcome :=
  match Request.ofArguments args with
  | .error .helpShown => return .exit 0
  | .error .misused => return .exit 2
  | .ok r => perform files r

end FluxBalance.CommandLine
