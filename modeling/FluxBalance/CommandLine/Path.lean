/-!
# Paths of files

A path is a list of names below a root or below the current directory. Empty names and names
for the same directory are left out, so paths that differ in them are equal. The solution of a
model is written next to the model by default, under a name that is derived from the model's.
-/

namespace FluxBalance

/-- A path of a file or directory. -/
structure Path where
  /-- What an absolute path begins with: one slash, or exactly two. A relative path has none. -/
  root : String
  /-- The names from the outermost directory to the innermost. -/
  parts : List String
  deriving Repr, DecidableEq

namespace Path

/-- The root that a text begins with. -/
def rootOf : List Char → String
  | '/' :: '/' :: '/' :: _ => "/"
  | '/' :: '/' :: _ => "//"
  | '/' :: _ => "/"
  | _ => ""

/-- The texts between slashes. -/
def cut : List Char → List (List Char)
  | [] => [[]]
  | c :: rest =>
    if c = '/' then [] :: cut rest
    else
      match cut rest with
      | part :: parts => (c :: part) :: parts
      | [] => [[c]]

/-- The path that a text stands for. -/
def ofText (text : String) : Path where
  root := rootOf text.toList
  parts := ((cut text.toList).map String.ofList).filter fun p => p != "" && p != "."

/-- The text of a path; the current directory is written as a point. -/
def text (p : Path) : String :=
  if p.root.isEmpty && p.parts.isEmpty then "." else p.root ++ "/".intercalate p.parts

/-- Whether the path begins at the root. -/
def isAbsolute (p : Path) : Bool := !p.root.isEmpty

/-- Whether the path can be that of a file at all. -/
def isUsable (p : Path) : Bool := !p.parts.any fun part => part.toList.contains '\x00'

/-- The last name of a path. A root and the current directory have none. -/
def name? (p : Path) : Option String := p.parts.getLast?

/-- The ending of the names of model documents. -/
def modelEnding : List Char := ".json".toList

/-- The name of the solution of a model: its own ending takes the place of the model's. -/
def solutionName (name : String) : String :=
  let cs := name.toList
  let stem := if modelEnding.isSuffixOf cs then cs.take (cs.length - modelEnding.length) else cs
  String.ofList stem ++ ".soln.json"

/-- The path of the solution of a model, next to the model. There is none if the path has no
name. -/
def solution? (model : Path) : Option Path :=
  model.name?.map fun name => { model with parts := model.parts.dropLast ++ [solutionName name] }

end Path

end FluxBalance
