import FluxBalance.CommandLine.Path

/-!
# Files

The program reads one file and writes one. `FileAccess` is what it needs for that. A `Disk` is
a set of files that can be looked at as a value, and gives such access.
-/

namespace FluxBalance

/-- Reading and writing whole files. -/
structure FileAccess (m : Type → Type) where
  /-- The contents of a file, if it can be read. -/
  read : Path → m (Option ByteArray)
  /-- Writes a file anew, and says whether that was possible. -/
  write : Path → String → m Bool

/-- Files and directories. Their places are lists of names from the root. -/
structure Disk where
  directories : List (List String)
  files : List (List String × ByteArray)
  /-- The current directory. -/
  current : List String

namespace Disk

/-- Follows names from a directory. All but the last name have to be those of directories. -/
def follow (d : Disk) : List String → List String → Option (List String)
  | place, [] => some place
  | place, part :: parts =>
    if !d.directories.contains place then none
    else if part = ".." then d.follow place.dropLast parts
    else d.follow (place ++ [part]) parts

/-- The place that a path leads to. -/
def locate (d : Disk) (p : Path) : Option (List String) :=
  d.follow (if p.isAbsolute then [] else d.current) p.parts

/-- The contents of the file at a place. -/
def contents? (d : Disk) (place : List String) : Option ByteArray :=
  (d.files.find? fun f => f.1 == place).map (·.2)

/-- The contents of a file. -/
def read (d : Disk) (p : Path) : Option ByteArray := (d.locate p).bind d.contents?

/-- The disk with a file written. The directory has to be there, and the place must not be that
of a directory. -/
def write (d : Disk) (p : Path) (text : String) : Option Disk := do
  let place ← d.locate p
  if d.directories.contains place || !d.directories.contains place.dropLast then none
  else some { d with files := d.files.filter (fun f => f.1 != place) ++ [(place, text.toUTF8)] }

/-- What was written to a place is read from it. -/
theorem contents?_write {d e : Disk} {p : Path} {text : String} {place : List String}
    (h : d.write p text = some e) (hp : d.locate p = some place) :
    e.contents? place = some text.toUTF8 := by
  simp only [write, hp, Option.bind_eq_bind, Option.bind_some] at h
  split at h
  · simp at h
  · simp only [Option.some.injEq] at h
    subst h
    have hnone : (d.files.filter fun f => f.1 != place).find? (fun f => f.1 == place) = none := by
      simp only [List.find?_eq_none, List.mem_filter]
      rintro f ⟨_, hf⟩
      simpa using hf
    simp only [contents?, List.find?_append, hnone]
    simp

/-- Access to the files of a disk that is carried along. -/
def access : FileAccess (StateM Disk) where
  read p := do return (← get).read p
  write p text := do
    match (← get).write p text with
    | some d =>
      set d
      return true
    | none => return false

end Disk

end FluxBalance
