import FluxBalance.CommandLine.Path
import FluxBalance.Number.Read

/-!
# Command line arguments

The program takes the path of a model and options in any order. The names of options may be
shortened as long as they stay unique, a value may follow its option as the next argument or
after an equality sign, and after `--` everything counts as a path. What looks like a negative
number, or begins like an option and contains a blank, is no option.
-/

namespace FluxBalance.CommandLine

/-! ### Options -/

/-- The options of the program. -/
inductive OptionName where
  | help
  | margin
  | limit
  | output
  | verbose
  deriving Repr, DecidableEq

/-- How options are spelled in full. -/
def spellings : List (List Char × OptionName) :=
  [("-h".toList, .help), ("--help".toList, .help), ("--margin".toList, .margin),
    ("--limit".toList, .limit), ("--output".toList, .output), ("--verbose".toList, .verbose)]

/-- Whether an option needs a value. -/
def OptionName.takesValue : OptionName → Bool
  | margin | limit | output => true
  | help | verbose => false

/-- Why the program ends before it has looked at a model. -/
inductive Stop where
  /-- Help was asked for. -/
  | helpShown
  /-- The arguments are not understood. -/
  | misused
  deriving Repr, DecidableEq

/-! ### Words -/

/-- What an argument is, as far as it can be told from its form. -/
inductive Word where
  | path (text : String)
  /-- An option, whether it was given by its letter, and what is joined to it. The equality sign
  between a name and a value belongs to neither, but after a letter it counts as joined. -/
  | option (name : OptionName) (byLetter : Bool) (joined : Option (List Char))
  | unknownOption
  /-- The sign after which all arguments are paths. -/
  | separator
  deriving Repr, DecidableEq

/-- The text before the first equality sign, and the text after it if there is one. -/
def splitJoined (cs : List Char) : List Char × Option (List Char) :=
  match cs.dropWhile (· != '=') with
  | _ :: value => (cs.takeWhile (· != '='), some value)
  | [] => (cs, none)

/-- Whether a text looks like a negative number. -/
def isNegativeNumber : List Char → Bool
  | '-' :: cs =>
    let isDigit (c : Char) : Bool := (Number.digitValue? c).isSome
    let rest := cs.dropWhile isDigit
    match rest with
    | [] => !cs.isEmpty
    | '.' :: fraction => !fraction.isEmpty && fraction.all isDigit
    | _ => false
  | _ => false

/-- The options that a text may stand for: by its letter, or as a shortened name. -/
def candidates : List Char → List Word
  | '-' :: '-' :: cs =>
    let (name, joined) := splitJoined ('-' :: '-' :: cs)
    (spellings.filter fun s => name.isPrefixOf s.1).map fun s => .option s.2 false joined
  | cs =>
    spellings.filterMap fun s =>
      if s.1 = cs.take 2 then some (.option s.2 true (some (cs.drop 2)))
      else if cs.isPrefixOf s.1 then some (.option s.2 false none)
      else none

/-- The option that is spelled in full, possibly with a value joined to it. -/
def exactOption? (cs : List Char) : Option Word :=
  let (name, joined) := splitJoined cs
  match spellings.find? fun s => s.1 = cs with
  | some s => some (.option s.2 (cs.length == 2) none)
  | none =>
    match joined with
    | some _ =>
      (spellings.find? fun s => s.1 = name).map fun s =>
        if name.length == 2 then .option s.2 true (some (cs.drop 2)) else .option s.2 false joined
    | none => none

/-- What an argument is. A shortened name that is not unique is not understood. -/
def classify (arg : String) : Except Stop Word :=
  match arg.toList with
  | '-' :: c :: rest =>
    let cs := '-' :: c :: rest
    match exactOption? cs with
    | some w => .ok w
    | none =>
      match candidates cs with
      | [w] => .ok w
      | [] =>
        if isNegativeNumber cs || cs.contains ' ' then .ok (.path arg) else .ok .unknownOption
      | _ => .error .misused
  | _ => .ok (.path arg)

/-- What all arguments are. -/
def words : List String → Except Stop (List Word)
  | [] => .ok []
  | arg :: rest =>
    if arg = "--" then .ok (.separator :: rest.map .path)
    else do
      let w ← classify arg
      return w :: (← words rest)

/-! ### Values -/

/-- What the program is asked to do. -/
structure Request where
  model : Option Path
  margin : Option Float
  limit : Option Int
  output : Option Path
  verbose : Bool
  /-- Whether there were arguments that have no meaning. -/
  hasExtras : Bool
  deriving Repr

namespace Request

/-- Nothing has been asked for. -/
def empty : Request := ⟨none, none, none, none, false, false⟩

/-- The request with the value of an option set. -/
def withValue (r : Request) (name : OptionName) (value : String) : Except Stop Request :=
  match name with
  | .margin =>
    match Number.readDouble? value with
    | some x => .ok { r with margin := some x }
    | none => .error .misused
  | .limit =>
    match Number.readInt? value with
    | some n => .ok { r with limit := some n }
    | none => .error .misused
  | .output => .ok { r with output := some (.ofText value) }
  | _ => .error .misused

/-- The request after an option that needs no value. Letters joined to a letter are options
themselves; a letter that is none has no meaning, but help comes before that is noticed. Neither
a value nor a name can be joined to a letter. -/
def withFlag (r : Request) (name : OptionName) (byLetter : Bool) (joined : Option (List Char)) :
    Except Stop Request :=
  match name, joined with
  | .help, none => .error .helpShown
  | .help, some cs =>
    match byLetter, cs.dropWhile (· == 'h') with
    | false, _ | true, '=' :: _ | true, '-' :: _ => .error .misused
    | true, _ => .error .helpShown
  | _, none => .ok { r with verbose := true }
  | _, some _ => .error .misused

/-- The request after a path. The first path is that of the model. -/
def withPath (r : Request) (text : String) : Request :=
  match r.model with
  | none => { r with model := some (.ofText text) }
  | some _ => { r with hasExtras := true }

/-- The request after a separator. It belongs to the path of the model, next to which it stands;
anywhere else it has no meaning. -/
def withSeparator (r : Request) (afterModel beforePath : Bool) : Request :=
  if afterModel || (r.model.isNone && beforePath) then r else { r with hasExtras := true }

/-- Takes words one after the other; `afterModel` says whether the word before was the path of
the model. -/
def take (r : Request) (afterModel : Bool) : List Word → Except Stop Request
  | [] => .ok r
  | .path text :: rest => (r.withPath text).take r.model.isNone rest
  | .separator :: rest =>
    let beforePath :=
      match rest with
      | .path _ :: _ => true
      | _ => false
    (r.withSeparator afterModel beforePath).take false rest
  | .unknownOption :: rest => { r with hasExtras := true }.take false rest
  | .option name byLetter joined :: rest =>
    if name.takesValue then
      match joined, rest with
      | some value, rest => do
        let r ← r.withValue name (String.ofList value)
        r.take false rest
      | none, .path value :: rest => do
        let r ← r.withValue name value
        r.take false rest
      | none, _ => .error .misused
    else do
      let r ← r.withFlag name byLetter joined
      r.take false rest

/-- The request that arguments make. It has to name a model, and all arguments must have a
meaning. -/
def ofArguments (args : List String) : Except Stop Request := do
  let r ← empty.take false (← words args)
  if r.model.isNone || r.hasExtras then throw .misused
  return r

end Request

end FluxBalance.CommandLine
