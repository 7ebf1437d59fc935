import FluxBalance.Constraint.Builder

/-!
# Pools of equations

A block of equations is solved piece by piece. As long as some equation has a single unknown, it
is solved first; otherwise the first subsystem that a builder can gather is solved. Every value
found is a constant from then on. What can neither be solved alone nor gathered into a subsystem
is left over.
-/

namespace FluxBalance.Pool

/-- The equations of a text: its lines, and the parts between semicolons, as far as they contain
an equality sign. -/
def split (text : String) : List String :=
  let parts := (cut text.toList).filter fun part => part.contains '='
  parts.map fun part => String.ofList (Text.stripChars part)
where
  /-- The parts of a text between line breaks and semicolons. -/
  cut : List Char → List (List Char)
    | [] => [[]]
    | c :: rest =>
      if c = '\n' ∨ c = ';' then [] :: cut rest
      else
        match cut rest with
        | part :: parts => (c :: part) :: parts
        | [] => [[c]]

/-- One step of a solution. -/
inductive Step where
  /-- An unknown found from one equation. -/
  | single (name equation : String)
  /-- Unknowns found from a subsystem. -/
  | subsystem (names equations : List String)
  deriving Repr, DecidableEq

/-- The written form of a step: what was found, and from which equations. -/
def Step.written : Step → String
  | single name equation => name ++ " from " ++ Text.quoted equation
  | subsystem names equations => ", ".intercalate names ++ " from " ++ Text.quotedList equations

/-- Equations that are not yet solved, and the values known so far. -/
structure Pending (α : Type) where
  equations : List String
  known : Context α

section

variable {α : Type} [Evaluable α]

/-- The settings of a solution. -/
structure Settings (α : Type) where
  /-- Where to look for some of the unknowns. -/
  declared : List (String × Search α)
  /-- The interval of the other unknowns. -/
  bounds : Newton.Interval α
  margin : α
  limit : Int

/-- Where to look for an unknown. -/
def Settings.searchFor (s : Settings α) (name : String) : Search α :=
  match s.declared.find? fun p => p.1 == name with
  | some p => p.2
  | none => ⟨1, s.bounds⟩

/-! ### Single equations -/

/-- The first equation with a single unknown is solved. The first list holds the equations
before it, in reverse order. -/
def solveSingle (s : Settings α) (known : Context α) :
    List String → List String → Except (Error α) (Option (Step × Pending α))
  | _, [] => .ok none
  | before, equation :: after => do
    match ← freeVariables equation known with
    | [name] =>
      let (found, value) ← solveEquation equation known (s.searchFor name) s.margin s.limit
      return some (.single found equation,
        ⟨before.reverse ++ after, known.set found value⟩)
    | _ => solveSingle s known (equation :: before) after

/-! ### Subsystems -/

/-- The builder after it was offered the equations one by one, until it is constrained. -/
def gather (b : SystemBuilder α) : List String → Except (Error α) (SystemBuilder α)
  | [] => .ok b
  | equation :: rest => do
    let (status, b) ← b.tryConstrain equation
    if status = .constrained then return b else gather b rest

/-- A constrained system with the declared searches, where they apply. -/
def specifyAll (s : Settings α) (system : ConstrainedSystem α) : ConstrainedSystem α :=
  s.declared.foldl (fun system p => (system.specify p.1 p.2).getD system) system

/-- The first constrained subsystem is solved. Each pooled equation in turn is its seed, and all
others are offered to it in order. -/
def solveSubsystem (s : Settings α) (pending : Pending α) :
    List (Nat × String) → Except (Error α) (Option (Step × Pending α))
  | [] => .ok none
  | (i, seed) :: rest => do
    let b ← SystemBuilder.new seed pending.known
    let b ← gather b (pending.equations.eraseIdx i)
    if b.status ≠ .constrained then solveSubsystem s pending rest
    else
      let system := specifyAll s (← b.build s.bounds)
      let found ← system.solve s.margin s.limit
      let known := found.foldl (fun c p => c.set p.1 p.2) pending.known
      let used := b.texts
      return some (.subsystem system.unknowns used,
        ⟨pending.equations.filter fun e => !used.contains e, known⟩)

/-! ### Whole pools -/

/-- One step: a single equation, or else a subsystem. -/
def step (s : Settings α) (pending : Pending α) :
    Except (Error α) (Option (Step × Pending α)) := do
  match ← solveSingle s pending.known [] pending.equations with
  | some done => return some done
  | none =>
    solveSubsystem s pending (pending.equations.mapIdx fun i e => (i, e))

/-- Steps until nothing is left or nothing more can be solved. Every step takes at least one
equation out of the pool, so there are at most as many steps as equations. -/
def run (s : Settings α) : Nat → Pending α → Except (Error α) (List Step × Pending α)
  | 0, pending => .ok ([], pending)
  | n + 1, pending => do
    if pending.equations.isEmpty then return ([], pending)
    match ← step s pending with
    | none => return ([], pending)
    | some (done, pending) =>
      let (steps, pending) ← run s n pending
      return (done :: steps, pending)

/-- The solution of a block of equations: the steps, the values that are known in the end, and
the equations that are left. -/
def solve (text : String) (context : Context α) (s : Settings α) :
    Except (Error α) (List Step × Pending α) :=
  let equations := split text
  run s equations.length ⟨equations, context⟩

end

end FluxBalance.Pool
