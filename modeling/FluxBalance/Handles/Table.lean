import FluxBalance.Constraint.Pool
import FluxBalance.Handles.Argument

/-!
# Live objects

Every object behind the facade has a handle, a number that is given out once. The table holds
the objects that have not been destroyed.
-/

namespace FluxBalance

/-- What a handle can stand for. -/
inductive HandledObject where
  | matrix (A : DenseMatrix Float)
  /-- Named constants. -/
  | context (c : Context Float)
  /-- Where to look for unknowns. -/
  | declared (d : List (String × Search Float))
  | builder (b : SystemBuilder Float)
  | system (s : ConstrainedSystem Float)

/-- The kinds of objects. -/
inductive HandleKind where
  | matrix
  | context
  | declared
  | builder
  | system
  deriving Repr, DecidableEq

/-- The kind of an object. -/
def HandledObject.kind : HandledObject → HandleKind
  | matrix _ => .matrix
  | context _ => .context
  | declared _ => .declared
  | builder _ => .builder
  | system _ => .system

/-- The live objects by their handles. -/
structure HandleTable where
  /-- The live objects in order of creation. -/
  objects : List (Nat × HandledObject)
  /-- The handle that the next object will have. -/
  next : Nat

namespace HandleTable

/-- The table without objects. The first handle is one. -/
def empty : HandleTable := ⟨[], 1⟩

/-- The number of live objects. -/
def size (t : HandleTable) : Nat := t.objects.length

/-- The live object with a handle. -/
def get? (t : HandleTable) (h : Nat) : Option HandledObject :=
  (t.objects.find? fun p => p.1 == h).map (·.2)

/-- The table with one more object. -/
def insert (t : HandleTable) (x : HandledObject) : HandleTable :=
  ⟨t.objects ++ [(t.next, x)], t.next + 1⟩

/-- The table with the object of a handle replaced. -/
def replace (t : HandleTable) (h : Nat) (x : HandledObject) : HandleTable :=
  { t with objects := t.objects.map fun p => if p.1 == h then (h, x) else p }

/-- The table without the object of a handle. -/
def erase (t : HandleTable) (h : Nat) : HandleTable :=
  { t with objects := t.objects.filter fun p => p.1 != h }

/-! ### What the operations change -/

@[simp] theorem size_insert (t : HandleTable) (x : HandledObject) :
    (t.insert x).size = t.size + 1 := by
  simp [insert, size]

@[simp] theorem size_replace (t : HandleTable) (h : Nat) (x : HandledObject) :
    (t.replace h x).size = t.size := by
  simp [replace, size]

/-- A destroyed object is not found any more. -/
@[simp] theorem get?_erase_self (t : HandleTable) (h : Nat) : (t.erase h).get? h = none := by
  simp [erase, get?]

/-- Destroying an object leaves the others where they are. -/
theorem get?_erase_of_ne (t : HandleTable) {h k : Nat} (hne : k ≠ h) :
    (t.erase h).get? k = t.get? k := by
  have hsame : (fun p : Nat × HandledObject => p.1 != h && p.1 == k) = fun p => p.1 == k := by
    funext p
    by_cases hk : p.1 = k <;> simp [hk, hne]
  simp only [erase, get?, List.find?_filter, Bool.decide_and, Bool.decide_eq_true, hsame]

/-- A new object is found under the handle that it was given, unless that handle is in use. -/
theorem get?_insert_next (t : HandleTable) (x : HandledObject) (h : t.get? t.next = none) :
    (t.insert x).get? t.next = some x := by
  simp only [get?, Option.map_eq_none_iff] at h
  simp [insert, get?, List.find?_append, h]

/-- A new object leaves the others where they are. -/
theorem get?_insert_of_ne (t : HandleTable) (x : HandledObject) {k : Nat} (hne : k ≠ t.next) :
    (t.insert x).get? k = t.get? k := by
  have hb : (t.next == k) = false := by simpa using Ne.symm hne
  simp [insert, get?, List.find?_append, hb]

end HandleTable

/-- A computation on the table; its effects stay even if it fails. -/
abbrev HandleAction (β : Type) := EStateM (Error Float) HandleTable β

namespace HandleAction

/-! ### Access to objects -/

/-- A result that may be a fault. -/
def understood {β : Type} : Except Fault β → HandleAction β
  | .ok b => pure b
  | .error f => throw (.fault f)

/-- A result that does not depend on the table. -/
def computed {β : Type} : Except (Error Float) β → HandleAction β
  | .ok b => pure b
  | .error e => throw e

/-- Gives an object a new handle. -/
def create (x : HandledObject) : HandleAction Nat := do
  let t ← get
  set (t.insert x)
  return t.next

/-- The handle in an argument and the live object behind it. -/
def find (a : Argument) : HandleAction (Nat × HandledObject) := do
  match a.handle? with
  | none => throw .handle
  | some h =>
    match (← get).get? h with
    | some x => return (h, x)
    | none => throw .handle

/-- A matrix and its handle. -/
def matrix (a : Argument) : HandleAction (Nat × DenseMatrix Float) := do
  match ← find a with
  | (h, .matrix A) => return (h, A)
  | _ => throw .handle

/-- A table of constants and its handle. -/
def context (a : Argument) : HandleAction (Nat × Context Float) := do
  match ← find a with
  | (h, .context c) => return (h, c)
  | _ => throw .handle

/-- A table of declared unknowns and its handle. -/
def declared (a : Argument) : HandleAction (Nat × List (String × Search Float)) := do
  match ← find a with
  | (h, .declared d) => return (h, d)
  | _ => throw .handle

/-- A system builder and its handle. -/
def builder (a : Argument) : HandleAction (Nat × SystemBuilder Float) := do
  match ← find a with
  | (h, .builder b) => return (h, b)
  | _ => throw .handle

/-- A constrained system and its handle. -/
def system (a : Argument) : HandleAction (Nat × ConstrainedSystem Float) := do
  match ← find a with
  | (h, .system s) => return (h, s)
  | _ => throw .handle

/-- Replaces the object of a live handle. -/
def update (h : Nat) (x : HandledObject) : HandleAction Unit := modify fun t => t.replace h x

/-- Destroys an object of the given kind. -/
def destroy (kind : HandleKind) (a : Argument) : HandleAction Unit := do
  let (h, x) ← find a
  if x.kind = kind then modify fun t => t.erase h else throw .handle

/-- The constants behind a handle; the null handle stands for none. -/
def constants (a : Argument) : HandleAction (Context Float) := do
  if a.isNull then return [] else return (← context a).2

/-- The declared unknowns behind a handle; the null handle stands for none. -/
def declarations (a : Argument) : HandleAction (List (String × Search Float)) := do
  if a.isNull then return [] else return (← declared a).2

end HandleAction

end FluxBalance
