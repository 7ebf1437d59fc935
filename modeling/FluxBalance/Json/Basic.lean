/-!
# JSON values

The values of a JSON document. Integers and other numbers are kept apart, and the members of
an object keep their order.
-/

namespace FluxBalance

/-- A JSON value. -/
inductive Json where
  | null
  | bool (value : Bool)
  | int (value : Int)
  | float (value : Float)
  | str (value : String)
  | arr (items : List Json)
  | obj (members : List (String × Json))
  deriving Inhabited

namespace Json

/-- The value of the last member with the given name. -/
def lookup? (members : List (String × Json)) (name : String) : Option Json :=
  (members.reverse.find? fun m => m.1 == name).map (·.2)

/-- Members with a repeated name reduced to one: it stays at its first place and has its last
value. -/
def dedupe (members : List (String × Json)) : List (String × Json) :=
  members.foldl (fun seen m =>
    if seen.any fun s => s.1 == m.1 then
      seen.map fun s => if s.1 == m.1 then (s.1, m.2) else s
    else seen ++ [m]) []

end Json

end FluxBalance
