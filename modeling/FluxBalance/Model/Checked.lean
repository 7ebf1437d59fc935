import FluxBalance.Error

/-!
# Checked values

A document is checked as a whole: a part that is refused does not keep the other parts from being
looked at. So a checked value is either accepted or refused with all complaints, and the
complaints of parts add up.
-/

namespace FluxBalance

/-- A value, or everything that is wrong with it. -/
inductive Checked (β : Type) where
  | accepted (value : β)
  | refused (complaints : List Complaint)

namespace Checked

variable {β γ : Type}

/-- Refuses with one complaint. -/
def refuse (path : List String) (kind : ComplaintKind) : Checked β := refused [⟨path, kind⟩]

/-- Changes an accepted value. -/
def map (f : β → γ) : Checked β → Checked γ
  | accepted x => accepted (f x)
  | refused cs => refused cs

/-- Applies a checked function to a checked value; the complaints of both are kept. -/
def apply : Checked (β → γ) → Checked β → Checked γ
  | accepted f, accepted x => accepted (f x)
  | accepted _, refused cs => refused cs
  | refused cs, accepted _ => refused cs
  | refused cs, refused ds => refused (cs ++ ds)

instance : Applicative Checked where
  pure := accepted
  map := map
  seq f x := apply f (x ())

/-- Goes on with an accepted value; a refused one is not looked at any further. -/
def andThen (x : Checked β) (f : β → Checked γ) : Checked γ :=
  match x with
  | accepted v => f v
  | refused cs => refused cs

/-- The values of a list, if all of them are accepted. -/
def all : List (Checked β) → Checked (List β)
  | [] => accepted []
  | x :: xs => (· :: ·) <$> x <*> all xs

end Checked

end FluxBalance
