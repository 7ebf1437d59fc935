import FluxBalance.Handles.Facade
import FluxBalance.Proofs.Constraint.Failures

/-!
# Looking at the table

What an operation on handles does before it writes anything: it understands its arguments, finds the
objects behind them and computes. Any of this may fail, none of it changes the table, and the
failures are reported, except where an equation calls a function that is not known.

## Main definitions and results

* `Looks`: a computation that leaves the table alone and whose failures are reported;
* `Argument.Refusal`: the faults of arguments that cannot be understood;
* `looks_understood`, `looks_fitted`, `looks_computed`: the steps that look, one lemma for each
  kind.
-/

namespace FluxBalance

open FluxBalance.Computation Equation HandleAction

/-! ### Arguments -/

/-- The faults of arguments that cannot be understood. -/
inductive Argument.Refusal : Fault → Prop
  | wrongType : Refusal .wrongType
  | badValue : Refusal .badValue
  | badIndex : Refusal .badIndex
  | overflow : Refusal .overflow

namespace Argument

private theorem errsBy_index (a : Argument) : ErrsBy Refusal a.index := by
  unfold index
  split
  · split
    · exact .error .badIndex
    · exact .ok _
  · split
    · exact .error .badIndex
    · split
      · exact .ok _
      · split
        · exact .error .badValue
        · exact .error .overflow
  · exact .error .wrongType

theorem errsBy_number (a : Argument) : ErrsBy Refusal a.number := by
  unfold number
  split
  · split
    · exact .ok _
    · exact .error .overflow
  · exact .ok _
  · split
    · exact .ok _
    · exact .error .badValue
  · exact .error .wrongType

private theorem errsBy_factor (a : Argument) : ErrsBy Refusal a.factor := by
  unfold factor
  split
  · exact .error .wrongType
  · exact errsBy_number _

theorem errsBy_entry (a : Argument) : ErrsBy Refusal a.entry := by
  unfold entry
  split
  · exact .ok _
  · exact errsBy_number _

private theorem errsBy_compared (a : Argument) : ErrsBy Refusal a.compared := by
  unfold compared
  split
  · exact .ok _
  · exact .ok _
  · exact .error .wrongType

/-- What is no number is refused beside an infinite one. -/
private theorem errsBy_besideInfinite (a : Argument) : ErrsBy Refusal a.besideInfinite := by
  unfold besideInfinite
  split
  · exact .ok _
  · exact .ok _
  · exact .error .wrongType

/-- Arguments that `exceeds` cannot compare are refused. -/
theorem errsBy_exceeds (a b : Argument) : ErrsBy Refusal (a.exceeds b) := by
  unfold exceeds
  split
  · exact .ok _
  · split
    · exact .ok _
    · exact .bind (errsBy_besideInfinite _) fun _ =>
        .bind (errsBy_besideInfinite _) fun _ => .ok _

end Argument

theorem Operation.errsBy_boundOf (a : Argument) (isUpper : Bool) :
    ErrsBy Argument.Refusal (Operation.boundOf a isUpper) := by
  refine .bind (Argument.errsBy_compared a) fun x => ?_
  split
  · split
    · exact .bind (.error .overflow) fun _ => .ok _
    · exact .ok _
  · exact .ok _

/-! ### Looking -/

/-- Started with the table, the computation leaves it as it is; its results have the property, and
its failures are reported. -/
def Looks {β : Type} (t : HandleTable) (R : β → Prop) (m : HandleAction β) : Prop :=
  (∃ b, m t = .ok b t ∧ R b) ∨ ∃ e, m t = .error e t ∧ Operation.isReported e = true

section

variable {β γ : Type} {t : HandleTable} {R : β → Prop} {R' : γ → Prop} {m : HandleAction β}
  {f : β → HandleAction γ}

namespace Looks

theorem pure {b : β} (h : R b) : Looks t R (pure b) := .inl ⟨b, rfl, h⟩

theorem throw {e : Error Float} (h : Operation.isReported e = true) :
    Looks t R (throw e : HandleAction β) := .inr ⟨e, rfl, h⟩

/-- What `Looks` says of the results may be weakened. -/
theorem mono {R' : β → Prop} (hm : Looks t R m) (h : ∀ b, R b → R' b) : Looks t R' m :=
  hm.imp_left fun ⟨b, hb, hr⟩ => ⟨b, hb, h b hr⟩

/-- A sequence `Looks` at the table if its parts do. -/
theorem bind (hm : Looks t R m) (hf : ∀ b, R b → Looks t R' (f b)) : Looks t R' (m >>= f) := by
  rcases hm with ⟨b, hb, hr⟩ | ⟨e, he, hreported⟩
  · rw [Looks, bind_apply, hb]
    exact hf b hr
  · exact .inr ⟨e, by rw [bind_apply, he], hreported⟩

private theorem forget (hm : Looks t R m) : Looks t (fun _ => True) m := hm.mono fun _ _ => trivial

/-- A result is one that the computation has on this table. -/
theorem of_result (hm : Looks t R m) : Looks t (fun b => m t = .ok b t) m :=
  hm.imp_left fun ⟨b, hb, _⟩ => ⟨b, hb, hb⟩

end Looks

/-- Understanding an argument looks at nothing and refuses what it does not understand. -/
theorem looks_understood {x : Except Fault β} (h : ErrsBy Argument.Refusal x) :
    Looks t (fun b => x = .ok b) (understood x) := by
  cases x with
  | ok b => exact .pure rfl
  | error cause =>
    refine .throw ?_
    cases h cause rfl <;> rfl

theorem looks_fitting (x : Except MatrixError β) :
    Looks t (fun b => x = .ok b) (Operation.fitting x) := by
  cases x with
  | ok b => exact .pure rfl
  | error cause => exact .throw rfl

theorem looks_index (a : Argument) : Looks t (fun _ => True) (understood a.index) :=
  (looks_understood a.errsBy_index).forget

theorem looks_number (a : Argument) : Looks t (fun _ => True) (understood a.number) :=
  (looks_understood a.errsBy_number).forget

theorem looks_factor (a : Argument) : Looks t (fun _ => True) (understood a.factor) :=
  (looks_understood a.errsBy_factor).forget

/-- A matrix result is reported if it is an error, as in `looks_fitting`. -/
theorem looks_fitted (x : Except MatrixError β) : Looks t (fun _ => True) (Operation.fitting x) :=
  (looks_fitting x).forget

/-- The errors of equations are reported, except for functions that are not known. -/
theorem EquationError.reported {K : String → Prop} {e : Error Float} (h : EquationError K e) :
    Operation.isReported e = true ∨ ∃ f, K f ∧ e = .fault (.unknownFunction f) := by
  cases h with
  | solving h =>
    cases h with
    | solver h => cases h <;> exact .inl rfl
    | vanishedStep => exact .inl rfl
    | unknownFunction hf => exact .inr ⟨_, hf, rfl⟩
  | _ => exact .inl rfl

/-- An equation's error is reported, if it calls no unknown function. -/
theorem looks_computed {x : Except (Error Float) β}
    (h : ErrsBy (EquationError fun _ => False) x) : Looks t (fun b => x = .ok b) (computed x) := by
  cases x with
  | ok b => exact .pure rfl
  | error e =>
    rcases (h e rfl).reported with hreported | ⟨_, hf, -⟩
    · exact .throw hreported
    · exact hf.elim

/-! ### Finding objects -/

theorem looks_found (a : Argument) :
    Looks t (fun p => a.handle? = some p.1 ∧ t.get? p.1 = some p.2) (find a) := by
  unfold find
  cases a.handle? with
  | none => exact .throw rfl
  | some h =>
    have hget : Looks t (fun t' => t' = t) (get : HandleAction HandleTable) := .inl ⟨t, rfl, rfl⟩
    refine hget.bind fun t' ht' => ?_
    rw [ht']
    cases hx : t.get? h with
    | none => exact .throw rfl
    | some x => exact .pure ⟨rfl, hx⟩

theorem looks_find (a : Argument) : Looks t (fun p => t.get? p.1 = some p.2) (find a) :=
  (looks_found a).mono fun _ h => h.2

theorem looks_matrix (a : Argument) :
    Looks t (fun p => t.get? p.1 = some (.matrix p.2)) (matrix a) :=
  (looks_find a).bind fun ⟨h, x⟩ hx => by cases x <;> first | exact .pure hx | exact .throw rfl

theorem looks_context (a : Argument) :
    Looks t (fun p => t.get? p.1 = some (.context p.2)) (context a) :=
  (looks_find a).bind fun ⟨h, x⟩ hx => by cases x <;> first | exact .pure hx | exact .throw rfl

theorem looks_declared (a : Argument) :
    Looks t (fun p => t.get? p.1 = some (.declared p.2)) (HandleAction.declared a) :=
  (looks_find a).bind fun ⟨h, x⟩ hx => by cases x <;> first | exact .pure hx | exact .throw rfl

theorem looks_builder (a : Argument) :
    Looks t (fun p => t.get? p.1 = some (.builder p.2)) (builder a) :=
  (looks_find a).bind fun ⟨h, x⟩ hx => by cases x <;> first | exact .pure hx | exact .throw rfl

theorem looks_system (a : Argument) :
    Looks t (fun p => t.get? p.1 = some (.system p.2)) (system a) :=
  (looks_find a).bind fun ⟨h, x⟩ hx => by cases x <;> first | exact .pure hx | exact .throw rfl

theorem looks_constants (a : Argument) : Looks t (fun _ => True) (constants a) := by
  unfold constants
  split
  · exact .pure trivial
  · exact (looks_context a).bind fun _ _ => .pure trivial

theorem looks_declarations (a : Argument) : Looks t (fun _ => True) (declarations a) := by
  unfold declarations
  split
  · exact .pure trivial
  · exact (looks_declared a).bind fun _ _ => .pure trivial

end

end FluxBalance
