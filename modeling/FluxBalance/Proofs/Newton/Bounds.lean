import FluxBalance.Newton.Scalar
import FluxBalance.Proofs.Newton.Convergence
import FluxBalance.Proofs.Scalar.Ordered

/-!
# Points that an iteration returns lie within the bounds

An iterate comes about in several ways: it is the guess, a full step, a step that the search has
accepted or the shortest one. Each of these is `Clamped` into the intervals of its unknowns, and so
is the point that is returned. In between, the Jacobian is estimated at points off the iterate, but
an iterate is not changed by that.

The main statement puts this together with convergence, for systems and for functions of one
variable: what is returned is a root up to the margin, and it lies within the bounds.

## Main definitions and results

* `Inside`, `Within`: numbers and points that lie within bounds, if the bounds are `Proper`;
* `clamped_solveSystem`, `within_solveSystem`: what is returned for a system is `Clamped` and lies
  within the bounds;
* `roots_within_bounds`: what either solver returns is a root within the bounds.
-/

namespace FluxBalance.Newton

open FluxBalance.Computation

variable {ν α σ : Type} [Scalar α]

/-! ### Intervals -/

/-- The number lies in the interval, its ends included. Without an interval there is nothing to
say. -/
def Inside (x : α) (bounds : Option (Interval α)) : Prop :=
  ∀ lo hi, bounds = some (lo, hi) → Scalar.le lo x = true ∧ Scalar.le x hi = true

/-- The interval, if there is one, has a lower end that is not above its upper end. -/
def Proper (bounds : Option (Interval α)) : Prop :=
  ∀ lo hi, bounds = some (lo, hi) → Scalar.le lo hi = true

section

variable [Scalar.Exact α]

/-- The test `Scalar.le` is the order of the field. -/
theorem le_eq_true_iff {x y : α} : Scalar.le x y = true ↔ x ≤ y := by
  rw [Scalar.le, Bool.or_eq_true, Scalar.Exact.lt_eq_true_iff, Scalar.Exact.eq_iff, le_iff_lt_or_eq]

/-- **A clamped number lies in the interval**, wherever it was before. -/
theorem inside_clamp {bounds : Option (Interval α)} (hbounds : Proper bounds) (x : α) :
    Inside (clamp x bounds) bounds := by
  rintro lo hi rfl
  have hle : lo ≤ hi := le_eq_true_iff.mp (hbounds lo hi rfl)
  have hlower : lo ≤ Scalar.max x lo := by
    unfold Scalar.max
    split
    · exact le_rfl
    · rename_i hlt
      exact le_of_not_gt fun h => hlt h
  rw [le_eq_true_iff, le_eq_true_iff, clamp, Scalar.min]
  split
  · exact ⟨hle, le_rfl⟩
  · rename_i hlt
    exact ⟨hlower, le_of_not_gt fun h => hlt h⟩

end

/-- A clamped number lies in an interval whose ends are numbers in the right order, unless it is
undefined. -/
theorem inside_clamp_of_number [Scalar.Ordered α] {lo hi x : α} (hlo : Scalar.isNaN lo = false)
    (hhi : Scalar.isNaN hi = false) (horder : Scalar.lt hi lo = false)
    (hx : Scalar.isNaN (clamp x (some (lo, hi))) = false) :
    Inside (clamp x (some (lo, hi))) (some (lo, hi)) := by
  -- Where the lower end does not help, the number is at least that end already.
  have hlower : Scalar.isNaN (Scalar.max x lo) = false →
      Scalar.le lo (Scalar.max x lo) = true := by
    unfold Scalar.max
    split
    · exact fun _ => Scalar.le_refl_of_number hlo
    · rename_i hlt
      exact fun hnumber => Scalar.Ordered.le_of_not_lt hnumber hlo (Bool.eq_false_iff.mpr hlt)
  rintro _ _ ⟨⟩
  rw [clamp, Scalar.min] at hx ⊢
  split at hx
  · rename_i hlt
    rw [if_pos hlt]
    exact ⟨Scalar.Ordered.le_of_not_lt hhi hlo horder, Scalar.le_refl_of_number hhi⟩
  · rename_i hlt
    rw [if_neg hlt]
    exact ⟨hlower hx, Scalar.Ordered.le_of_not_lt hhi hx (Bool.eq_false_iff.mpr hlt)⟩

/-! ### Systems -/

/-- Each unknown of the point has been clamped into its interval. -/
def Clamped (bounds : Bounds ν α) (x : Assignment ν α) : Prop :=
  ∀ u ∈ x, ∃ z, u.2 = clamp z (bounds u.1)

section

variable {bounds : Bounds ν α}

/-- The point that an iteration starts from is `Clamped`. -/
theorem clamped_guess (guess : Assignment ν α) :
    Clamped bounds (guess.map fun u => (u.1, clamp u.2 (bounds u.1))) := by
  intro u hu
  obtain ⟨v, -, rfl⟩ := List.mem_map.mp hu
  exact ⟨v.2, rfl⟩

/-- Every point that `moveBy` leads to is `Clamped`. -/
theorem clamped_moveBy (x : Assignment ν α) (update : List α) (length : α) :
    Clamped bounds (moveBy bounds x update length) := by
  intro u hu
  obtain ⟨⟨v, d⟩, -, rfl⟩ := List.mem_map.mp hu
  exact ⟨_, rfl⟩

/-- A point after a `Clamped` one is clamped: it is the same point or has been clamped anew. -/
private theorem clamped_systemUpdate {rs : List (Residual ν α σ)} {cfg : Config α}
    {x x' : Assignment ν α} {values : List α} {s s' : σ} (hx : Clamped bounds x)
    (h : systemUpdate rs cfg bounds x values s = .ok x' s') : Clamped bounds x' := by
  rcases systemUpdate_eq_ok h with rfl | ⟨update, length, -, rfl⟩
  · exact hx
  · exact clamped_moveBy x update length

/-- An iteration that starts from a `Clamped` point ends at one. -/
private theorem clamped_systemIterate {rs : List (Residual ν α σ)} {cfg : Config α} :
    ∀ {n : Nat} {last : Option α} {x x' : Assignment ν α} {s s' : σ}, Clamped bounds x →
      systemIterate rs cfg bounds n last x s = .ok x' s' → Clamped bounds x'
  | 0, _, _, _, _, _, _, h => by cases h
  | n + 1, _, x, x', s, s', hx, h => by
    obtain ⟨values, s₁, -, h⟩ := bind_eq_ok.mp h
    split at h
    · obtain ⟨rfl, -⟩ := pure_eq_ok.mp h
      exact hx
    · obtain ⟨next, s₂, hnext, h⟩ := bind_eq_ok.mp h
      exact clamped_systemIterate (clamped_systemUpdate hx hnext) h

/-- **A point that is returned for a system is `Clamped`.** -/
theorem clamped_solveSystem {rs : List (Residual ν α σ)} {guess x : Assignment ν α}
    {cfg : Config α} {s s' : σ} (h : solveSystem rs guess cfg bounds s = .ok x s') :
    Clamped bounds x := by
  obtain ⟨-, -, h⟩ := solveSystem_eq_ok_iff.mp h
  exact clamped_systemIterate (clamped_guess guess) h

end

/-- Each unknown of the point lies in its interval. -/
def Within (bounds : Bounds ν α) (x : Assignment ν α) : Prop := ∀ u ∈ x, Inside u.2 (bounds u.1)

/-- **A point that is returned for a system lies within the bounds.** -/
theorem within_solveSystem [Scalar.Exact α] {bounds : Bounds ν α}
    (hbounds : ∀ u, Proper (bounds u)) {rs : List (Residual ν α σ)} {guess x : Assignment ν α}
    {cfg : Config α} {s s' : σ} (h : solveSystem rs guess cfg bounds s = .ok x s') :
    Within bounds x := by
  intro u hu
  obtain ⟨z, hz⟩ := clamped_solveSystem h u hu
  rw [hz]
  exact inside_clamp (hbounds u.1) z

/-! ### One unknown -/

/-- The value is finite and smaller than the margin. -/
def Vanishes (margin y : α) : Prop :=
  Scalar.isFinite y = true ∧ Scalar.lt (Scalar.abs y) margin = true

/-- A value that `evaluateAt` accepts is finite, and it is the value of the function. -/
theorem evaluateAt_eq_ok {f : ScalarFunction α σ} {x y : α} {s s' : σ}
    (h : evaluateAt f x s = .ok y s') : f x s = .ok y s' ∧ Scalar.isFinite y = true := by
  unfold evaluateAt at h
  cases hf : f x s with
  | ok z s₁ =>
    rw [hf] at h
    dsimp only at h
    split at h
    · rename_i hfin
      cases h
      exact ⟨rfl, hfin⟩
    · cases h
  | error e s₁ =>
    rw [hf] at h
    dsimp only at h
    split at h
    · cases h
    · cases h
    · split at h <;> cases h

/-- The next iterate has been clamped. -/
theorem scalarUpdate_eq_ok {f : ScalarFunction α σ} {bounds : Option (Interval α)}
    {step x y next : α} {s s' : σ} (h : scalarUpdate f bounds step x y s = .ok next s') :
    ∃ proposed, next = clamp proposed bounds := by
  simp only [scalarUpdate, bind_eq_ok, guard_eq_ok, pure_eq_ok] at h
  obtain ⟨slope, _, -, -, -, rfl, -⟩ := h
  exact ⟨_, rfl⟩

/-- What is returned is a clamped number at which the function has been evaluated to a value below
the margin. -/
private theorem scalarIterate_eq_ok {f : ScalarFunction α σ} {margin : α} {limit : Int}
    {bounds : Option (Interval α)} {step : α} :
    ∀ {n : Nat} {last : Option α} {x x' : α} {s s' : σ}, (∃ z, x = clamp z bounds) →
      scalarIterate f margin limit bounds step n last x s = .ok x' s' →
      (∃ z, x' = clamp z bounds) ∧ ∃ s₀ y, f x' s₀ = .ok y s' ∧ Vanishes margin y
  | 0, _, _, _, _, _, _, h => by cases h
  | n + 1, _, x, x', s, s', hx, h => by
    obtain ⟨y, s₁, hy, h⟩ := bind_eq_ok.mp h
    obtain ⟨hvalue, hfin⟩ := evaluateAt_eq_ok hy
    split at h
    · rename_i hlt
      obtain ⟨rfl, rfl⟩ := pure_eq_ok.mp h
      exact ⟨hx, s, y, hvalue, hfin, hlt⟩
    · obtain ⟨next, s₂, hnext, h⟩ := bind_eq_ok.mp h
      exact scalarIterate_eq_ok (scalarUpdate_eq_ok hnext) h

/-- A function of one variable is solved if the margin is positive, the interval is not empty, and
the iteration from the guess, moved into the interval, returns a point. -/
theorem solveScalar_eq_ok_iff {f : ScalarFunction α σ} {guess margin x : α} {limit : Int}
    {bounds : Option (Interval α)} {step : α} {s s' : σ} :
    solveScalar f guess margin limit bounds step s = .ok x s' ↔
      Scalar.lt 0 margin = true ∧
      (∀ lo hi, bounds = some (lo, hi) → Scalar.lt hi lo = false) ∧
      scalarIterate f margin limit bounds step limit.toNat none (clamp guess bounds) s =
        .ok x s' := by
  rw [← checkMargin_eq_ok_iff, solveScalar, bind_eq_ok]
  simp only [lift_eq_ok_iff]
  cases bounds with
  | none =>
    constructor
    · rintro ⟨_, _, ⟨hmargin, rfl⟩, h⟩
      exact ⟨hmargin, nofun, h⟩
    · rintro ⟨hmargin, -, h⟩
      exact ⟨(), s, ⟨hmargin, rfl⟩, h⟩
  | some interval =>
    simp only [guard_eq_ok, Bool.not_eq_true, Option.some.injEq]
    constructor
    · rintro ⟨_, _, ⟨hmargin, rfl⟩, hlt, h⟩
      refine ⟨hmargin, ?_, h⟩
      rintro _ _ rfl
      exact hlt
    · rintro ⟨hmargin, hlt, h⟩
      exact ⟨(), s, ⟨hmargin, rfl⟩, hlt _ _ rfl, h⟩

/-- What is returned for a function of one variable is a root up to the margin. -/
theorem root_of_solveScalar {f : ScalarFunction α σ} {guess margin x : α} {limit : Int}
    {bounds : Option (Interval α)} {step : α} {s s' : σ}
    (h : solveScalar f guess margin limit bounds step s = .ok x s') :
    ∃ s₀ y, f x s₀ = .ok y s' ∧ Vanishes margin y := by
  obtain ⟨-, -, h⟩ := solveScalar_eq_ok_iff.mp h
  exact (scalarIterate_eq_ok ⟨guess, rfl⟩ h).2

/-- What is returned for a function of one variable has been clamped into the interval; an empty
interval has been refused. -/
theorem clamped_solveScalar {f : ScalarFunction α σ} {guess margin x lo hi : α} {limit : Int}
    {step : α} {s s' : σ} (h : solveScalar f guess margin limit (some (lo, hi)) step s = .ok x s') :
    Scalar.lt hi lo = false ∧ ∃ z, x = clamp z (some (lo, hi)) := by
  obtain ⟨-, hlt, h⟩ := solveScalar_eq_ok_iff.mp h
  exact ⟨hlt lo hi rfl, (scalarIterate_eq_ok ⟨guess, rfl⟩ h).1⟩

/-- **What is returned for a function of one variable** is a root up to the margin, in the
interval. -/
theorem inside_solveScalar [Scalar.Exact α] {f : ScalarFunction α σ} {guess margin x : α}
    {limit : Int} {bounds : Option (Interval α)} {step : α} {s s' : σ}
    (h : solveScalar f guess margin limit bounds step s = .ok x s') :
    Inside x bounds ∧ ∃ s₀ y, f x s₀ = .ok y s' ∧ Vanishes margin y := by
  refine ⟨?_, root_of_solveScalar h⟩
  cases bounds with
  | none => exact nofun
  | some interval =>
    obtain ⟨lo, hi⟩ := interval
    obtain ⟨hlt, z, rfl⟩ := clamped_solveScalar h
    have hproper : Proper (some (lo, hi)) := by
      rintro _ _ ⟨⟩
      exact le_eq_true_iff.mpr (le_of_not_gt fun hgt => Bool.eq_false_iff.mp hlt hgt)
    exact inside_clamp hproper z

/-! ### Roots of partial functions -/

/-- A residual that is a partial function of the unknowns. -/
def Residual.ofFunction (name : EquationName) (f : Assignment ν α → Except (Error α) α) :
    Residual ν α σ := ⟨name, fun x => lift (f x)⟩

/-- **Whatever is returned is a root within the bounds.** If a system of partial functions is
solved, damped or not, the point that is returned has exactly the unknowns of the guess, every
function has a finite value below the margin there, and every unknown lies in its interval; and what
is returned for a partial function of one variable has these two properties as well. -/
theorem roots_within_bounds [Scalar.Exact α] :
    (∀ (fs : List (EquationName × (Assignment ν α → Except (Error α) α)))
      (guess : Assignment ν α) (cfg : Config α) (bounds : Bounds ν α) (s s' : σ)
      (x : Assignment ν α), (∀ u, Proper (bounds u)) →
      solveSystem (fs.map fun f => .ofFunction f.1 f.2) guess cfg bounds s = .ok x s' →
        x.map Prod.fst = guess.map Prod.fst ∧
          (∀ f ∈ fs, ∃ y, f.2 x = .ok y ∧ Vanishes cfg.margin y) ∧ Within bounds x) ∧
    (∀ (f : α → Except (Error α) α) (guess margin : α) (limit : Int)
      (bounds : Option (Interval α)) (step : α) (s s' : σ) (x : α),
      solveScalar (fun x => lift (f x)) guess margin limit bounds step s = .ok x s' →
        (∃ y, f x = .ok y ∧ Vanishes margin y) ∧ Inside x bounds) := by
  refine ⟨fun fs guess cfg bounds s s' x hbounds h => ?_,
    fun f guess margin limit bounds step s s' x h => ?_⟩
  · have hkeep := residualsKeep_true (fs.map fun f => Residual.ofFunction (σ := σ) f.1 f.2)
    obtain ⟨hkeys, s₀, values, -, hvalues, hlt⟩ :=
      converged_of_solveSystem hkeep (over_true _) trivial h
    refine ⟨hkeys, fun f hf => ?_, within_solveSystem hbounds h⟩
    obtain ⟨i, hi⟩ := List.mem_iff_getElem?.mp
      (List.mem_map_of_mem (f := fun f => Residual.ofFunction (σ := σ) f.1 f.2) hf)
    obtain ⟨s₁, y, s₂, -, hy, hfin, hplace⟩ :=
      getElem?_of_evaluateAll (over_true _) hkeep trivial hvalues hi
    have hfx : f.2 x = .ok y := (lift_eq_ok_iff.mp hy).1
    have hsmall := Scalar.abs_lt_of_maxAbs_lt (isFinite_of_evaluateAll hvalues) hlt y
      (List.mem_of_getElem? hplace)
    exact ⟨y, hfx, hfin, hsmall⟩
  · obtain ⟨hinside, s₀, y, hy, hvanishes⟩ := inside_solveScalar h
    have hfx : f x = .ok y := (lift_eq_ok_iff.mp hy).1
    exact ⟨⟨y, hfx, hvanishes⟩, hinside⟩

/-- The square less two, which has no value below zero. -/
def squareLessTwo (x : Rat) : Except (Error Rat) Rat :=
  if x < 0 then .error (.domain .notEvaluable) else .ok (x * x - 2)

/-- The same function as a system with one equation. -/
def squareSystem : List (EquationName × (Assignment String Rat → Except (Error Rat) Rat)) :=
  [(.position 0, fun x => squareLessTwo (x.headD ("x", 0)).2)]

/-- Damped, with settings of the usual kind. -/
def dampedConfig : Config Rat := { Config.ofMargin (mkRat 1 100) 50 with damping := true }

/-- The square root of two is found between zero and three from a guess outside, as the solution of
a damped system and as the root of a function. -/
theorem squareLessTwo_within_bounds :
    (∃ x s', solveSystem (squareSystem.map fun f => .ofFunction f.1 f.2) [("x", 5)] dampedConfig
        (fun _ => some (0, 3)) () = .ok x s' ∧ x.map Prod.fst = ["x"] ∧
      (∀ f ∈ squareSystem, ∃ y, f.2 x = .ok y ∧ Vanishes dampedConfig.margin y) ∧
      Within (fun _ => some (0, 3)) x) ∧
    ∃ x s', solveScalar (fun x => lift (squareLessTwo x)) 5 (mkRat 1 100) 50 (some (0, 3))
        (mkRat 1 1000) () = .ok x s' ∧
      (∃ y, squareLessTwo x = .ok y ∧ Vanishes (mkRat 1 100) y) ∧ Inside x (some (0, 3)) := by
  obtain ⟨hsystem, hfunction⟩ := roots_within_bounds (ν := String) (α := Rat) (σ := Unit)
  have hproper : ∀ u : String, Proper ((fun _ => some ((0 : Rat), (3 : Rat))) u) := by
    rintro u _ _ ⟨⟩
    decide
  have hsolved : succeeded (solveSystem (σ := Unit)
      (squareSystem.map fun f => .ofFunction f.1 f.2) [("x", 5)] dampedConfig
      (fun _ => some (0, 3)) ()) = true := by
    rw [solveSystem_eq_within 1 (by decide +kernel)]
    decide +kernel
  have hfound : succeeded (solveScalar (σ := Unit) (fun x => lift (squareLessTwo x)) 5
      (mkRat 1 100) 50 (some (0, 3)) (mkRat 1 1000) ()) = true := by
    decide +kernel
  obtain ⟨x, s, hx⟩ := succeeded_eq_true_iff.mp hsolved
  obtain ⟨y, s', hy⟩ := succeeded_eq_true_iff.mp hfound
  exact ⟨⟨x, s, hx, hsystem _ _ _ _ _ _ _ hproper hx⟩, y, s', hy, hfunction _ _ _ _ _ _ _ _ _ hy⟩

end FluxBalance.Newton
