import FluxBalance.Proofs.Newton.Failures
import FluxBalance.Proofs.Newton.Points

/-!
# Where residuals are evaluated

The bounds of an iteration hold for its iterates, not for all points at which it evaluates its
residuals. The guess, each update and each point that is tried on the way to an update are
`Clamped`. But for the derivatives it looks one step of a finite difference to both sides of an
iterate, in one unknown at a time, and these two points are not clamped: at an iterate on its bound
one of them lies outside. So a residual that has values only within the bounds may stop the
iteration. It does not if it has values one step farther as well.

## Main definitions and results

* `Residual.recorded`: a residual that writes down its points;
* `evaluated_near_bounds`: all points written down are `Clamped` or `NearBounds`;
* `exists_evaluated_outside`: the residual of `squareFunction` is evaluated outside its bounds.
-/

namespace FluxBalance.Newton

open FluxBalance.Computation

variable {ν α σ : Type} [Scalar α]

/-! ### Points near the bounds -/

/-- The ends of the interval, if there is one, are numbers in the right order. -/
def Sound (bounds : Option (Interval α)) : Prop :=
  ∀ lo hi, bounds = some (lo, hi) →
    Scalar.isNaN lo = false ∧ Scalar.isNaN hi = false ∧ Scalar.lt hi lo = false

/-- The number lies in the interval, unless it is undefined. -/
def InsideOrNaN (x : α) (bounds : Option (Interval α)) : Prop :=
  Scalar.isNaN x = false → Inside x bounds

/-- The number lies in the interval, or one step of a finite difference beside a number
that does. -/
def NearInterval (bounds : Option (Interval α)) (step x : α) : Prop :=
  InsideOrNaN x bounds ∨ ∃ z, InsideOrNaN z bounds ∧ Beside step z x

/-- All unknowns of the point lie in their intervals, or all of another point do and this one
differs from it in one unknown, by one step of a finite difference. -/
def NearBounds (bounds : Bounds ν α) (step : α) (x : Assignment ν α) : Prop :=
  (∀ u ∈ x, InsideOrNaN u.2 (bounds u.1)) ∨
    ∃ (y : Assignment ν α) (j : Nat) (u : ν × α) (value : α),
      (∀ v ∈ y, InsideOrNaN v.2 (bounds v.1)) ∧ y[j]? = some u ∧ Beside step u.2 value ∧
        x = setAt y j value

/-- Doubles of which the first is less than the second are the ends of an interval. -/
private theorem sound_of_lt {lo hi : Float} (h : Scalar.lt lo hi = true) :
    Sound (some (lo, hi)) := by
  rintro _ _ ⟨⟩
  obtain ⟨hlo, hhi⟩ := Scalar.Ordered.isNaN_of_lt h
  refine ⟨hlo, hhi, Bool.eq_false_iff.mpr fun hgt => ?_⟩
  have hlt : decide (lo < hi) = true := h
  have hgt : decide (hi < lo) = true := hgt
  rw [Doubles.lt_eq, Doubles.lt_eq_true_iff] at hlt hgt
  exact lt_asymm hlt.2.2 hgt.2.2

/-- What has been clamped lies between `Sound` bounds, unless it is undefined. -/
private theorem insideOrNaN_clamp [Scalar.Ordered α] {bounds : Option (Interval α)}
    (hbounds : Sound bounds) (x : α) : InsideOrNaN (clamp x bounds) bounds := by
  rintro hx lo hi rfl
  obtain ⟨hlo, hhi, horder⟩ := hbounds lo hi rfl
  exact inside_clamp_of_number hlo hhi horder hx lo hi rfl

/-- An iteration within bounds looks at points that are `Clamped` or `NearBounds`. -/
private theorem explored_nearBounds [Scalar.Ordered α] {bounds : Bounds ν α}
    (hbounds : ∀ u, Sound (bounds u)) (entries : Nat) (step : α) :
    Explored entries step bounds (Clamped bounds) (NearBounds bounds step) := by
  have hinside (x : Assignment ν α) (hx : Clamped bounds x) :
      ∀ u ∈ x, InsideOrNaN u.2 (bounds u.1) := by
    intro u hu
    obtain ⟨z, hz⟩ := hx u hu
    rw [hz]
    exact insideOrNaN_clamp (hbounds u.1) z
  exact {
    here x hx := .inl (hinside x hx)
    beside x j u value hx hu hvalue := .inr ⟨x, j, u, value, hinside x hx, hu, hvalue, rfl⟩
    next x update length _ _ := clamped_moveBy x update length }

/-! ### Points that are evaluated -/

/-- The residual that also writes down the points at which its value is asked for. -/
def Residual.recorded (r : Residual ν α σ) : Residual ν α (σ × List (Assignment ν α)) :=
  ⟨r.name, Computation.recorded r.value⟩

omit [Scalar α] in
/-- Writing down the points, `Residual.recorded`, does not change what residuals do. -/
private theorem mirroredAt_recorded (D : Assignment ν α → Prop) (rs : List (Residual ν α σ)) :
    MirroredAt (Recording D) D rs (rs.map Residual.recorded) :=
  List.forall₂_map_right_iff.mpr
    (List.forall₂_same.mpr fun r _ => ⟨rfl, fun _ hx => mirrors_recorded hx r.value⟩)

/-! ### Errors of residuals -/

/-- The errors of an iteration for a system whose residuals are evaluated at points with the
property only: some it raises itself, and none of these is about the value of a residual; all others
a residual has raised at such a point. -/
inductive RaisedAt (rs : List (Residual ν α σ)) (cfg : Config α) (D : Assignment ν α → Prop) :
    Error α → Prop
  | margin : RaisedAt rs cfg D .margin
  | unequalCounts (equations unknowns : Nat) : RaisedAt rs cfg D (.unequalCounts equations unknowns)
  | update {e : Error α} : UpdateError cfg e → RaisedAt rs cfg D e
  | residual {r : Residual ν α σ} {x : Assignment ν α} {e : Error α} {s s' : σ} : r ∈ rs → D x →
    r.evaluate x s = .error e s' → RaisedAt rs cfg D e

/-- The errors of an iteration for one unknown, likewise. -/
inductive RaisedAtNumber (f : ScalarFunction α σ) (step : α) (D : α → Prop) : Error α → Prop
  | margin : RaisedAtNumber f step D .margin
  | update {e : Error α} : ScalarError step e → RaisedAtNumber f step D e
  | function {x : α} {e : Error α} {s s' : σ} : D x → evaluateAt f x s = .error e s' →
    RaisedAtNumber f step D e

open Classical in
/-- The function where its argument has the property. Elsewhere it fails with an error that an
iteration has anyway. -/
noncomputable def guarded {ξ : Type} (D : ξ → Prop) (f : ξ → EStateM (Error α) σ α) (x : ξ) :
    EStateM (Error α) σ α :=
  if D x then f x else throw (.iterationLimit 0 none)

omit [Scalar α] in
/-- A function that is `guarded` against other points is the same at the points allowed. -/
private theorem mirrors_guarded {ξ : Type} {D : ξ → Prop} {x : ξ} (hx : D x)
    (f : ξ → EStateM (Error α) σ α) : Mirrors Eq (f x) (guarded D f x) := by
  rw [guarded, if_pos hx]
  exact .refl _

/-- **Whatever fails an iteration for a system** is an error of its own or has been raised by a
residual at a point that is `Explored`. -/
theorem raisedAt_of_explored {bounds : Bounds ν α} {cfg : Config α} {D I : Assignment ν α → Prop}
    {rs : List (Residual ν α σ)} {guess : Assignment ν α}
    (hexp : rs.length = guess.length → Explored rs.length cfg.step bounds I D)
    (hguess : I (guess.map fun u => (u.1, clamp u.2 (bounds u.1)))) :
    FailsBy (fun _ => True) (RaisedAt rs cfg D) (solveSystem rs guess cfg bounds) := by
  -- Where the residuals are not looked at, they may as well fail with an error of the iteration.
  let qs := rs.map fun r => (⟨r.name, guarded D r.value⟩ : Residual ν α σ)
  have hmirrored : MirroredAt Eq D rs qs :=
    List.forall₂_map_right_iff.mpr
      (List.forall₂_same.mpr fun r _ => ⟨rfl, fun _ hx => mirrors_guarded hx r.value⟩)
  rw [(mirrors_solveSystem hmirrored hexp hguess).eq]
  refine failsBy_solveSystem_of_update .margin (fun _ => .unequalCounts _ _) (fun _ => .update)
    (residualsKeep_true qs) ?_ (over_true guess) bounds
  intro q hq x _ s _ e s' he
  obtain ⟨r, hr, rfl⟩ := List.mem_map.mp hq
  unfold Residual.evaluate guarded at he
  dsimp only at he
  by_cases hx : D x
  · rw [if_pos hx] at he
    exact .residual hr hx he
  · rw [if_neg hx] at he
    cases he
    exact .update (.iterationLimit 0 none)

/-- **Whatever fails an iteration for one unknown**, likewise. -/
theorem raisedAtNumber_of_explored {f : ScalarFunction α σ} {bounds : Option (Interval α)}
    {step : α} {D I : α → Prop} (hhere : ∀ x, I x → D x)
    (hbeside : ∀ x y, I x → Beside step x y → D y)
    (hnext : ∀ x, I (clamp x bounds)) (guess margin : α) (limit : Int) :
    FailsBy (fun _ => True) (RaisedAtNumber f step D)
      (solveScalar f guess margin limit bounds step) := by
  have hmirrored (x : α) (hx : D x) : Mirrors Eq (f x) (guarded D f x) := mirrors_guarded hx f
  rw [(mirrors_solveScalar hmirrored hhere hbeside hnext guess margin limit).eq]
  refine failsBy_solveScalar_of_update (fun _ => .update) ?_ .margin guess margin limit bounds
  intro x s _ e s' he
  unfold evaluateAt guarded at he
  by_cases hx : D x
  · rw [if_pos hx] at he
    exact .function hx he
  · rw [if_neg hx] at he
    cases he
    exact .update (.iterationLimit 0 none)

/-! ### Bounds and evaluations -/

/-- **Residuals are evaluated within the bounds or one step beside them**, whatever they are,
whatever the settings are and however the iteration ends. To write down the points at which they are
evaluated does not change a run; and an error of the run is one of the iteration itself, which is
not about a value, or it has been `RaisedAt` such a point. So residuals with values at all these
points raise none. -/
theorem evaluated_near_bounds [Scalar.Ordered α] :
    (∀ (rs : List (Residual ν α σ)) (guess : Assignment ν α) (cfg : Config α) (bounds : Bounds ν α)
      (s : σ), (∀ u, Sound (bounds u)) →
      (∃ seen, solveSystem (rs.map Residual.recorded) guess cfg bounds (s, []) =
          withRecord seen (solveSystem rs guess cfg bounds s) ∧
        ∀ x ∈ seen, NearBounds bounds cfg.step x) ∧
      ∀ e s', solveSystem rs guess cfg bounds s = .error e s' →
        RaisedAt rs cfg (NearBounds bounds cfg.step) e) ∧
    ∀ (f : ScalarFunction α σ) (guess margin : α) (limit : Int) (bounds : Option (Interval α))
      (step : α) (s : σ), Sound bounds →
      (∃ seen, solveScalar (recorded f) guess margin limit bounds step (s, []) =
          withRecord seen (solveScalar f guess margin limit bounds step s) ∧
        ∀ x ∈ seen, NearInterval bounds step x) ∧
      ∀ e s', solveScalar f guess margin limit bounds step s = .error e s' →
        RaisedAtNumber f step (NearInterval bounds step) e := by
  refine ⟨fun rs guess cfg bounds s hbounds => ?_,
    fun f guess margin limit bounds step s hbounds => ?_⟩
  · -- What an iteration explores from `Clamped` points is near the bounds, whether or not it is
    -- written down.
    have hexp := explored_nearBounds hbounds rs.length cfg.step
    have hmirrors := mirrors_solveSystem (mirroredAt_recorded _ rs) (fun _ => hexp)
      (clamped_guess guess)
    exact ⟨hmirrors.exists_record s,
      raisedAt_of_explored (fun _ => hexp) (clamped_guess guess) s trivial⟩
  · have hhere (x : α) (hx : InsideOrNaN x bounds) : NearInterval bounds step x := .inl hx
    have hbeside (x y : α) (hx : InsideOrNaN x bounds) (hy : Beside step x y) :
        NearInterval bounds step y := .inr ⟨x, hx, hy⟩
    have hnext := insideOrNaN_clamp hbounds
    have hmirrors := mirrors_solveScalar (fun x hx => mirrors_recorded hx f) hhere hbeside hnext
      guess margin limit
    exact ⟨hmirrors.exists_record s,
      raisedAtNumber_of_explored hhere hbeside hnext guess margin limit s trivial⟩

/-- Zero and three are the ends of an interval. -/
private theorem sound_zero_three : Sound (some ((0 : Rat), (3 : Rat))) := by
  rintro _ _ ⟨⟩
  decide

/-- The square less two as a function that leaves the state alone. -/
def squareFunction : ScalarFunction Rat Unit := fun x => lift (squareLessTwo x)

/-- The residual of the system with this function. -/
def squareResiduals : List (Residual String Rat Unit) :=
  squareSystem.map fun f => .ofFunction f.1 f.2

/-- From zero, which is its own lower bound, neither iteration gets past the first derivative. -/
private theorem stopped_at_zero :
    solveSystem squareResiduals [("x", 0)] dampedConfig (fun _ => some (0, 3)) () =
        .error (.evaluation (.position 0) (.domain .notEvaluable)) () ∧
      solveScalar squareFunction 0 (mkRat 1 100) 50 (some (0, 3)) (mkRat 1 1000) () =
        .error (.domain .notEvaluable) () := by
  obtain ⟨_, hsystem⟩ := error?_eq_some_iff.mp (show error? (solveSystem squareResiduals [("x", 0)]
    dampedConfig (fun _ => some (0, 3)) ()) =
      some (.evaluation (.position 0) (.domain .notEvaluable)) by decide +kernel)
  obtain ⟨_, hfunction⟩ := error?_eq_some_iff.mp (show error? (solveScalar squareFunction 0
    (mkRat 1 100) 50 (some (0, 3)) (mkRat 1 1000) ()) = some (.domain .notEvaluable) by
      decide +kernel)
  exact ⟨hsystem, hfunction⟩

/-- **Bounds are not the domain of evaluation.** The square less two has values everywhere between
zero and three, but both iterations look for one below zero, and fail. -/
theorem exists_evaluated_outside :
    (∀ x, Inside x (some (0, 3)) → ∃ y, squareLessTwo x = .ok y) ∧
      (∃ x ∈ (finalState (solveScalar (recorded squareFunction) 0 (mkRat 1 100) 50 (some (0, 3))
        (mkRat 1 1000) ((), []))).2, ¬Inside x (some (0, 3))) ∧
      solveScalar squareFunction 0 (mkRat 1 100) 50 (some (0, 3)) (mkRat 1 1000) () =
        .error (.domain .notEvaluable) () ∧
      solveSystem squareResiduals [("x", 0)] dampedConfig (fun _ => some (0, 3)) () =
        .error (.evaluation (.position 0) (.domain .notEvaluable)) () := by
  refine ⟨fun x hx => ⟨x * x - 2, if_neg ?_⟩, ⟨mkRat (-1) 1000, by decide +kernel, fun hx => ?_⟩,
    stopped_at_zero.2, stopped_at_zero.1⟩
  · have hle : (decide (0 < x) || decide (0 = x)) = true := (hx 0 3 rfl).1
    rw [Bool.or_eq_true, decide_eq_true_iff, decide_eq_true_iff] at hle
    exact not_lt.mpr (le_of_lt_or_eq hle)
  · exact absurd (hx 0 3 rfl).1 (by decide)

/-- The square less two on the doubles, where it has a value everywhere. -/
def squareOfDouble : ScalarFunction Float Unit := fun x => pure (x * x - 2)

/-- What has failed from zero has been raised by the function at a point near the bounds; and on the
doubles, the points that the iteration from one writes down lie near its bounds. -/
theorem evaluated_near_bounds_squareLessTwo :
    (∃ r ∈ squareResiduals, ∃ x, NearBounds (fun _ => some (0, 3)) dampedConfig.step x ∧
        ∃ s₁ s₂, r.evaluate x s₁ =
          .error (.evaluation (.position 0) (.domain .notEvaluable)) s₂) ∧
      (∃ x, NearInterval (some (0, 3)) (mkRat 1 1000) x ∧
        ∃ s₁ s₂, evaluateAt squareFunction x s₁ = .error (.domain .notEvaluable) s₂) ∧
      ∃ seen, solveScalar (recorded squareOfDouble) 1 1e-4 50 (some (0, 3)) 1e-6 ((), []) =
          withRecord seen (solveScalar squareOfDouble 1 1e-4 50 (some (0, 3)) 1e-6 ()) ∧
        ∀ x ∈ seen, NearInterval (some (0, 3)) 1e-6 x := by
  obtain ⟨hsystem, hfunction⟩ := evaluated_near_bounds (ν := String) (α := Rat) (σ := Unit)
  obtain ⟨-, hdouble⟩ := evaluated_near_bounds (ν := String) (α := Float) (σ := Unit)
  refine ⟨?_, ?_, (hdouble squareOfDouble _ _ _ _ _ _ (sound_of_lt (by decide +kernel))).1⟩
  · cases (hsystem squareResiduals _ _ _ _ fun _ => sound_zero_three).2 _ _ stopped_at_zero.1 with
    | update h => cases h
    | residual hr hx h => exact ⟨_, hr, _, hx, _, _, h⟩
  · cases (hfunction squareFunction _ _ _ _ _ _ sound_zero_three).2 _ _ stopped_at_zero.2 with
    | update h => cases h
    | function hx h => exact ⟨_, hx, _, _, h⟩

end FluxBalance.Newton
