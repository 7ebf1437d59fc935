import FluxBalance.Proofs.Newton.Bounds

/-!
# Larger limits and larger margins

Both iterations are one loop: something is evaluated at an iterate, and either its size is below the
margin or an update leads to the next iterate. Neither what is evaluated nor the update looks at the
margin or at the limit; the search for the length of an update compares the residuals with those at
the iterate, not with the margin. So the iterates are the same for all margins and limits, and these
only decide where the loop stops: `Loop.EndsAfter m j` says that with the margin `m` it stops after
`j` updates. A loop returns exactly if it stops before the limit. With a larger margin it stops
where it has stopped before, if not earlier.

## Main definitions and results

* `Loop`, `Loop.iterate`: what both iterations have in common;
* `Loop.EndsAfter`, `Loop.iterate_eq_ok_iff`: a loop returns exactly if it stops before the limit;
* `patient_solveScalar`, `patient_solveSystem`: both iterations are `Loop.Patient`.
-/

namespace FluxBalance.Newton

open FluxBalance.Computation

variable {ν α σ ξ ω : Type}

/-! ### Loops -/

/-- What a loop does at an iterate: an evaluation, the size of what has been evaluated, and the
update to the next iterate. -/
structure Loop (ξ ω α σ : Type) where
  evaluate : ξ → EStateM (Error α) σ ω
  size : ω → α
  update : ξ → ω → EStateM (Error α) σ ξ

section

variable [Scalar α] {l : Loop ξ ω α σ} {margin margin' : α} {x z : ξ} {s s' : σ} {j n : Nat}

/-- The loop with a margin and the given number of iterates left. -/
def Loop.iterate (l : Loop ξ ω α σ) (margin : α) (limit : Int) :
    Nat → Option α → ξ → EStateM (Error α) σ ξ
  | 0, last, _ => throw (.iterationLimit limit last)
  | n + 1, _, x => do
    let y ← l.evaluate x
    if Scalar.lt (l.size y) margin then return x
    let next ← l.update x y
    l.iterate margin limit n (some (l.size y)) next

/-- With the margin, the loop stops after the given number of updates, where the size is below the
margin for the first time. -/
inductive Loop.EndsAfter (l : Loop ξ ω α σ) (margin : α) : Nat → ξ → σ → ξ → σ → Prop
  | here {x : ξ} {y : ω} {s s' : σ} : l.evaluate x s = .ok y s' →
    Scalar.lt (l.size y) margin = true → l.EndsAfter margin 0 x s x s'
  | later {j : Nat} {x next z : ξ} {y : ω} {s s₁ s₂ s' : σ} : l.evaluate x s = .ok y s₁ →
    Scalar.lt (l.size y) margin = false → l.update x y s₁ = .ok next s₂ →
    l.EndsAfter margin j next s₂ z s' → l.EndsAfter margin (j + 1) x s z s'

/-- **A loop returns exactly if it stops before the limit**, and it returns the `iterate` at which
it stops. -/
theorem Loop.iterate_eq_ok_iff {limit : Int} :
    ∀ {n : Nat} {last : Option α} {x : ξ} {s : σ},
      l.iterate margin limit n last x s = .ok z s' ↔ ∃ j < n, l.EndsAfter margin j x s z s'
  | 0, last, x, s => by
    constructor
    · intro h
      cases h
    · rintro ⟨j, hj, -⟩
      exact absurd hj (Nat.not_lt_zero j)
  | n + 1, last, x, s => by
    simp only [iterate, bind_eq_ok, pure_or_eq_ok, Bool.not_eq_true]
    constructor
    · rintro ⟨y, s₁, hy, ⟨hsmall, rfl, rfl⟩ | ⟨hlarge, next, s₂, hnext, h⟩⟩
      · exact ⟨0, Nat.succ_pos n, .here hy hsmall⟩
      · obtain ⟨j, hj, hends⟩ := iterate_eq_ok_iff.mp h
        exact ⟨j + 1, Nat.succ_lt_succ hj, .later hy hlarge hnext hends⟩
    · rintro ⟨_, hj, hends⟩
      cases hends with
      | here hy hsmall => exact ⟨_, _, hy, .inl ⟨hsmall, rfl, rfl⟩⟩
      | later hy hlarge hnext hends =>
        exact ⟨_, _, hy, .inr ⟨hlarge, _, _, hnext,
          iterate_eq_ok_iff.mpr ⟨_, Nat.lt_of_succ_lt_succ hj, hends⟩⟩⟩

/-- With a larger margin a loop stops after no more updates. -/
private theorem Loop.EndsAfter.of_le [Scalar.Lawful α] (h : l.EndsAfter margin j x s z s')
    (hle : Scalar.le margin margin' = true) :
    ∃ j' ≤ j, ∃ z' s'', l.EndsAfter margin' j' x s z' s'' := by
  induction h with
  | here hy hsmall => exact ⟨0, le_rfl, _, _, .here hy (Scalar.lt_of_lt_of_le hsmall hle)⟩
  | @later j x next z y s s₁ s₂ s' hy hlarge hnext hends ih =>
    by_cases hsmall : Scalar.lt (l.size y) margin' = true
    · exact ⟨0, Nat.zero_le _, x, s₁, .here hy hsmall⟩
    · obtain ⟨j', hj', z', s'', hends'⟩ := ih
      exact ⟨j' + 1, Nat.succ_le_succ hj', z', s'',
        .later hy (Bool.eq_false_iff.mpr hsmall) hnext hends'⟩

/-- What is run with a margin and a limit has returned a point at which the loop stops, and it is
patient: with a larger limit it returns the same, and with a larger margin it returns as well, after
no more updates. -/
structure Loop.Patient (l : Loop ξ ω α σ) (run : α → Int → EStateM.Result (Error α) σ ξ)
    (margin : α) (limit : Int) (x : ξ) (s : σ) (z : ξ) (s' : σ) : Prop where
  returns : run margin limit = .ok z s'
  larger_limit : ∀ limit', limit ≤ limit' → run margin limit' = .ok z s'
  larger_margin : ∃ j < limit.toNat, l.EndsAfter margin j x s z s' ∧
    ∀ margin', Scalar.le margin margin' = true → ∃ j' ≤ j, ∃ z' s'',
      l.EndsAfter margin' j' x s z' s'' ∧ run margin' limit = .ok z' s''

/-- What returns exactly if its margin is positive, its other settings are accepted and its loop
stops before the limit is `Patient`. -/
private theorem Loop.patient [Scalar.Lawful α] {run : α → Int → EStateM.Result (Error α) σ ξ}
    {limit : Int} {accepted : Prop} (hrun : ∀ margin limit z s', run margin limit = .ok z s' ↔
      Scalar.lt 0 margin = true ∧ accepted ∧ ∃ j < limit.toNat, l.EndsAfter margin j x s z s')
    (h : run margin limit = .ok z s') : l.Patient run margin limit x s z s' where
  returns := h
  larger_limit limit' hle := by
    obtain ⟨hpos, haccepted, j, hj, hends⟩ := (hrun _ _ _ _).mp h
    exact (hrun _ _ _ _).mpr ⟨hpos, haccepted, j, by omega, hends⟩
  larger_margin := by
    obtain ⟨hpos, haccepted, j, hj, hends⟩ := (hrun _ _ _ _).mp h
    refine ⟨j, hj, hends, fun margin' hle => ?_⟩
    obtain ⟨j', hj', z', s'', hends'⟩ := hends.of_le hle
    exact ⟨j', hj', z', s'', hends', (hrun _ _ _ _).mpr
      ⟨Scalar.lt_of_lt_of_le hpos hle, haccepted, j', by omega, hends'⟩⟩

end

/-! ### One unknown -/

section

variable [Scalar α] {f : ScalarFunction α σ} {bounds : Option (Interval α)} {step margin : α}

/-- The loop for a function of one variable. -/
def scalarLoop (f : ScalarFunction α σ) (bounds : Option (Interval α)) (step : α) :
    Loop α α α σ where
  evaluate := evaluateAt f
  size := Scalar.abs
  update := scalarUpdate f bounds step

private theorem scalarIterate_eq_iterate (limit : Int) : ∀ (n : Nat) (last : Option α) (x : α),
    scalarIterate f margin limit bounds step n last x =
      (scalarLoop f bounds step).iterate margin limit n last x
  | 0, _, _ => rfl
  | n + 1, _, x => by
    rw [scalarIterate, Loop.iterate]
    simp only [scalarIterate_eq_iterate limit n]
    rfl

/-- A function of one variable is solved exactly if its settings are accepted and its loop stops
before the limit. -/
private theorem solveScalar_eq_ok_iff_endsAfter {guess x : α} {limit : Int} {s s' : σ} :
    solveScalar f guess margin limit bounds step s = .ok x s' ↔
      Scalar.lt 0 margin = true ∧
      (∀ lo hi, bounds = some (lo, hi) → Scalar.lt hi lo = false) ∧
      ∃ j < limit.toNat,
        (scalarLoop f bounds step).EndsAfter margin j (clamp guess bounds) s x s' := by
  rw [solveScalar_eq_ok_iff, scalarIterate_eq_iterate, Loop.iterate_eq_ok_iff]

/-- **The iteration for one unknown is `Patient`.** -/
theorem patient_solveScalar [Scalar.Lawful α] {guess x : α} {limit : Int} {s s' : σ}
    (h : solveScalar f guess margin limit bounds step s = .ok x s') :
    (scalarLoop f bounds step).Patient
      (fun margin limit => solveScalar f guess margin limit bounds step s) margin limit
      (clamp guess bounds) s x s' :=
  Loop.patient (fun _ _ _ _ => solveScalar_eq_ok_iff_endsAfter) h

end

/-! ### Systems -/

section

variable [Scalar α] {rs : List (Residual ν α σ)} {bounds : Bounds ν α}

/-- The loop for a system. -/
def systemLoop (rs : List (Residual ν α σ)) (cfg : Config α) (bounds : Bounds ν α) :
    Loop (Assignment ν α) (List α) α σ where
  evaluate x := evaluateAll x rs
  size := Scalar.maxAbs
  update := systemUpdate rs cfg bounds

private theorem systemIterate_eq_iterate (cfg : Config α) :
    ∀ (n : Nat) (last : Option α) (x : Assignment ν α), systemIterate rs cfg bounds n last x =
      (systemLoop rs cfg bounds).iterate cfg.margin cfg.limit n last x
  | 0, _, _ => rfl
  | n + 1, _, x => by
    rw [systemIterate, Loop.iterate]
    simp only [systemIterate_eq_iterate cfg n]
    rfl

/-- The `Loop` of a system does not look at margin and limit. -/
private theorem systemLoop_congr (cfg : Config α) (margin : α) (limit : Int) :
    systemLoop rs { cfg with margin := margin, limit := limit } bounds =
      systemLoop rs cfg bounds := by
  -- Neither the search nor the Jacobian looks at the margin or the limit.
  have hupdate : systemUpdate rs { cfg with margin := margin, limit := limit } bounds =
      systemUpdate rs cfg bounds := rfl
  rw [systemLoop, systemLoop, hupdate]

/-- A system is solved exactly if its settings are accepted and its loop stops before the limit. -/
private theorem solveSystem_eq_ok_iff_endsAfter {guess x : Assignment ν α} {cfg : Config α}
    {s s' : σ} : solveSystem rs guess cfg bounds s = .ok x s' ↔
      Scalar.lt 0 cfg.margin = true ∧ rs.length = guess.length ∧
      ∃ j < cfg.limit.toNat, (systemLoop rs cfg bounds).EndsAfter cfg.margin j
        (guess.map fun u => (u.1, clamp u.2 (bounds u.1))) s x s' := by
  rw [solveSystem_eq_ok_iff, systemIterate_eq_iterate, Loop.iterate_eq_ok_iff]

/-- **The iteration for a system is `Patient`**, damped or not. -/
theorem patient_solveSystem [Scalar.Lawful α] {guess x : Assignment ν α} {cfg : Config α} {s s' : σ}
    (h : solveSystem rs guess cfg bounds s = .ok x s') :
    (systemLoop rs cfg bounds).Patient
      (fun margin limit =>
        solveSystem rs guess { cfg with margin := margin, limit := limit } bounds s)
      cfg.margin cfg.limit (guess.map fun u => (u.1, clamp u.2 (bounds u.1))) s x s' :=
  Loop.patient (fun margin limit _ _ => by
    rw [solveSystem_eq_ok_iff_endsAfter, systemLoop_congr cfg margin limit]) h

end

end FluxBalance.Newton
