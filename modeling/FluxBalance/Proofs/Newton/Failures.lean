import FluxBalance.Newton.Scalar
import FluxBalance.Proofs.Newton.Convergence

/-!
# How an iteration fails

An iteration for a system fails for reasons of its own: its settings, a residual that is not finite,
a difference quotient without a value, a Jacobian that is not inverted, or the limit. Otherwise it
passes on how a residual has failed. So whatever kind of errors contains the iteration's own and
those of the residuals at points over the given unknowns, in a state that the residuals keep,
contains all errors of the iteration; in particular these are the iteration's own if no residual
fails. The iteration for one unknown fails with errors of the domain besides.

Of the iteration's own errors, those of its settings are found out before the first iterate. A
difference quotient has no value only if the step is so small that it vanishes.

## Main definitions and results

* `IterationError`, `IterateError`, `UpdateError`: what an iteration raises itself, at all, at an
  iterate and by an update;
* `failsBy_solveSystem_of_update`: an iteration fails by its settings, by an `UpdateError` or as its
  residuals do;
* `failsBy_solveScalar_of_update`: the same for one unknown.
-/

namespace FluxBalance.Newton

open FluxBalance.Computation

variable {ν α σ : Type} [Scalar α]

/-- The errors that an iteration without damping raises itself. -/
inductive IterationError : Error α → Prop
  | margin : IterationError .margin
  | unequalCounts (equations unknowns : Nat) : IterationError (.unequalCounts equations unknowns)
  | notFinite (name : EquationName) :
    IterationError (.evaluation name (.domain .residualNotFinite))
  | divisionByZero : IterationError (.fault .divisionByZero)
  | singularJacobian (outcome : InversionOutcome) : IterationError (.singularJacobian outcome)
  | iterationLimit (limit : Int) (last : Option α) : IterationError (.iterationLimit limit last)

/-- The errors that an iteration without damping raises itself at its iterates, where the difference
quotients are taken with the given relative step. -/
inductive IterateError (step : α) : Error α → Prop
  | notFinite (name : EquationName) :
    IterateError step (.evaluation name (.domain .residualNotFinite))
  | divisionByZero (x : α) : Scalar.eq (Scalar.two * absoluteStep x step) 0 = true →
    IterateError step (.fault .divisionByZero)
  | singularJacobian (outcome : InversionOutcome) : IterateError step (.singularJacobian outcome)
  | iterationLimit (limit : Int) (last : Option α) : IterateError step (.iterationLimit limit last)

/-- The errors of an iteration with these settings that do not say that a residual is not finite.
Among them is that the search of a damped iteration goes on for ever, which it does only if its
lengths do not fall. -/
inductive UpdateError (cfg : Config α) : Error α → Prop
  | divisionByZero (x : α) : Scalar.eq (Scalar.two * absoluteStep x cfg.step) 0 = true →
    UpdateError cfg (.fault .divisionByZero)
  | singularJacobian (outcome : InversionOutcome) : UpdateError cfg (.singularJacobian outcome)
  | iterationLimit (limit : Int) (last : Option α) : UpdateError cfg (.iterationLimit limit last)
  | endless : cfg.damping = true → ¬Falls cfg.shorten → UpdateError cfg .endless

/-- The errors that the iteration for one unknown raises itself once its margin is checked, except
that the function has no finite value. -/
inductive ScalarError (step : α) : Error α → Prop
  | divisionByZero (x : α) : Scalar.eq (Scalar.two * absoluteStep x step) 0 = true →
    ScalarError step (.fault .divisionByZero)
  | iterationLimit (limit : Int) (last : Option α) : ScalarError step (.iterationLimit limit last)
  | emptyInterval : ScalarError step (.domain .emptyInterval)
  | derivativeVanished : ScalarError step (.domain .derivativeVanished)
  | noRoot : ScalarError step (.domain .noRoot)

/-- Without damping an `UpdateError` is an `IterateError`: there is no search that could be
endless. -/
private theorem UpdateError.iterateError {cfg : Config α} (hdamping : cfg.damping = false)
    {e : Error α} (h : UpdateError cfg e) : IterateError cfg.step e := by
  cases h with
  | divisionByZero x hx => exact .divisionByZero x hx
  | singularJacobian outcome => exact .singularJacobian outcome
  | iterationLimit limit last => exact .iterationLimit limit last
  | endless hdamped =>
    rw [hdamping] at hdamped
    cases hdamped

/-- What an iterate fails with is an `IterationError`. -/
theorem IterateError.iterationError {step : α} {e : Error α} (h : IterateError step e) :
    IterationError e := by
  cases h with
  | notFinite name => exact .notFinite name
  | divisionByZero => exact .divisionByZero
  | singularJacobian outcome => exact .singularJacobian outcome
  | iterationLimit limit last => exact .iterationLimit limit last

/-- At a point with values for the given unknowns only, in a state with the property, residuals are
evaluated with errors of the given kind only. -/
def ResidualsFailBy (P : σ → Prop) (Q : Error α → Prop) (K : ν → Prop)
    (rs : List (Residual ν α σ)) : Prop :=
  ∀ r ∈ rs, ∀ x, Over K x → FailsBy P Q (r.evaluate x)

variable {P : σ → Prop} {Q : Error α → Prop} {K : ν → Prop} {rs : List (Residual ν α σ)}
  {x : Assignment ν α}

/-! ### Evaluations -/

/-- A residual fails by not being finite or as its function fails; what its function fails with is
wrapped if it is arithmetic. -/
theorem failsBy_evaluate {r : Residual ν α σ}
    (hfinite : Q (.evaluation r.name (.domain .residualNotFinite)))
    (h : FailsBy P (fun e => Q (if e.isArithmetic then .evaluation r.name e else e)) (r.value x)) :
    FailsBy P Q (r.evaluate x) := by
  intro s hs e s' he
  unfold Residual.evaluate at he
  cases hr : r.value x s with
  | ok y s₁ =>
    rw [hr] at he
    dsimp only at he
    split at he
    · cases he
    · cases he
      exact hfinite
  | error cause s₁ =>
    have hcause := h s hs cause s₁ hr
    rw [hr] at he
    dsimp only at he hcause
    split at he <;> rename_i harith
    · cases he
      rwa [if_pos harith] at hcause
    · cases he
      rwa [if_neg harith] at hcause

/-- Evaluating all residuals fails as one of them does. -/
private theorem failsBy_evaluateAll (hx : Over K x) :
    ∀ {rs : List (Residual ν α σ)}, ResidualsKeep P K rs → ResidualsFailBy P Q K rs →
      FailsBy P Q (evaluateAll x rs)
  | [], _, _ => .pure _
  | r :: _, hkeep, hrs =>
    .bind (hrs r List.mem_cons_self x hx)
      (keeps_evaluate (hkeep r List.mem_cons_self x hx)) fun _ =>
      .bind (failsBy_evaluateAll hx (fun q hq => hkeep q (List.mem_cons_of_mem r hq))
          fun q hq => hrs q (List.mem_cons_of_mem r hq))
        (keeps_evaluateAll hx fun q hq => hkeep q (List.mem_cons_of_mem r hq)) fun _ => .pure _

/-- A difference quotient fails only if its step vanishes. -/
private theorem failsBy_quotient {step : α} (hzero : ∀ x,
    Scalar.eq (Scalar.two * absoluteStep x step) 0 = true → Q (.fault .divisionByZero)) (a x : α) :
    FailsBy P Q (lift (divide a (Scalar.two * absoluteStep x step)) : EStateM (Error α) σ α) := by
  unfold divide
  split
  · rename_i hx
    exact .throw (hzero x hx)
  · exact .pure _

/-- Difference quotients fail only if the step vanishes. -/
private theorem failsBy_quotients {step : α} (hzero : ∀ x,
    Scalar.eq (Scalar.two * absoluteStep x step) 0 = true → Q (.fault .divisionByZero)) (xj : α) :
    ∀ ps : List (α × α), FailsBy P Q
      (ps.mapM fun p => (lift (divide (p.1 - p.2) (Scalar.two * absoluteStep xj step)) :
        EStateM (Error α) σ α))
  | [] => .pure _
  | p :: ps => by
    rw [List.mapM_cons]
    exact .bind (failsBy_quotient hzero _ _) ((leaves_lift _).keeps P) fun _ =>
      .bind (failsBy_quotients hzero xj ps) (keeps_quotients step xj ps) fun _ => .pure _

/-- A margin that is not positive is the only one that is refused. -/
private theorem failsBy_checkMargin (hmargin : Q .margin) (margin : α) :
    FailsBy P Q (lift (checkMargin margin) : EStateM (Error α) σ Unit) := by
  unfold checkMargin
  split
  · exact .pure _
  · exact .throw hmargin

/-! ### Updates -/

section

variable (hkeep : ResidualsKeep P K rs) (hrs : ResidualsFailBy P Q K rs) (hx : Over K x)

include hkeep hrs hx

private theorem failsBy_jacobianColumn {step : α} (hzero : ∀ x,
    Scalar.eq (Scalar.two * absoluteStep x step) 0 = true → Q (.fault .divisionByZero)) (j : Nat)
    (xj : α) : FailsBy P Q (jacobianColumn rs step x j xj) :=
  .bind (failsBy_evaluateAll (over_setAt hx j _) hkeep hrs)
    (keeps_evaluateAll (over_setAt hx j _) hkeep) fun _ =>
    .bind (failsBy_evaluateAll (over_setAt hx j _) hkeep hrs)
      (keeps_evaluateAll (over_setAt hx j _) hkeep) fun _ => failsBy_quotients hzero xj _

private theorem failsBy_jacobianColumns {step : α} (hzero : ∀ x,
    Scalar.eq (Scalar.two * absoluteStep x step) 0 = true → Q (.fault .divisionByZero)) :
    ∀ j ys, FailsBy P Q (jacobianColumns rs step x j ys)
  | _, [] => .pure _
  | j, (_, xj) :: rest =>
    .bind (failsBy_jacobianColumn hkeep hrs hx hzero j xj)
      (keeps_jacobianColumn hkeep step hx j xj) fun _ =>
        .bind (failsBy_jacobianColumns hzero (j + 1) rest)
          (keeps_jacobianColumns hkeep step hx (j + 1) rest) fun _ => .pure _

omit hx in
private theorem failsBy_trialResidual {x : Assignment ν α} (hx : Over K x) :
    FailsBy P Q (trialResidual rs x) := by
  intro s hs e s' he
  have hall := failsBy_evaluateAll hx hkeep hrs s hs
  unfold trialResidual at he
  cases hr : evaluateAll x rs s with
  | ok values s₁ =>
    rw [hr] at he
    cases he
  | error cause s₁ =>
    have hcause := hall cause s₁ hr
    rw [hr] at he
    split at he
    · cases he
    · cases he
    · rename_i heq
      cases he
      cases heq
      exact hcause

/-- A search that ends with an error has been failed by a trial. -/
theorem SearchEnds.errs {bounds : Bounds ν α} {update : List α} {target shorten length : α} {s : σ}
    {r : EStateM.Result (Error α) σ (Assignment ν α)}
    (hends : SearchEnds rs bounds x update target shorten length s r) :
    P s → ∀ e s', r = .error e s' → Q e := by
  have htrials (length : α) := over_moveBy hx bounds update length
  induction hends with
  | accepted => exact fun _ _ _ h => by cases h
  | passedOver _ htrial _ _ ih =>
    exact fun hs => ih ((keeps_trialResidual hkeep (htrials _)).of_ok hs htrial)
  | failed _ htrial =>
    rintro hs _ _ ⟨⟩
    exact failsBy_trialResidual hkeep hrs (htrials _) _ hs _ _ htrial
  | exhausted => exact fun _ _ _ h => by cases h
  | undefined => exact fun _ _ _ h => by cases h

/-- The line search fails as the residuals do, or it is `endless` because the lengths do not
fall. -/
private theorem failsBy_search {cfg : Config α} (hendless : ¬Falls cfg.shorten → Q .endless)
    (bounds : Bounds ν α) (update : List α) (worst : α) :
    FailsBy P Q (search rs cfg bounds x update worst) := by
  intro s hs e s' he
  rcases search_cases rs cfg bounds x update worst s with hends | ⟨hnever, hsearch⟩
  · exact hends.errs hkeep hrs hx hs e s' he
  · -- If the lengths fell, the search would end.
    rw [hsearch] at he
    cases he
    refine hendless fun hfalls => ?_
    obtain ⟨r, hr⟩ := hfalls.exists_searchEnds rs bounds x update (cfg.decrease * worst) s
    exact hnever r hr

private theorem failsBy_systemUpdate {cfg : Config α} (hown : ∀ e, UpdateError cfg e → Q e)
    (bounds : Bounds ν α) (values : List α) :
    FailsBy P Q (systemUpdate rs cfg bounds x values) := by
  refine .bind (.bind (failsBy_jacobianColumns hkeep hrs hx
      (fun y hy => hown _ (.divisionByZero y hy)) 0 x)
    (keeps_jacobianColumns hkeep cfg.step hx 0 x) fun _ => .pure _)
    (.bind (keeps_jacobianColumns hkeep cfg.step hx 0 x) fun _ => .pure _) fun J => ?_
  have hmove (update : List α) : FailsBy P Q
      (if cfg.damping = true then search rs cfg bounds x update (Scalar.maxAbs values)
      else pure (moveBy bounds x update 1)) := by
    split
    · rename_i hdamping
      exact failsBy_search hkeep hrs hx (fun hfalls => hown _ (.endless hdamping hfalls)) bounds
        update _
    · exact .pure _
  dsimp only
  split
  · exact .bind (.throw (hown _ (.singularJacobian _))) (.throw _) fun _ => hmove _
  · exact hmove _

end

/-! ### The iteration -/

/-- By induction on the iterates that are left: `systemIterate` fails by an `UpdateError` or as the
residuals do. -/
private theorem failsBy_systemIterate {cfg : Config α} (hown : ∀ e, UpdateError cfg e → Q e)
    (hkeep : ResidualsKeep P K rs) (hrs : ResidualsFailBy P Q K rs) (bounds : Bounds ν α) :
    ∀ {n : Nat} {last : Option α} {x : Assignment ν α}, Over K x →
      FailsBy P Q (systemIterate rs cfg bounds n last x)
  | 0, _, _, _ => .throw (hown _ (.iterationLimit _ _))
  | n + 1, _, x, hx => by
    refine .bind (failsBy_evaluateAll hx hkeep hrs) (keeps_evaluateAll hx hkeep) fun values => ?_
    dsimp only
    split
    · exact .pure _
    · refine .bind_of_ok (failsBy_systemUpdate hkeep hrs hx hown bounds values)
        (keeps_systemUpdate hkeep cfg bounds hx values) fun next hnext => ?_
      obtain ⟨s, s', -, hnext⟩ := hnext
      exact failsBy_systemIterate hown hkeep hrs bounds (over_systemUpdate hx hnext)

/-- **An iteration fails by its settings, at an update, or as its residuals do** where they are
evaluated. -/
theorem failsBy_solveSystem_of_update {guess : Assignment ν α} {cfg : Config α}
    (hmargin : Q .margin)
    (hcounts : rs.length ≠ guess.length → Q (.unequalCounts rs.length guess.length))
    (hown : ∀ e, UpdateError cfg e → Q e) (hkeep : ResidualsKeep P K rs)
    (hrs : ResidualsFailBy P Q K rs) (hguess : Over K guess) (bounds : Bounds ν α) :
    FailsBy P Q (solveSystem rs guess cfg bounds) := by
  have hstart := over_clamped hguess bounds
  refine .bind (failsBy_checkMargin hmargin cfg.margin) ((leaves_lift _).keeps P) fun _ => ?_
  dsimp only
  split
  · rename_i hne
    exact .bind (.throw (hcounts hne)) (.throw _) fun _ =>
      failsBy_systemIterate hown hkeep hrs bounds hstart
  · exact failsBy_systemIterate hown hkeep hrs bounds hstart

/-- An iteration without damping fails by its settings, at an iterate, or as its residuals do. -/
theorem failsBy_solveSystem {guess : Assignment ν α} {cfg : Config α}
    (hdamping : cfg.damping = false) (hmargin : Q .margin)
    (hcounts : rs.length ≠ guess.length → Q (.unequalCounts rs.length guess.length))
    (hown : ∀ e, IterateError cfg.step e → Q e) (hkeep : ResidualsKeep P K rs)
    (hrs : ResidualsFailBy P Q K rs) (hguess : Over K guess) (bounds : Bounds ν α) :
    FailsBy P Q (solveSystem rs guess cfg bounds) :=
  failsBy_solveSystem_of_update hmargin hcounts (fun e he => hown e (he.iterateError hdamping))
    hkeep hrs hguess bounds

/-! ### One unknown -/

section

variable {f : ScalarFunction α σ} {Q : Error α → Prop} {step : α}

/-- The value of a function is missing, or not finite, or an error of the function is passed on. -/
private theorem failsBy_evaluateAt (hdomain : ∀ cause, Q (.domain cause)) {x : α}
    (hf : FailsBy (fun _ => True) Q (f x)) : FailsBy (fun _ => True) Q (evaluateAt f x) := by
  intro s _ e s' he
  unfold evaluateAt at he
  cases hr : f x s with
  | ok y s₁ =>
    rw [hr] at he
    dsimp only at he
    split at he
    · cases he
    · cases he
      exact hdomain _
  | error cause s₁ =>
    have hcause := hf s trivial cause s₁ hr
    rw [hr] at he
    dsimp only at he
    split at he
    · cases he
      exact hcause
    · cases he
      exact hcause
    · split at he
      · cases he
        exact hdomain _
      · cases he
        exact hcause

variable (hown : ∀ e, ScalarError step e → Q e)
  (hf : ∀ x, FailsBy (fun _ => True) Q (evaluateAt f x))

include hown hf

/-- Taking a `centralDifference` fails as the function does, or because the step vanishes. -/
private theorem failsBy_centralDifference (x : α) :
    FailsBy (fun _ => True) Q (centralDifference f x step) :=
  .bind (hf _) (.true _) fun _ => .bind (hf _) (.true _) fun _ =>
    failsBy_quotient (fun y hy => hown _ (.divisionByZero y hy)) _ _

private theorem failsBy_scalarUpdate (bounds : Option (Interval α)) (x y : α) :
    FailsBy (fun _ => True) Q (scalarUpdate f bounds step x y) := by
  refine .bind (failsBy_centralDifference hown hf x) (.true _) fun slope => ?_
  have hnext : FailsBy (fun _ => True) Q (do
      if Scalar.eq (clamp (x - y / slope) bounds) x &&
          !Scalar.eq (clamp (x - y / slope) bounds) (x - y / slope) then
        throw (.domain .noRoot)
      return clamp (x - y / slope) bounds : EStateM (Error α) σ α) := by
    split
    · exact .bind (.throw (hown _ .noRoot)) (.true _) fun _ => .pure _
    · exact .pure _
  dsimp only
  split
  · exact .bind (.throw (hown _ .derivativeVanished)) (.true _) fun _ => hnext
  · exact hnext

/-- The loop `scalarIterate` fails at one of its iterates, or because the limit is exceeded. -/
private theorem failsBy_scalarIterate (margin : α) (limit : Int) (bounds : Option (Interval α)) :
    ∀ n last x,
      FailsBy (fun _ => True) Q (scalarIterate f margin limit bounds step n last x)
  | 0, _, _ => .throw (hown _ (.iterationLimit _ _))
  | n + 1, _, x => by
    refine .bind (hf x) (.true _) fun y => ?_
    split
    · exact .pure _
    · exact .bind (failsBy_scalarUpdate hown hf bounds x y) (.true _) fun next =>
        failsBy_scalarIterate margin limit bounds n _ next

/-- **An iteration for one unknown fails by itself or as its function does** where it is
evaluated. -/
theorem failsBy_solveScalar_of_update (hmargin : Q .margin) (guess margin : α) (limit : Int)
    (bounds : Option (Interval α)) :
    FailsBy (fun _ => True) Q (solveScalar f guess margin limit bounds step) := by
  have hiterate := failsBy_scalarIterate hown hf margin limit bounds limit.toNat none
    (clamp guess bounds)
  refine .bind (failsBy_checkMargin hmargin margin) (.true _) fun _ => ?_
  cases bounds with
  | none => exact hiterate
  | some interval =>
    obtain ⟨lo, hi⟩ := interval
    dsimp only
    split
    · exact .bind (.throw (hown _ .emptyInterval)) (.true _) fun _ => hiterate
    · exact hiterate

omit hown hf in
/-- An iteration for one unknown fails by itself or as its function does. -/
theorem failsBy_solveScalar (hown : ∀ e, IterateError step e → Q e)
    (hdomain : ∀ cause, Q (.domain cause)) (hf : ∀ x, FailsBy (fun _ => True) Q (f x))
    (hmargin : Q .margin) (guess margin : α) (limit : Int) (bounds : Option (Interval α)) :
    FailsBy (fun _ => True) Q (solveScalar f guess margin limit bounds step) := by
  refine failsBy_solveScalar_of_update (fun e he => ?_)
    (fun x => failsBy_evaluateAt hdomain (hf x)) hmargin guess margin limit bounds
  cases he with
  | divisionByZero x hx => exact hown _ (.divisionByZero x hx)
  | iterationLimit limit last => exact hown _ (.iterationLimit limit last)
  | emptyInterval => exact hdomain _
  | derivativeVanished => exact hdomain _
  | noRoot => exact hdomain _

end

end FluxBalance.Newton
