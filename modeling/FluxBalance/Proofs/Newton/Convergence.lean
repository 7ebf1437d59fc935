import FluxBalance.Proofs.DenseMatrix.Entries
import FluxBalance.Proofs.Newton.Search

/-!
# What an iteration returns

If Newton's method for a system returns a point, the point lists the unknowns of the guess and all
residuals have been evaluated at it in a row, to finite values of which the largest magnitude is
below the margin. Whatever property of the state the residuals keep, the whole iteration keeps,
however it ends.

## Main definitions and results

* `Over`, `ResidualsKeep`: points with given unknowns, and residuals that keep a property of the
  state at such points;
* `keeps_solveSystem`: what the residuals keep, the iteration keeps;
* `Converged`, `converged_of_solveSystem`: what is known of a point that is returned.
-/

namespace FluxBalance.DenseMatrix

variable {α : Type} [Scalar α]

/-- An attempt at inversion answers a matrix of the same height, whatever the outcome. -/
private theorem rows_invertSquare (A : DenseMatrix α) : A.invertSquare.2.rows = A.rows := by
  unfold invertSquare
  dsimp only
  split
  · rfl
  split
  · rfl
  split
  · split <;> rfl
  split
  · rfl
  split
  · rfl
  · split <;> rfl

/-- An attempt at inverting a square matrix answers a square matrix. -/
theorem cols_invertSquare {A : DenseMatrix α} (h : A.cols = A.rows) :
    A.invertSquare.2.cols = A.rows := by
  unfold invertSquare
  dsimp only
  split
  · exact h
  split
  · exact h
  split
  · split <;> exact h
  split
  · exact h
  split
  · exact h
  · split
    · simp [block, ofFn]
    · exact h

end FluxBalance.DenseMatrix

namespace FluxBalance.Newton

open FluxBalance.Computation

variable {ν α σ : Type} [Scalar α]

/-! ### Evaluations -/

/-- A residual is evaluated exactly if it has a finite value. -/
theorem evaluate_eq_ok_iff {r : Residual ν α σ} {x : Assignment ν α} {s s' : σ} {y : α} :
    r.evaluate x s = .ok y s' ↔ r.value x s = .ok y s' ∧ Scalar.isFinite y = true := by
  unfold Residual.evaluate
  cases r.value x s with
  | ok y' s₁ =>
    by_cases hy : Scalar.isFinite y' = true
    · simp only [hy, if_true, EStateM.Result.ok.injEq]
      constructor
      · rintro ⟨rfl, rfl⟩
        exact ⟨⟨rfl, rfl⟩, hy⟩
      · exact And.left
    · simp only [hy, EStateM.Result.ok.injEq]
      constructor
      · intro h
        cases h
      · rintro ⟨⟨rfl, rfl⟩, hfin⟩
        exact absurd hfin hy
  | error e s₁ =>
    by_cases he : e.isArithmetic = true <;> simp [he]

/-- The first residual is evaluated before the others, in the state that it leaves to them. -/
private theorem evaluateAll_cons_eq_ok {r : Residual ν α σ} {rs : List (Residual ν α σ)}
    {x : Assignment ν α} {s s' : σ} {values : List α}
    (h : evaluateAll x (r :: rs) s = .ok values s') :
    ∃ y s₁ ys, r.value x s = .ok y s₁ ∧ Scalar.isFinite y = true ∧
      evaluateAll x rs s₁ = .ok ys s' ∧ values = y :: ys := by
  unfold evaluateAll at h
  obtain ⟨y, s₁, hy, h⟩ := bind_eq_ok.mp h
  obtain ⟨ys, s₂, hys, h⟩ := bind_eq_ok.mp h
  obtain ⟨rfl, rfl⟩ := pure_eq_ok.mp h
  obtain ⟨hvalue, hfin⟩ := evaluate_eq_ok_iff.mp hy
  exact ⟨y, s₁, ys, hvalue, hfin, hys, rfl⟩

/-- The point has values for unknowns of some kind only. -/
def Over (K : ν → Prop) (x : Assignment ν α) : Prop := ∀ u ∈ x, K u.1

omit [Scalar α] in
theorem over_iff_keys {K : ν → Prop} {x : Assignment ν α} :
    Over K x ↔ ∀ k ∈ x.map Prod.fst, K k := by
  simp [Over]

omit [Scalar α] in
theorem keys_setAt (x : Assignment ν α) (j : Nat) (value : α) :
    (setAt x j value).map Prod.fst = x.map Prod.fst := by
  refine List.ext_getElem? fun i => ?_
  rw [setAt, List.getElem?_map, List.getElem?_map, List.getElem?_modify]
  split <;> cases x[i]? <;> rfl

omit [Scalar α] in
theorem over_setAt {K : ν → Prop} {x : Assignment ν α} (h : Over K x) (j : Nat) (value : α) :
    Over K (setAt x j value) := by
  rw [over_iff_keys] at h ⊢
  rwa [keys_setAt]

theorem over_moveBy {K : ν → Prop} {x : Assignment ν α} (h : Over K x) (bounds : Bounds ν α)
    (update : List α) (length : α) : Over K (moveBy bounds x update length) := by
  intro u hu
  obtain ⟨⟨v, d⟩, hv, rfl⟩ := List.mem_map.mp hu
  exact h v (List.of_mem_zip hv).1

theorem over_clamped {K : ν → Prop} {guess : Assignment ν α} (h : Over K guess)
    (bounds : Bounds ν α) :
    Over K (guess.map fun u => (u.1, clamp u.2 (bounds u.1))) := by
  intro u hu
  obtain ⟨v, hv, rfl⟩ := List.mem_map.mp hu
  exact h v hv

omit [Scalar α] in
theorem over_true (x : Assignment ν α) : Over (fun _ => True) x := fun _ _ => trivial

/-- Every residual keeps a property of the state, at every point with values for the given
unknowns only. -/
def ResidualsKeep (P : σ → Prop) (K : ν → Prop) (rs : List (Residual ν α σ)) : Prop :=
  ∀ r ∈ rs, ∀ x, Over K x → Keeps P (r.value x)

omit [Scalar α] in
/-- Every residual keeps the property that all states have. -/
theorem residualsKeep_true (rs : List (Residual ν α σ)) :
    ResidualsKeep (fun _ => True) (fun _ => True) rs := fun _ _ _ _ _ _ => trivial

section

variable {P : σ → Prop} {K : ν → Prop} {rs : List (Residual ν α σ)}

/-- Evaluating a residual keeps what the residual keeps. -/
theorem keeps_evaluate {r : Residual ν α σ} {x : Assignment ν α} (h : Keeps P (r.value x)) :
    Keeps P (r.evaluate x) := by
  intro s hs
  have hr := h s hs
  unfold Residual.evaluate
  cases hv : r.value x s with
  | ok y s₁ =>
    rw [hv] at hr
    dsimp only
    split <;> exact hr
  | error e s₁ =>
    rw [hv] at hr
    dsimp only
    split <;> exact hr

theorem keeps_evaluateAll {x : Assignment ν α} (hx : Over K x) :
    ∀ {rs : List (Residual ν α σ)}, ResidualsKeep P K rs → Keeps P (evaluateAll x rs)
  | [], _ => .pure _
  | r :: _, h =>
    .bind (keeps_evaluate (h r List.mem_cons_self x hx)) fun _ =>
      .bind (keeps_evaluateAll hx fun q hq => h q (List.mem_cons_of_mem r hq)) fun _ => .pure _

/-- In an evaluation of all residuals each contributes a finite value in its place, and it is
evaluated in a state with the property. -/
theorem getElem?_of_evaluateAll {x : Assignment ν α} (hx : Over K x) :
    ∀ {rs : List (Residual ν α σ)} {s s' : σ} {values : List α} {i : Nat} {r : Residual ν α σ},
      ResidualsKeep P K rs → P s → evaluateAll x rs s = .ok values s' → rs[i]? = some r →
      ∃ s₀ y s₁, P s₀ ∧ r.value x s₀ = .ok y s₁ ∧ Scalar.isFinite y = true ∧ values[i]? = some y
  | q :: rs, s, s', values, i, r, hkeep, hs, h, hi => by
    obtain ⟨y, s₁, ys, hy, hfin, hys, rfl⟩ := evaluateAll_cons_eq_ok h
    cases i with
    | zero =>
      obtain rfl : q = r := Option.some.inj hi
      exact ⟨s, y, s₁, hs, hy, hfin, rfl⟩
    | succ i =>
      have hs₁ : P s₁ := (hkeep q List.mem_cons_self x hx).of_ok hs hy
      have hi : rs[i]? = some r := hi
      obtain ⟨s₂, z, s₃, hs₂, hz, hzfin, hplace⟩ := getElem?_of_evaluateAll hx
        (fun r hr => hkeep r (List.mem_cons_of_mem q hr)) hs₁ hys hi
      exact ⟨s₂, z, s₃, hs₂, hz, hzfin, hplace⟩

/-- All residuals have values with a property if each of them has a finite value with it, in
whatever state it is evaluated. -/
theorem exists_evaluateAll {Q : α → Prop} {x : Assignment ν α} (hx : Over K x) :
    ∀ {rs : List (Residual ν α σ)}, ResidualsKeep P K rs →
      (∀ r ∈ rs, ∀ s, P s → ∃ y s', r.value x s = .ok y s' ∧ Scalar.isFinite y = true ∧ Q y) →
      ∀ {s : σ}, P s → ∃ values s', evaluateAll x rs s = .ok values s' ∧ ∀ y ∈ values, Q y
  | [], _, _, s, _ => ⟨[], s, rfl, nofun⟩
  | r :: rs, hkeep, h, s, hs => by
    obtain ⟨hr, hrs⟩ := List.forall_mem_cons.mp h
    obtain ⟨y, s₁, hy, hfin, hQ⟩ := hr s hs
    have hs₁ : P s₁ := (hkeep r List.mem_cons_self x hx).of_ok hs hy
    obtain ⟨values, s', hvalues, hall⟩ := exists_evaluateAll hx
      (fun q hq => hkeep q (List.mem_cons_of_mem r hq)) hrs hs₁
    refine ⟨y :: values, s', ?_, List.forall_mem_cons.mpr ⟨hQ, hall⟩⟩
    exact bind_eq_ok.mpr ⟨y, s₁, evaluate_eq_ok_iff.mpr ⟨hy, hfin⟩,
      bind_eq_ok.mpr ⟨values, s', hvalues, rfl⟩⟩

/-- The values of an evaluation are finite. -/
theorem isFinite_of_evaluateAll {x : Assignment ν α} :
    ∀ {rs : List (Residual ν α σ)} {s s' : σ} {values : List α},
      evaluateAll x rs s = .ok values s' → ∀ y ∈ values, Scalar.isFinite y = true
  | [], _, _, _, h => by
    obtain ⟨rfl, -⟩ := pure_eq_ok.mp h
    simp
  | r :: rs, s, s', values, h => by
    obtain ⟨y, s₁, ys, -, hfin, hys, rfl⟩ := evaluateAll_cons_eq_ok h
    intro z hz
    rcases List.mem_cons.mp hz with rfl | hz
    · exact hfin
    · exact isFinite_of_evaluateAll hys z hz

/-! ### The next point -/

/-- An update has as many entries as the inverse has rows. -/
theorem length_newtonUpdate {inverse : DenseMatrix α} {values : List α} :
    (newtonUpdate inverse values).length = inverse.rows := by
  unfold newtonUpdate
  rw [DenseMatrix.toList_of_cols_eq_one rfl]
  simp [DenseMatrix.neg, DenseMatrix.times]

/-- Moving a point by `moveBy` keeps the keys if the update is as long as the point. -/
theorem keys_moveBy {bounds : Bounds ν α} {x : Assignment ν α} {update : List α} {length : α}
    (h : update.length = x.length) :
    (moveBy bounds x update length).map Prod.fst = x.map Prod.fst := by
  unfold moveBy
  rw [List.map_map]
  calc _ = ((x.zip update).map Prod.fst).map Prod.fst := by rw [List.map_map]; rfl
    _ = x.map Prod.fst := by rw [List.map_fst_zip (Nat.le_of_eq h.symm)]

/-- An update has an entry for each residual. -/
theorem length_update_of_jacobian {rs : List (Residual ν α σ)} {step : α} {x : Assignment ν α}
    {J : DenseMatrix α} {s s' : σ} (h : jacobian rs step x s = .ok J s') (values : List α) :
    (newtonUpdate J.invertSquare.2 values).length = rs.length := by
  obtain ⟨columns, s₁, -, h⟩ := bind_eq_ok.mp h
  obtain ⟨rfl, -⟩ := pure_eq_ok.mp h
  rw [length_newtonUpdate, DenseMatrix.rows_invertSquare]
  rfl

/-- A search ends at a multiple of the update or stays where it is. -/
private theorem SearchEnds.eq_or_eq_moveBy {rs : List (Residual ν α σ)} {bounds : Bounds ν α}
    {x x' : Assignment ν α} {update : List α} {target shorten length : α} {s s' : σ}
    (h : SearchEnds rs bounds x update target shorten length s (.ok x' s')) :
    x' = x ∨ ∃ length, x' = moveBy bounds x update length := by
  generalize hr : EStateM.Result.ok x' s' = r at h
  induction h with
  | accepted | exhausted =>
    cases hr
    exact .inr ⟨_, rfl⟩
  | passedOver _ _ _ _ ih => exact ih hr
  | failed => cases hr
  | undefined =>
    cases hr
    exact .inl rfl

/-- The next point is a multiple of an update away, which has an entry for each residual. -/
theorem systemUpdate_eq_ok {rs : List (Residual ν α σ)} {cfg : Config α} {bounds : Bounds ν α}
    {x x' : Assignment ν α} {values : List α} {s s' : σ}
    (h : systemUpdate rs cfg bounds x values s = .ok x' s') :
    x' = x ∨ ∃ update length, update.length = rs.length ∧ x' = moveBy bounds x update length := by
  obtain ⟨J, s₁, hJ, h⟩ := bind_eq_ok.mp h
  have hupdate := length_update_of_jacobian hJ values
  obtain ⟨-, h⟩ := guard_eq_ok.mp h
  dsimp only at h
  split at h
  · rcases (searchEnds_of_search_eq_ok h).eq_or_eq_moveBy with h | ⟨length, h⟩
    · exact .inl h
    · exact .inr ⟨_, length, hupdate, h⟩
  · obtain ⟨rfl, -⟩ := pure_eq_ok.mp h
    exact .inr ⟨_, 1, hupdate, rfl⟩

theorem keys_systemUpdate {rs : List (Residual ν α σ)} {cfg : Config α} {bounds : Bounds ν α}
    {x x' : Assignment ν α} {values : List α} {s s' : σ} (hlen : rs.length = x.length)
    (h : systemUpdate rs cfg bounds x values s = .ok x' s') :
    x'.map Prod.fst = x.map Prod.fst := by
  rcases systemUpdate_eq_ok h with rfl | ⟨update, length, hupdate, rfl⟩
  · rfl
  · exact keys_moveBy (hupdate.trans hlen)

/-- The next point is over the keys of the point before. -/
theorem over_systemUpdate {K : ν → Prop} {rs : List (Residual ν α σ)} {cfg : Config α}
    {bounds : Bounds ν α} {x x' : Assignment ν α} (hx : Over K x) {values : List α} {s s' : σ}
    (h : systemUpdate rs cfg bounds x values s = .ok x' s') : Over K x' := by
  rcases systemUpdate_eq_ok h with rfl | ⟨update, length, -, rfl⟩
  · exact hx
  · exact over_moveBy hx bounds update length

/-! ### What the iteration keeps -/

omit [Scalar α] in
theorem lift_eq_ok_iff {β : Type} {r : Except (Error α) β} {b : β} {s s' : σ} :
    (lift r : EStateM (Error α) σ β) s = .ok b s' ↔ r = .ok b ∧ s = s' := by
  cases r with
  | ok b' =>
    rw [lift, pure_eq_ok, Except.ok.injEq]
  | error e =>
    constructor
    · intro h
      cases h
    · rintro ⟨⟨⟩, -⟩

omit [Scalar α] in
theorem leaves_lift {β : Type} (r : Except (Error α) β) :
    Leaves (lift r : EStateM (Error α) σ β) := by
  cases r <;> intro s <;> rfl

/-- Computing difference quotients keeps every property. -/
theorem keeps_quotients (step xj : α) : ∀ ps : List (α × α), Keeps P
    (ps.mapM fun p => (lift (divide (p.1 - p.2) (Scalar.two * absoluteStep xj step)) :
      EStateM (Error α) σ α))
  | [] => .pure _
  | p :: ps => by
    rw [List.mapM_cons]
    exact .bind ((leaves_lift _).keeps P) fun _ =>
      .bind (keeps_quotients step xj ps) fun _ => .pure _

theorem keeps_jacobianColumn (h : ResidualsKeep P K rs) (step : α) {x : Assignment ν α}
    (hx : Over K x) (j : Nat) (xj : α) : Keeps P (jacobianColumn rs step x j xj) :=
  .bind (keeps_evaluateAll (over_setAt hx j _) h) fun _ =>
    .bind (keeps_evaluateAll (over_setAt hx j _) h) fun _ => keeps_quotients step xj _

theorem keeps_jacobianColumns (h : ResidualsKeep P K rs) (step : α) {x : Assignment ν α}
    (hx : Over K x) :
    ∀ j ys, Keeps P (jacobianColumns rs step x j ys)
  | _, [] => .pure _
  | j, (_, xj) :: rest =>
    .bind (keeps_jacobianColumn h step hx j xj) fun _ =>
      .bind (keeps_jacobianColumns h step hx (j + 1) rest) fun _ => .pure _

theorem keeps_trialResidual (h : ResidualsKeep P K rs) {x : Assignment ν α} (hx : Over K x) :
    Keeps P (trialResidual rs x) := by
  intro s hs
  have hall := keeps_evaluateAll hx h s hs
  unfold trialResidual
  cases he : evaluateAll x rs s with
  | ok values s₁ =>
    rw [he] at hall
    exact hall
  | error e s₁ =>
    rw [he] at hall
    cases e <;> exact hall

/-- However a search ends, its trials keep what the residuals keep. -/
theorem SearchEnds.keeps (h : ResidualsKeep P K rs) {bounds : Bounds ν α} {x : Assignment ν α}
    (hx : Over K x) {update : List α} {target shorten length : α} {s : σ}
    {r : EStateM.Result (Error α) σ (Assignment ν α)}
    (hends : SearchEnds rs bounds x update target shorten length s r) :
    P s → P (finalState r) := by
  have htrials (length : α) := keeps_trialResidual h (over_moveBy hx bounds update length)
  induction hends with
  | accepted _ htrial => exact fun hs => (htrials _).of_ok hs htrial
  | passedOver _ htrial _ _ ih => exact fun hs => ih ((htrials _).of_ok hs htrial)
  | failed _ htrial => exact fun hs => (htrials _).of_error hs htrial
  | exhausted => exact id
  | undefined => exact id

/-- The line search, `search`, keeps what the residuals keep, also where it never ends. -/
private theorem keeps_search (h : ResidualsKeep P K rs) (cfg : Config α) (bounds : Bounds ν α)
    {x : Assignment ν α} (hx : Over K x) (update : List α) (worst : α) :
    Keeps P (search rs cfg bounds x update worst) := by
  intro s hs
  rcases search_cases rs cfg bounds x update worst s with hends | ⟨-, hendless⟩
  · exact hends.keeps h hx hs
  · rwa [hendless]

theorem keeps_systemUpdate (h : ResidualsKeep P K rs) (cfg : Config α) (bounds : Bounds ν α)
    {x : Assignment ν α} (hx : Over K x) (values : List α) :
    Keeps P (systemUpdate rs cfg bounds x values) := by
  refine .bind (.bind (keeps_jacobianColumns h cfg.step hx 0 x) fun _ => .pure _) fun J => ?_
  have hmove : ∀ update : List α, Keeps P
      (if cfg.damping = true then
        search rs cfg bounds x update (Scalar.maxAbs values)
      else pure (moveBy bounds x update 1)) := by
    intro update
    split
    · exact keeps_search h cfg bounds hx update _
    · exact .pure _
  dsimp only
  split
  · exact .bind (.throw _) fun _ => hmove _
  · exact hmove _

private theorem keeps_systemIterate (h : ResidualsKeep P K rs) (cfg : Config α)
    (bounds : Bounds ν α) : ∀ {n : Nat} {last : Option α} {x : Assignment ν α}, Over K x →
      Keeps P (systemIterate rs cfg bounds n last x)
  | 0, _, _, _ => .throw _
  | n + 1, _, x, hx => by
    refine .bind (keeps_evaluateAll hx h) fun values => ?_
    dsimp only
    split
    · exact .pure _
    · exact .bind_of_ok (keeps_systemUpdate h cfg bounds hx values) fun next hnext => by
        obtain ⟨s, s', hnext⟩ := hnext
        exact keeps_systemIterate h cfg bounds (over_systemUpdate hx hnext)

/-- **What the residuals keep, the iteration keeps**, however it ends. -/
theorem keeps_solveSystem (h : ResidualsKeep P K rs) {guess : Assignment ν α}
    (hguess : Over K guess) (cfg : Config α) (bounds : Bounds ν α) :
    Keeps P (solveSystem rs guess cfg bounds) := by
  have hstart := over_clamped hguess bounds
  refine .bind ((leaves_lift _).keeps P) fun _ => ?_
  dsimp only
  split
  · exact .bind (.throw _) fun _ => keeps_systemIterate h cfg bounds hstart
  · exact keeps_systemIterate h cfg bounds hstart

end

/-! ### Starting -/

theorem checkMargin_eq_ok_iff {margin : α} :
    checkMargin margin = .ok () ↔ Scalar.lt 0 margin = true := by
  unfold checkMargin
  split <;> simp_all

/-- A system is solved if its margin is positive, there are as many residuals as unknowns, and the
iteration from the guess, moved into the bounds, returns a point. -/
theorem solveSystem_eq_ok_iff {rs : List (Residual ν α σ)} {guess x : Assignment ν α}
    {cfg : Config α} {bounds : Bounds ν α} {s s' : σ} :
    solveSystem rs guess cfg bounds s = .ok x s' ↔
      Scalar.lt 0 cfg.margin = true ∧ rs.length = guess.length ∧
        systemIterate rs cfg bounds cfg.limit.toNat none
          (guess.map fun u => (u.1, clamp u.2 (bounds u.1))) s = .ok x s' := by
  rw [← checkMargin_eq_ok_iff]
  simp only [solveSystem, bind_eq_ok, lift_eq_ok_iff, guard_eq_ok, ne_eq, not_not]
  constructor
  · rintro ⟨_, _, ⟨hmargin, rfl⟩, h⟩
    exact ⟨hmargin, h⟩
  · rintro ⟨hmargin, h⟩
    exact ⟨(), s, ⟨hmargin, rfl⟩, h⟩

/-- With a positive margin and as many residuals as unknowns, the iteration starts from the guess,
moved into the bounds. -/
theorem solveSystem_eq_systemIterate {rs : List (Residual ν α σ)} {guess : Assignment ν α}
    {cfg : Config α} {bounds : Bounds ν α} (hmargin : Scalar.lt 0 cfg.margin = true)
    (hlen : rs.length = guess.length) (s : σ) :
    solveSystem rs guess cfg bounds s = systemIterate rs cfg bounds cfg.limit.toNat none
      (guess.map fun u => (u.1, clamp u.2 (bounds u.1))) s := by
  have hcheck : checkMargin cfg.margin = .ok () := checkMargin_eq_ok_iff.mpr hmargin
  rw [solveSystem, hcheck, bind_apply]
  dsimp only [lift, pure, EStateM.pure]
  rw [if_neg (not_not_intro hlen)]

/-- Nothing is solved with a margin that is not positive. -/
theorem margin_pos_of_solveSystem {rs : List (Residual ν α σ)} {guess x : Assignment ν α}
    {cfg : Config α} {bounds : Bounds ν α} {s s' : σ}
    (h : solveSystem rs guess cfg bounds s = .ok x s') : Scalar.lt 0 cfg.margin = true :=
  (solveSystem_eq_ok_iff.mp h).1

/-! ### Convergence -/

/-- What is known of a point that an iteration returns: it has the given unknowns, and all
residuals have been evaluated at it to finite values whose largest magnitude is below the
margin. -/
structure Converged (P : σ → Prop) (rs : List (Residual ν α σ)) (margin : α) (keys : List ν)
    (x : Assignment ν α) (s' : σ) : Prop where
  keys : x.map Prod.fst = keys
  values : ∃ s values, P s ∧ evaluateAll x rs s = .ok values s' ∧
    Scalar.lt (Scalar.maxAbs values) margin = true

variable {P : σ → Prop} {K : ν → Prop} {rs : List (Residual ν α σ)}

private theorem converged_of_systemIterate (hkeep : ResidualsKeep P K rs) {cfg : Config α}
    {bounds : Bounds ν α} :
    ∀ {n : Nat} {last : Option α} {x x' : Assignment ν α} {s s' : σ}, P s → Over K x →
      rs.length = x.length → systemIterate rs cfg bounds n last x s = .ok x' s' →
      Converged P rs cfg.margin (x.map Prod.fst) x' s'
  | 0, _, _, _, _, _, _, _, _, h => by cases h
  | n + 1, _, x, x', s, s', hs, hx, hlen, h => by
    obtain ⟨values, s₁, hvalues, h⟩ := bind_eq_ok.mp h
    split at h
    · rename_i hlt
      obtain ⟨rfl, rfl⟩ := pure_eq_ok.mp h
      exact ⟨rfl, s, values, hs, hvalues, hlt⟩
    · obtain ⟨next, s₂, hnext, h⟩ := bind_eq_ok.mp h
      -- The next point has the same unknowns, and the state still has the property.
      have hkeys := keys_systemUpdate hlen hnext
      have hs₁ : P s₁ := (keeps_evaluateAll hx hkeep).of_ok hs hvalues
      have hs₂ : P s₂ := (keeps_systemUpdate hkeep cfg bounds hx values).of_ok hs₁ hnext
      have hlen' : rs.length = next.length := by
        simpa [hlen] using (congrArg List.length hkeys).symm
      rw [← hkeys]
      exact converged_of_systemIterate hkeep hs₂ (over_systemUpdate hx hnext) hlen' h

/-- **A point that is returned has `Converged`.** -/
theorem converged_of_solveSystem (hkeep : ResidualsKeep P K rs) {guess x : Assignment ν α}
    (hguess : Over K guess) {cfg : Config α} {bounds : Bounds ν α} {s s' : σ} (hs : P s)
    (h : solveSystem rs guess cfg bounds s = .ok x s') :
    Converged P rs cfg.margin (guess.map Prod.fst) x s' := by
  obtain ⟨-, hlen, h⟩ := solveSystem_eq_ok_iff.mp h
  have hconv := converged_of_systemIterate hkeep hs (over_clamped hguess bounds)
    (by simpa using hlen) h
  rw [List.map_map] at hconv
  exact hconv

/-! ### Iterations without bounds -/

section

variable {guess next : Assignment ν α} {cfg : Config α} {s s₁ s₂ s' : σ} {values values' : List α}
  (hmargin : Scalar.lt 0 cfg.margin = true) (hlen : rs.length = guess.length)

include hmargin hlen

/-- Without bounds, the iteration starts from the guess itself. -/
private theorem solveSystem_unbounded : solveSystem rs guess cfg (fun _ => none) s =
    systemIterate rs cfg (fun _ => none) cfg.limit.toNat none guess s := by
  have hclamped : (guess.map fun u => (u.1, clamp u.2 none)) = guess := List.map_id' guess
  rw [solveSystem_eq_systemIterate hmargin hlen, hclamped]

/-- An unbounded iteration that starts where all residuals are small returns its start. -/
theorem solveSystem_of_small (hlimit : 1 ≤ cfg.limit)
    (hvalues : evaluateAll guess rs s = .ok values s')
    (hsmall : Scalar.lt (Scalar.maxAbs values) cfg.margin = true) :
    solveSystem rs guess cfg (fun _ => none) s = .ok guess s' := by
  obtain ⟨n, hn⟩ : ∃ n, cfg.limit.toNat = n + 1 := ⟨cfg.limit.toNat - 1, by omega⟩
  rw [solveSystem_unbounded hmargin hlen, hn, systemIterate, bind_apply, hvalues]
  dsimp only
  rw [if_pos hsmall]
  rfl

variable (hvalues : evaluateAll guess rs s = .ok values s₁)
  (hlarge : ¬Scalar.lt (Scalar.maxAbs values) cfg.margin = true)

include hvalues hlarge

/-- If the residuals are small one update after the guess, the point there is returned. -/
theorem solveSystem_of_update (hlimit : 2 ≤ cfg.limit)
    (hnext : systemUpdate rs cfg (fun _ => none) guess values s₁ = .ok next s₂)
    (hvalues' : evaluateAll next rs s₂ = .ok values' s')
    (hsmall : Scalar.lt (Scalar.maxAbs values') cfg.margin = true) :
    solveSystem rs guess cfg (fun _ => none) s = .ok next s' := by
  obtain ⟨n, hn⟩ : ∃ n, cfg.limit.toNat = n + 2 := ⟨cfg.limit.toNat - 2, by omega⟩
  rw [solveSystem_unbounded hmargin hlen, hn, systemIterate, bind_apply, hvalues]
  dsimp only
  rw [if_neg hlarge, bind_apply, hnext]
  dsimp only
  rw [systemIterate, bind_apply, hvalues']
  dsimp only
  rw [if_pos hsmall]
  rfl

/-- If the first update fails, the iteration fails with its error. -/
theorem solveSystem_of_update_error (hlimit : 1 ≤ cfg.limit) {e : Error α}
    (hnext : systemUpdate rs cfg (fun _ => none) guess values s₁ = .error e s₂) :
    solveSystem rs guess cfg (fun _ => none) s = .error e s₂ := by
  obtain ⟨n, hn⟩ : ∃ n, cfg.limit.toNat = n + 1 := ⟨cfg.limit.toNat - 1, by omega⟩
  rw [solveSystem_unbounded hmargin hlen, hn, systemIterate, bind_apply, hvalues]
  dsimp only
  rw [if_neg hlarge, bind_apply, hnext]

end

end FluxBalance.Newton
