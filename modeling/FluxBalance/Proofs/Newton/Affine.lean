import Mathlib.Tactic.FieldSimp
import FluxBalance.Proofs.DenseMatrix.Inverse
import FluxBalance.Proofs.Newton.Stationary

/-!
# Affine systems

On affine functions of the unknowns central differences are exact, whatever the step is. So the
Jacobian that is estimated holds the coefficients, and if these have `Independent` columns, one
update leads to a point at which all residuals vanish: an undamped iteration without bounds succeeds
as soon as it may try two iterates.

The residuals are computations on a state. All that is asked of them is that they have the values of
affine functions in states with some property, and that they keep the property.

## Main definitions and results

* `Evaluates`, `affine`: residuals that have the values of affine functions;
* `jacobianColumn_of_affine`, `systemUpdate_of_affine`: difference quotients are exact, and one
  update leads to a root;
* `solveSystem_of_affine`: an undamped iteration succeeds if the columns are independent,
  `IndependentColumns`.
-/

namespace FluxBalance.Newton

open FluxBalance.Computation

variable {ν α σ : Type} [Scalar α]

/-! ### Points -/

/-- The value at a position of a point; zero where there is none. -/
def coordinate (x : Assignment ν α) (j : Nat) : α := ((x.map Prod.snd)[j]?).getD 0

/-- The `coordinate` at a position is the value that is listed there. -/
theorem coordinate_eq {x : Assignment ν α} {j : Nat} {u : ν × α} (h : x[j]? = some u) :
    coordinate x j = u.2 := by
  rw [coordinate, List.getElem?_map, h]
  rfl

private theorem coordinate_setAt {x : Assignment ν α} {j : Nat} (hj : j < x.length) (value : α)
    (k : Nat) : coordinate (setAt x j value) k = if k = j then value else coordinate x k := by
  unfold coordinate setAt
  rw [List.getElem?_map, List.getElem?_map, List.getElem?_modify]
  by_cases h : k = j
  · subst h
    simp [List.getElem?_eq_getElem hj]
  · rw [if_neg h]
    cases x[k]? <;> simp [Ne.symm h]

/-! ### Residuals with values -/

/-- In states with the property, the residuals have the values of the functions at every point with
the given unknowns, and they keep the property. -/
def Evaluates (P : σ → Prop) (keys : List ν) (rs : List (Residual ν α σ))
    (F : Nat → Assignment ν α → α) : Prop :=
  ∀ {i : Nat} {r : Residual ν α σ}, rs[i]? = some r → ∀ {x : Assignment ν α},
    x.map Prod.fst = keys → ∀ {s : σ}, P s → ∃ s', r.value x s = .ok (F i x) s' ∧ P s'

section

variable [Scalar.Exact α] {P : σ → Prop} {keys : List ν} {x : Assignment ν α}

/-- Residuals that have the values `F` are evaluated to these values. -/
theorem evaluateAll_of_evaluates (hx : x.map Prod.fst = keys) :
    ∀ {rs : List (Residual ν α σ)} {F : Nat → Assignment ν α → α} {s : σ},
      Evaluates P keys rs F → P s →
      ∃ s', evaluateAll x rs s = .ok ((List.range rs.length).map fun i => F i x) s' ∧ P s'
  | [], _, s, _, hs => ⟨s, rfl, hs⟩
  | r :: rs, F, s, h, hs => by
    obtain ⟨s₁, hr, hs₁⟩ := h (i := 0) rfl hx hs
    have htail : Evaluates P keys rs fun i => F (i + 1) := fun {i r} hi => h (i := i + 1) hi
    obtain ⟨s₂, hrs, hs₂⟩ := evaluateAll_of_evaluates hx htail hs₁
    have heval : r.evaluate x s = .ok (F 0 x) s₁ :=
      evaluate_eq_ok_iff.mpr ⟨hr, Scalar.Exact.isFinite_eq _⟩
    refine ⟨s₂, ?_, hs₂⟩
    rw [List.length_cons, List.range_succ_eq_map, List.map_cons, List.map_map]
    exact bind_eq_ok.mpr ⟨_, s₁, heval, bind_eq_ok.mpr ⟨_, s₂, hrs, rfl⟩⟩

/-! ### Affine functions -/

/-- The affine function with the coefficients of row `i`. -/
def affine (M : Nat → Nat → α) (c : Nat → α) (n i : Nat) (x : Assignment ν α) : α :=
  c i + ∑ j ∈ Finset.range n, M i j * coordinate x j

variable {M : Nat → Nat → α} {c : Nat → α}

/-- An `affine` function rises by its coefficient times the difference when one `coordinate` is
changed. -/
private theorem affine_setAt {j : Nat} (hj : j < x.length) (value : α) (i : Nat) :
    affine M c x.length i (setAt x j value) =
      affine M c x.length i x + M i j * (value - coordinate x j) := by
  have hterm : ∀ k ∈ Finset.range x.length, M i k * coordinate (setAt x j value) k =
      M i k * coordinate x k + if k = j then M i j * (value - coordinate x j) else 0 := by
    intro k _
    rw [coordinate_setAt hj]
    by_cases h : k = j
    · subst h
      rw [if_pos rfl, if_pos rfl]
      ring
    · rw [if_neg h, if_neg h, add_zero]
  unfold affine
  rw [Finset.sum_congr rfl hterm, Finset.sum_add_distrib, Finset.sum_ite_eq',
    if_pos (Finset.mem_range.mpr hj), add_assoc]

omit [Scalar α] [Scalar.Exact α] in
/-- A list of results that are all successes is a success. -/
private theorem mapM_lift_of_forall₂ {β γ : Type} {f : β → Except (Error α) γ} {ps : List β}
    {ys : List γ} (h : List.Forall₂ (fun p y => f p = .ok y) ps ys) (s : σ) :
    (ps.mapM fun p => (lift (f p) : EStateM (Error α) σ γ)) s = .ok ys s := by
  induction h with
  | nil => rfl
  | @cons p y ps ys hp _ ih =>
    rw [List.mapM_cons, hp]
    exact bind_eq_ok.mpr ⟨y, s, rfl, bind_eq_ok.mpr ⟨ys, s, ih, rfl⟩⟩

omit [Scalar α] [Scalar.Exact α] in
/-- A list of lifted results succeeds exactly if each of them does. -/
theorem mapM_lift_eq_ok_iff {β γ : Type} {f : β → Except (Error α) γ} {ps : List β} {ys : List γ}
    {s s' : σ} : (ps.mapM fun p => (lift (f p) : EStateM (Error α) σ γ)) s = .ok ys s' ↔
      List.Forall₂ (fun p y => f p = .ok y) ps ys ∧ s = s' := by
  constructor
  · intro h
    have hall := forall₂_of_mapM_lift h
    rw [mapM_lift_of_forall₂ hall s] at h
    cases h
    exact ⟨hall, rfl⟩
  · rintro ⟨hall, rfl⟩
    exact mapM_lift_of_forall₂ hall s

/-- The absolute step vanishes only with the relative one. -/
theorem absoluteStep_ne_zero {step : α} (h : step ≠ 0) (y : α) : absoluteStep y step ≠ 0 := by
  have hle : 1 ≤ Scalar.max 1 (Scalar.abs y) := by
    rw [Scalar.Exact.max_eq_max]
    exact le_max_left 1 _
  exact mul_ne_zero h (ne_of_gt (zero_lt_one.trans_le hle))

theorem two_ne_zero : (Scalar.two : α) ≠ 0 := ne_of_gt (add_pos zero_lt_one zero_lt_one)

variable {rs : List (Residual ν α σ)} {step : α}

/-- **The difference quotients are the coefficients.** -/
theorem jacobianColumn_of_affine (heval : Evaluates P keys rs (affine M c x.length))
    (hx : x.map Prod.fst = keys) (hstep : step ≠ 0) {j : Nat} (hj : j < x.length) {s : σ}
    (hs : P s) :
    ∃ s', jacobianColumn rs step x j (coordinate x j) s =
      .ok ((List.range rs.length).map fun i => M i j) s' ∧ P s' := by
  set h := absoluteStep (coordinate x j) step with hh
  have hne : Scalar.two * h ≠ 0 := mul_ne_zero two_ne_zero (absoluteStep_ne_zero hstep _)
  obtain ⟨s₁, habove, hs₁⟩ := evaluateAll_of_evaluates
    ((keys_setAt x j (coordinate x j + h)).trans hx) heval hs
  obtain ⟨s₂, hbelow, hs₂⟩ := evaluateAll_of_evaluates
    ((keys_setAt x j (coordinate x j - h)).trans hx) heval hs₁
  refine ⟨s₂, bind_eq_ok.mpr ⟨_, s₁, habove, bind_eq_ok.mpr ⟨_, s₂, hbelow, ?_⟩⟩, hs₂⟩
  refine mapM_lift_of_forall₂ ?_ s₂
  rw [List.zip_map', List.forall₂_map_left_iff, List.forall₂_map_right_iff, List.forall₂_same]
  intro i _
  dsimp only
  rw [affine_setAt hj, affine_setAt hj, divide, if_neg fun h0 => hne (Scalar.Exact.eq_iff.mp h0)]
  congr 1
  rw [div_eq_iff hne, Scalar.two]
  ring

/-- The columns of the Jacobian hold the coefficients of the `affine` functions, whatever the
step. -/
private theorem jacobianColumns_of_affine (heval : Evaluates P keys rs (affine M c x.length))
    (hx : x.map Prod.fst = keys) (hstep : step ≠ 0) :
    ∀ {ys : List (ν × α)} {j : Nat} {s : σ}, x.drop j = ys → P s →
      ∃ s', jacobianColumns rs step x j ys s =
        .ok ((List.range' j ys.length).map fun k => (List.range rs.length).map fun i => M i k) s' ∧
        P s'
  | [], j, s, _, hs => ⟨s, rfl, hs⟩
  | (k, xj) :: ys, j, s, hys, hs => by
    have hget : x[j]? = some (k, xj) := by
      rw [← Nat.add_zero j, ← List.getElem?_drop, hys]
      rfl
    have hj : j < x.length := (List.getElem?_eq_some_iff.mp hget).1
    have hrest : x.drop (j + 1) = ys := by
      rw [← List.drop_drop, hys]
      rfl
    obtain ⟨s₁, hcolumn, hs₁⟩ := jacobianColumn_of_affine heval hx hstep hj hs
    rw [coordinate_eq hget] at hcolumn
    obtain ⟨s₂, hcolumns, hs₂⟩ := jacobianColumns_of_affine heval hx hstep hrest hs₁
    exact ⟨s₂, bind_eq_ok.mpr ⟨_, s₁, hcolumn, bind_eq_ok.mpr ⟨_, s₂, hcolumns, rfl⟩⟩, hs₂⟩

/-- The Jacobian holds the coefficients. -/
theorem jacobian_of_affine (heval : Evaluates P keys rs (affine M c x.length))
    (hx : x.map Prod.fst = keys) (hstep : step ≠ 0) {s : σ} (hs : P s) :
    ∃ J s', jacobian rs step x s = .ok J s' ∧ P s' ∧ J.rows = rs.length ∧ J.cols = x.length ∧
      ∀ i < rs.length, ∀ j < x.length, J.entry i j = M i j := by
  obtain ⟨s', hcolumns, hs'⟩ :=
    jacobianColumns_of_affine heval hx hstep (List.drop_zero (l := x)) hs
  refine ⟨_, s', bind_eq_ok.mpr ⟨_, s', hcolumns, rfl⟩, hs', rfl, by simp [ofColumns],
    fun i hi j hj => ?_⟩
  have hcolumn : ((List.range' 0 x.length).map
      fun k => (List.range rs.length).map fun i => M i k)[j]? =
        some ((List.range rs.length).map fun i => M i j) := by simp [hj]
  exact entry_ofColumns hi hcolumn (by simp [hi])

/-! ### The update -/

/-- The update of a Newton step, entry by entry. -/
theorem newtonUpdate_eq {R : DenseMatrix α} {values : List α} (hcols : R.cols = values.length) :
    newtonUpdate R values =
      (List.range R.rows).map fun j => -R.dot j fun l => (values[l]?).getD 0 := by
  have hrows : ((R.times (DenseMatrix.column values)).neg).rows = R.rows := rfl
  rw [newtonUpdate, DenseMatrix.toList_of_cols_eq_one rfl, hrows]
  refine List.map_congr_left fun j hj => ?_
  have hj := List.mem_range.mp hj
  rw [DenseMatrix.entry_neg (A := R.times (DenseMatrix.column values)) hj Nat.one_pos,
    DenseMatrix.entry_times_eq_dot _ _ hj Nat.one_pos]
  refine congrArg Neg.neg (Finset.sum_congr rfl fun l hl => ?_)
  have hl : l < values.length := hcols ▸ Finset.mem_range.mp hl
  dsimp only
  rw [DenseMatrix.column, DenseMatrix.entry_ofFn _ (by simpa using hl) Nat.one_pos]
  simp [Array.getD_eq_getD_getElem?]

omit [Scalar.Exact α] in
/-- Without bounds `moveBy` adds a multiple of the update to each `coordinate`. -/
private theorem coordinate_moveBy {update : List α} (hlen : update.length = x.length) {j : Nat}
    (hj : j < x.length) (length : α) :
    coordinate (moveBy (fun _ => none) x update length) j =
      coordinate x j + length * (update[j]?).getD 0 := by
  have hju : j < update.length := hlen ▸ hj
  unfold coordinate moveBy
  simp [hj, hju, clamp]

/-- The columns of coefficients are independent. -/
def IndependentColumns (M : Nat → Nat → α) (n : Nat) : Prop :=
  ∀ z : Nat → α, (∀ i < n, ∑ j ∈ Finset.range n, M i j * z j = 0) → ∀ j < n, z j = 0

/-- Where a matrix undoes the coefficients, the update that it makes of the values leads to a
zero. -/
private theorem affine_moveBy_newtonUpdate {R : DenseMatrix α} {values : List α}
    (hcols : R.cols = values.length) (hrows : R.rows = x.length) {i : Nat}
    (hvalue : (values[i]?).getD 0 = affine M c x.length i x)
    (hundoes : ∑ j ∈ Finset.range x.length, M i j * R.dot j (fun l => (values[l]?).getD 0) =
      (values[i]?).getD 0) :
    affine M c x.length i (moveBy (fun _ => none) x (newtonUpdate R values) 1) = 0 := by
  have hlength : (newtonUpdate R values).length = x.length := by
    rw [length_newtonUpdate, hrows]
  have hmove : ∀ j ∈ Finset.range x.length,
      M i j * coordinate (moveBy (fun _ => none) x (newtonUpdate R values) 1) j =
        M i j * coordinate x j - M i j * R.dot j fun l => (values[l]?).getD 0 := by
    intro j hj
    have hj := Finset.mem_range.mp hj
    have hjR : j < R.rows := hj.trans_eq hrows.symm
    have hentry : ((newtonUpdate R values)[j]?).getD 0 =
        -R.dot j fun l => (values[l]?).getD 0 := by
      rw [newtonUpdate_eq hcols]
      simp [hjR]
    rw [coordinate_moveBy hlength hj, hentry]
    ring
  rw [hvalue] at hundoes
  unfold affine at hundoes ⊢
  rw [Finset.sum_congr rfl hmove, Finset.sum_sub_distrib, hundoes]
  ring

/-- **One update leads to a point at which all residuals vanish.** -/
theorem systemUpdate_of_affine {cfg : Config α} (hdamping : cfg.damping = false)
    (hstep : cfg.step ≠ 0) (heval : Evaluates P keys rs (affine M c x.length))
    (hlen : rs.length = x.length) (hx : x.map Prod.fst = keys)
    (hM : IndependentColumns M x.length) {s : σ} (hs : P s) :
    ∃ next s', systemUpdate rs cfg (fun _ => none) x
        ((List.range rs.length).map fun i => affine M c x.length i x) s = .ok next s' ∧ P s' ∧
      next.map Prod.fst = keys ∧ ∀ i < rs.length, affine M c x.length i next = 0 := by
  obtain ⟨J, s', hJ, hs', hrows, hcols, hentry⟩ := jacobian_of_affine heval hx hstep hs
  have hdot : ∀ i < rs.length, ∀ z : Nat → α,
      J.dot i z = ∑ j ∈ Finset.range x.length, M i j * z j := by
    intro i hi z
    unfold DenseMatrix.dot
    rw [hcols]
    exact Finset.sum_congr rfl fun j hj => by rw [hentry i hi j (Finset.mem_range.mp hj)]
  -- The Jacobian holds the coefficients, so its columns are independent too and it has an inverse.
  have hind : J.Independent J.rows := by
    intro z _ hz j hj
    refine hM z (fun i hi => ?_) j (by omega)
    rw [← hdot i (by omega)]
    exact hz i (by omega)
  obtain ⟨R, hR, hRrows, hRcols, hundoes⟩ :=
    DenseMatrix.invertSquare_of_independent (by omega) hind
  set values := (List.range rs.length).map fun i => affine M c x.length i x with hvalues
  have hsuccess : systemUpdate rs cfg (fun _ => none) x values s =
      .ok (moveBy (fun _ => none) x (newtonUpdate R values) 1) s' := by
    refine bind_eq_ok.mpr ⟨J, s', hJ, ?_⟩
    rw [hR]
    dsimp only
    rw [hdamping]
    rfl
  have hlength : (newtonUpdate R values).length = x.length := by
    rw [length_newtonUpdate]
    omega
  refine ⟨_, s', hsuccess, hs', (keys_moveBy hlength).trans hx, fun i hi => ?_⟩
  refine affine_moveBy_newtonUpdate (by simp [hvalues]; omega) (by omega) (by simp [hvalues, hi]) ?_
  rw [← hdot i hi]
  exact hundoes _ i (by omega)

/-! ### The iteration -/

/-- Where all residuals vanish they are small. -/
private theorem maxAbs_lt_of_zeros {values : List α} {margin : α}
    (hmargin : Scalar.lt 0 margin = true)
    (h : ∀ y ∈ values, y = 0) : Scalar.lt (Scalar.maxAbs values) margin = true := by
  refine Scalar.maxAbs_lt hmargin fun y hy => ?_
  rw [h y hy, Scalar.Exact.abs_eq_abs, abs_zero]
  exact hmargin

section

variable (cfg : Config α) {guess : Assignment ν α} {s : σ}
  (hdamping : cfg.damping = false) (hstep : cfg.step ≠ 0)
  (hmargin : Scalar.lt 0 cfg.margin = true) (hlimit : 2 ≤ cfg.limit)
  (heval : Evaluates P (guess.map Prod.fst) rs (affine M c guess.length))
  (hlen : rs.length = guess.length) (hM : IndependentColumns M guess.length) (hs : P s)

include hdamping hstep hmargin hlimit heval hlen hM hs

/-- If the residuals are not small at the guess, an undamped iteration returns the point one update
after it, at which they vanish. -/
theorem solveSystem_of_affine_of_large
    (hlarge : ¬Scalar.lt (Scalar.maxAbs ((List.range rs.length).map fun i =>
      affine M c guess.length i guess)) cfg.margin = true) :
    ∃ next s₁ s₂ s', P s₁ ∧ systemUpdate rs cfg (fun _ => none) guess
        ((List.range rs.length).map fun i => affine M c guess.length i guess) s₁ = .ok next s₂ ∧
      P s₂ ∧ solveSystem rs guess cfg (fun _ => none) s = .ok next s' ∧ P s' ∧
      next.map Prod.fst = guess.map Prod.fst ∧
      ∀ i < rs.length, affine M c guess.length i next = 0 := by
  obtain ⟨s₁, hvalues, hs₁⟩ := evaluateAll_of_evaluates rfl heval hs
  obtain ⟨next, s₂, hnext, hs₂, hkeys, hzero⟩ :=
    systemUpdate_of_affine hdamping hstep heval hlen rfl hM hs₁
  obtain ⟨s₃, hvalues', hs₃⟩ := evaluateAll_of_evaluates hkeys heval hs₂
  have hsmall := maxAbs_lt_of_zeros hmargin (List.forall_mem_map.mpr fun i hi =>
    hzero i (List.mem_range.mp hi))
  have hsolve := solveSystem_of_update hmargin hlen hvalues hlarge hlimit hnext hvalues' hsmall
  exact ⟨next, s₁, s₂, s₃, hs₁, hnext, hs₂, hsolve, hs₃, hkeys, hzero⟩

/-- **An undamped iteration on a system of affine functions succeeds** if the columns of
coefficients are independent, the margin is positive and two iterates may be tried. -/
theorem solveSystem_of_affine :
    ∃ x s', solveSystem rs guess cfg (fun _ => none) s = .ok x s' ∧
      x.map Prod.fst = guess.map Prod.fst ∧ P s' := by
  by_cases hsmall : Scalar.lt (Scalar.maxAbs ((List.range rs.length).map fun i =>
      affine M c guess.length i guess)) cfg.margin = true
  · obtain ⟨s₁, hvalues, hs₁⟩ := evaluateAll_of_evaluates rfl heval hs
    exact ⟨guess, s₁, solveSystem_of_small hmargin hlen (by omega) hvalues hsmall, rfl, hs₁⟩
  · obtain ⟨next, _, _, s', -, -, -, hsolve, hs', hkeys, -⟩ :=
      solveSystem_of_affine_of_large cfg hdamping hstep hmargin hlimit heval hlen hM hs hsmall
    exact ⟨next, s', hsolve, hkeys, hs'⟩

end

end

end FluxBalance.Newton
