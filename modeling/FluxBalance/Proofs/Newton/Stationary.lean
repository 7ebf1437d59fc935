import FluxBalance.Proofs.DenseMatrix.Singular
import FluxBalance.Proofs.Newton.Convergence
import FluxBalance.Proofs.Scalar.Lawful

/-!
# Residuals that do not vary

A residual without unknowns has the same value everywhere. Its difference quotients vanish, so its
row of the Jacobian holds zeros and the Jacobian is not inverted. An iteration with such a residual
makes no step: either it returns the point that it starts from, or it fails.

## Main definitions and results

* `Residual.Steady`: a residual with the same value at all points;
* `invertSquare_jacobian_ne_success`: its row of the Jacobian is zero, so there is no update;
* `eq_of_solveSystem_of_steady`: the system is solved by its guess only.
-/

namespace FluxBalance.Newton

open FluxBalance.Computation

variable {ν α σ : Type} [Scalar α]

/-- The residual has the same value at all points. -/
def Residual.Steady (r : Residual ν α σ) : Prop :=
  ∃ v : Except (Error α) α, ∀ x, r.value x = lift v

/-! ### Parts of a Jacobian -/

omit [Scalar α] in
/-- A list of lifted results succeeds only if each of them does. -/
theorem forall₂_of_mapM_lift {β γ : Type} {f : β → Except (Error α) γ} :
    ∀ {ps : List β} {s s' : σ} {ys : List γ},
      (ps.mapM fun p => (lift (f p) : EStateM (Error α) σ γ)) s = .ok ys s' →
      List.Forall₂ (fun p y => f p = .ok y) ps ys
  | [], s, s', ys, h => by
    rw [List.mapM_nil] at h
    obtain ⟨rfl, -⟩ := pure_eq_ok.mp h
    exact .nil
  | p :: ps, s, s', ys, h => by
    rw [List.mapM_cons] at h
    obtain ⟨y, s₁, hy, h⟩ := bind_eq_ok.mp h
    obtain ⟨ys', s₂, hys, h⟩ := bind_eq_ok.mp h
    obtain ⟨rfl, -⟩ := pure_eq_ok.mp h
    refine .cons ?_ (forall₂_of_mapM_lift hys)
    cases hf : f p with
    | ok z =>
      rw [hf] at hy
      rw [(pure_eq_ok.mp hy).1]
    | error e =>
      rw [hf] at hy
      cases hy

/-- The columns of a Jacobian, each one from its own direction. -/
private theorem jacobianColumns_eq_ok {rs : List (Residual ν α σ)} {step : α} {x : Assignment ν α} :
    ∀ {ys : List (ν × α)} {j : Nat} {s s' : σ} {columns : List (List α)},
      jacobianColumns rs step x j ys s = .ok columns s' →
      columns.length = ys.length ∧ ∀ column ∈ columns, ∃ i xi s₀ s₁,
        jacobianColumn rs step x i xi s₀ = .ok column s₁
  | [], j, s, s', columns, h => by
    obtain ⟨rfl, -⟩ := pure_eq_ok.mp h
    exact ⟨rfl, by simp⟩
  | (_, xj) :: rest, j, s, s', columns, h => by
    obtain ⟨column, s₁, hcolumn, h⟩ := bind_eq_ok.mp h
    obtain ⟨columns', s₂, hcolumns, h⟩ := bind_eq_ok.mp h
    obtain ⟨rfl, -⟩ := pure_eq_ok.mp h
    obtain ⟨hlen, hall⟩ := jacobianColumns_eq_ok hcolumns
    exact ⟨congrArg (· + 1) hlen, List.forall_mem_cons.mpr ⟨⟨j, xj, s, s₁, hcolumn⟩, hall⟩⟩

/-- The entries of `ofColumns` are the numbers of the columns. -/
theorem entry_ofColumns {n : Nat} {columns : List (List α)} {column : List α} {i j : Nat}
    {d : α} (hi : i < n) (hj : columns[j]? = some column) (hd : column[i]? = some d) :
    (ofColumns n columns).entry i j = d := by
  have hlt : j < columns.length := (List.getElem?_eq_some_iff.mp hj).1
  rw [ofColumns, DenseMatrix.entry_ofFn _ hi (by simpa using hlt)]
  simp [Array.getD_eq_getD_getElem?, hj, hd]

/-- The Jacobian has a row for each residual and a column for each unknown. -/
private theorem shape_jacobian {rs : List (Residual ν α σ)} {step : α} {x : Assignment ν α}
    {J : DenseMatrix α} {s s' : σ} (h : jacobian rs step x s = .ok J s') :
    J.shape = (rs.length, x.length) := by
  obtain ⟨columns, s₁, hcolumns, h⟩ := bind_eq_ok.mp h
  obtain ⟨rfl, -⟩ := pure_eq_ok.mp h
  rw [← (jacobianColumns_eq_ok hcolumns).1, ofColumns, DenseMatrix.shape]
  simp

/-- **The matrices of an update fit.** For as many residuals as unknowns, no check of a shape fails
when the Jacobian is inverted and the inverse is multiplied by the residuals. -/
theorem update_fits {rs : List (Residual ν α σ)} {step : α} {x : Assignment ν α}
    {J : DenseMatrix α} {s s' : σ} (h : jacobian rs step x s = .ok J s')
    (hlen : rs.length = x.length) {values : List α} (hvalues : values.length = rs.length) :
    J.tryInvert = .ok J.invertSquare ∧
      J.invertSquare.2.product (.column values) =
        .ok (J.invertSquare.2.times (.column values)) := by
  have hrows : J.rows = rs.length := congrArg Prod.fst (shape_jacobian h)
  have hcols : J.cols = J.rows := (congrArg Prod.snd (shape_jacobian h)).trans (by omega)
  constructor
  · rw [DenseMatrix.tryInvert, if_pos (by rw [DenseMatrix.isSquare, hcols, beq_self_eq_true])]
  · refine DenseMatrix.product_eq_ok_iff.mpr ⟨?_, rfl⟩
    rw [DenseMatrix.cols_invertSquare hcols, hrows, ← hvalues]
    rfl

/-! ### Steady residuals -/

variable [Scalar.Lawful α]

/-- The difference quotients of a `Steady` residual vanish where they are finite. -/
private theorem quotient_of_steady {rs : List (Residual ν α σ)} {r : Residual ν α σ} {i : Nat}
    (hi : rs[i]? = some r) (hr : r.Steady) {step : α} {x : Assignment ν α} {j : Nat} {xj : α}
    {s s' : σ} {column : List α} (h : jacobianColumn rs step x j xj s = .ok column s') :
    ∃ d, column[i]? = some d ∧ (Scalar.isFinite d = true → Scalar.eq d 0 = true) := by
  obtain ⟨v, hv⟩ := hr
  obtain ⟨above, s₁, habove, h⟩ := bind_eq_ok.mp h
  obtain ⟨below, s₂, hbelow, h⟩ := bind_eq_ok.mp h
  obtain ⟨_, c, _, -, hc, hfin, hia⟩ :=
    getElem?_of_evaluateAll (over_true _) (residualsKeep_true rs) trivial habove hi
  obtain ⟨_, c', _, -, hc', -, hib⟩ :=
    getElem?_of_evaluateAll (over_true _) (residualsKeep_true rs) trivial hbelow hi
  rw [hv] at hc hc'
  obtain ⟨rfl, rfl⟩ : v = .ok c ∧ c' = c := by
    cases v with
    | ok y =>
      obtain ⟨rfl, -⟩ := pure_eq_ok.mp hc
      obtain ⟨rfl, -⟩ := pure_eq_ok.mp hc'
      exact ⟨rfl, rfl⟩
    | error e => cases hc
  -- Above and below, the residual has one and the same value.
  have hquotients := forall₂_of_mapM_lift h
  obtain ⟨hlen, hget⟩ := List.forall₂_iff_get.mp hquotients
  have hzip : (above.zip below)[i]? = some (c', c') := by
    rw [List.getElem?_zip_eq_some]
    exact ⟨hia, hib⟩
  obtain ⟨hlt, hzip⟩ := List.getElem?_eq_some_iff.mp hzip
  have hd := hget i hlt (hlen ▸ hlt)
  rw [List.get_eq_getElem, List.get_eq_getElem, hzip] at hd
  refine ⟨_, List.getElem?_eq_getElem (hlen ▸ hlt), fun hdfin => ?_⟩
  unfold divide at hd
  dsimp only at hd
  split at hd
  · cases hd
  · rw [← Except.ok.inj hd] at hdfin ⊢
    exact Scalar.Lawful.zero_div (Scalar.Lawful.sub_self hfin) hdfin

/-- **The Jacobian of a system with a `Steady` residual is not inverted.** -/
theorem invertSquare_jacobian_ne_success {rs : List (Residual ν α σ)} {r : Residual ν α σ}
    (hmem : r ∈ rs) (hr : r.Steady) {step : α} {x : Assignment ν α} (hlen : rs.length = x.length)
    {s s' : σ} {J : DenseMatrix α} (h : jacobian rs step x s = .ok J s') :
    J.invertSquare.1 ≠ .success := by
  obtain ⟨columns, s₁, hcolumns, h⟩ := bind_eq_ok.mp h
  obtain ⟨rfl, -⟩ := pure_eq_ok.mp h
  obtain ⟨hcount, hall⟩ := jacobianColumns_eq_ok hcolumns
  obtain ⟨i, hlt, rfl⟩ := List.mem_iff_getElem.mp hmem
  set J := ofColumns rs.length columns with hJ
  have hcols : J.cols = rs.length := by
    rw [hlen, ← hcount]
    simp [hJ, ofColumns]
  -- A matrix with an entry that is not finite is not inverted anyway.
  by_cases hfin : J.allFinite = true
  · refine DenseMatrix.invertSquare_ne_success (q := i) hcols.symm ⟨hlt, fun j hj => ?_⟩
    have hj : j < columns.length := by
      rw [hcount, ← hlen]
      exact hj
    obtain ⟨k, xk, s₀, s₂, hcolumn⟩ := hall columns[j] (List.getElem_mem hj)
    obtain ⟨d, hd, hzero⟩ := quotient_of_steady (List.getElem?_eq_getElem hlt) hr hcolumn
    have hentry : J.entry i j = d := entry_ofColumns hlt (List.getElem?_eq_getElem hj) hd
    rw [hentry]
    refine hzero ?_
    rw [← hentry]
    exact List.all_eq_true.mp hfin _ (J.entry_mem_toList hlt (hcols ▸ hlen ▸ hcount ▸ hj))
  · intro hsuccess
    unfold DenseMatrix.invertSquare at hsuccess
    dsimp only at hsuccess
    rw [if_neg (show J.rows ≠ 0 from Nat.ne_of_gt (Nat.zero_lt_of_lt hlt)),
      if_pos (by simpa using hfin)] at hsuccess
    cases hsuccess

/-- A system with a `Steady` residual is not updated. -/
private theorem systemUpdate_ne_ok {rs : List (Residual ν α σ)} {r : Residual ν α σ}
    (hmem : r ∈ rs) (hr : r.Steady) {cfg : Config α} {bounds : Bounds ν α}
    {x x' : Assignment ν α} (hlen : rs.length = x.length) {values : List α} {s s' : σ} :
    systemUpdate rs cfg bounds x values s ≠ .ok x' s' := by
  intro h
  obtain ⟨J, s₁, hJ, h⟩ := bind_eq_ok.mp h
  exact (guard_eq_ok.mp h).1 (invertSquare_jacobian_ne_success hmem hr hlen hJ)

/-- **If a system with a `Steady` residual is solved, it is solved by the point it starts from**,
the guess moved into the bounds. -/
theorem eq_of_solveSystem_of_steady {rs : List (Residual ν α σ)} {r : Residual ν α σ}
    (hmem : r ∈ rs) (hr : r.Steady) {guess x : Assignment ν α} {cfg : Config α}
    {bounds : Bounds ν α} {s s' : σ} (h : solveSystem rs guess cfg bounds s = .ok x s') :
    x = guess.map fun u => (u.1, clamp u.2 (bounds u.1)) := by
  obtain ⟨-, hlen, h⟩ := solveSystem_eq_ok_iff.mp h
  cases hn : cfg.limit.toNat with
  | zero =>
    rw [hn] at h
    cases h
  | succ n =>
    rw [hn] at h
    obtain ⟨values, s₂, -, h⟩ := bind_eq_ok.mp h
    split at h
    · exact (pure_eq_ok.mp h).1.symm
    · obtain ⟨next, s₃, hnext, -⟩ := bind_eq_ok.mp h
      exact absurd hnext (systemUpdate_ne_ok hmem hr (by simpa using hlen))

end FluxBalance.Newton
