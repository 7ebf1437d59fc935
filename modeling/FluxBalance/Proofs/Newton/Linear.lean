import FluxBalance.Proofs.DenseMatrix.TwoSided
import FluxBalance.Proofs.Newton.Affine
import FluxBalance.Proofs.Newton.Bounds

/-!
# Systems of linear equations

A system of linear equations is given by a square matrix of coefficients and a column of constants;
its equations say that `A * y + b` vanishes. An undamped iteration without bounds settles it at
once. If the residuals are not small at the guess already, then either the matrix has an inverse and
one update leads to the only solution, or it has none and the iteration reports that its Jacobian is
singular: the Jacobian is the matrix of coefficients itself, and elimination finds an inverse
whenever there is one.

The equations are partial functions of points. All that is asked of them is that at points that list
the unknowns in their order they have the values of the system; how they look up the values of their
unknowns is theirs.

## Main definitions and results

* `values`, `point`: the values of linear residuals, and points of the unknowns;
* `solveSystem_linear`: how an undamped iteration on linear residuals ends, in three cases.
-/

namespace FluxBalance.Newton

open FluxBalance.Computation
open scoped Matrix

variable {ν α σ : Type} {n : Nat}

/-! ### Points of a system -/

/-- The point with the given values of the given unknowns. -/
def point (unknowns : Fin n → ν) (y : Fin n → α) : Assignment ν α :=
  List.ofFn fun j => (unknowns j, y j)

@[simp] theorem length_point (unknowns : Fin n → ν) (y : Fin n → α) :
    (point unknowns y).length = n := List.length_ofFn

@[simp] theorem keys_point (unknowns : Fin n → ν) (y : Fin n → α) :
    (point unknowns y).map Prod.fst = List.ofFn unknowns := by
  rw [point, List.map_ofFn]
  rfl

@[simp] theorem coordinate_point [Scalar α] (unknowns : Fin n → ν) (y : Fin n → α) (j : Fin n) :
    coordinate (point unknowns y) j = y j := by
  rw [coordinate_eq (u := (unknowns j, y j)) (by simp [point])]

/-- A point that lists the unknowns is given by its coordinates. -/
private theorem eq_point [Scalar α] {unknowns : Fin n → ν} {x : Assignment ν α}
    (hx : x.map Prod.fst = List.ofFn unknowns) :
    x = point unknowns fun j => coordinate x j := by
  have hlen : x.length = n := by simpa using congrArg List.length hx
  refine List.ext_getElem (by simpa using hlen) fun j hj _ => ?_
  have hkey : x[j].1 = unknowns ⟨j, hlen ▸ hj⟩ := by
    have h := List.getElem_of_eq hx (by simpa using hj)
    simpa using h
  have hvalue : coordinate x j = x[j].2 := coordinate_eq (List.getElem?_eq_getElem hj)
  simp only [point, List.getElem_ofFn]
  exact Prod.ext hkey hvalue.symm

/-! ### Linear equations -/

variable [Scalar α] [Scalar.Exact α]

/-- A system of linear equations in as many unknowns. -/
structure LinearSystem (n : Nat) (ν α : Type) [Scalar α] [Scalar.Exact α] where
  /-- The matrix: a row for each equation, a column for each unknown. -/
  coefficients : Matrix (Fin n) (Fin n) α
  /-- What is added to each row. -/
  constants : Fin n → α
  /-- The `unknowns`, in the order of the columns. -/
  unknowns : Fin n → ν
  /-- What the equations are called. -/
  names : Fin n → EquationName
  /-- The equations as functions of points. -/
  functions : Fin n → Assignment ν α → Except (Error α) α
  /-- At points that list the `unknowns`, the functions have the values of the system. -/
  function_point : ∀ i y, functions i (point unknowns y) =
    .ok ((coefficients *ᵥ y + constants) i)

namespace LinearSystem

variable (S : LinearSystem n ν α)

/-- The values of the residuals for the given values of the unknowns. -/
def values (y : Fin n → α) : Fin n → α := S.coefficients *ᵥ y + S.constants

/-- The residuals of the system. -/
def residuals : List (Residual ν α σ) := List.ofFn fun i => .ofFunction (S.names i) (S.functions i)

/-- The coefficients, extended by zeros. -/
def entry (i j : Nat) : α :=
  if h : i < n ∧ j < n then S.coefficients ⟨i, h.1⟩ ⟨j, h.2⟩ else 0

/-- The constants, extended by zeros. -/
def constant (i : Nat) : α := if h : i < n then S.constants ⟨i, h⟩ else 0

@[simp] theorem entry_fin (i j : Fin n) : S.entry i j = S.coefficients i j :=
  dif_pos ⟨i.isLt, j.isLt⟩

@[simp] theorem constant_fin (i : Fin n) : S.constant i = S.constants i := dif_pos i.isLt

@[simp] theorem length_residuals : (S.residuals (σ := σ)).length = n := List.length_ofFn

/-- The functions `affine` at the entries of the system are its `values`. -/
private theorem affine_eq_values (i : Fin n) (x : Assignment ν α) :
    affine S.entry S.constant n i x = S.values (fun j => coordinate x j) i := by
  rw [affine, Finset.sum_range, constant_fin, add_comm]
  simp only [entry_fin]
  rfl

/-- The `residuals` are evaluated without touching the state. -/
theorem evaluates (y : Fin n → α) (s : σ) :
    Evaluates (· = s) ((point S.unknowns y).map Prod.fst) S.residuals
      (affine S.entry S.constant (point S.unknowns y).length) := by
  rw [keys_point, length_point]
  intro i r hi x hx t ht
  obtain ⟨hlt, rfl⟩ := List.getElem?_eq_some_iff.mp hi
  have hn : i < n := by simpa using hlt
  have hvalue : S.functions ⟨i, hn⟩ x = .ok (affine S.entry S.constant n i x) := by
    rw [S.affine_eq_values ⟨i, hn⟩ x, eq_point hx, S.function_point]
    simp only [coordinate_point]
    rfl
  refine ⟨t, ?_, ht⟩
  simp only [residuals, List.getElem_ofFn, Residual.ofFunction, hvalue]
  rfl

/-- At a `point` the list of `residuals` has the `values` of its coordinates. -/
private theorem values_point (y : Fin n → α) :
    ((List.range (S.residuals (σ := σ)).length).map fun i =>
      affine S.entry S.constant n i (point S.unknowns y)) = List.ofFn (S.values y) := by
  rw [length_residuals]
  refine List.ext_getElem (by simp) fun i hi _ => ?_
  have hn : i < n := by simpa using hi
  simp only [List.getElem_map, List.getElem_range, List.getElem_ofFn]
  rw [S.affine_eq_values ⟨i, hn⟩]
  simp only [coordinate_point]

/-- The residuals are small at a point exactly if each of them is. -/
private theorem small_iff {margin : α} (hmargin : Scalar.lt 0 margin = true) (y : Fin n → α) :
    Scalar.lt (Scalar.maxAbs (List.ofFn (S.values y))) margin = true ↔
      ∀ i, Vanishes margin (S.values y i) := by
  constructor
  · intro h i
    exact ⟨Scalar.Exact.isFinite_eq _, Scalar.abs_lt_of_maxAbs_lt
      (fun z _ => Scalar.Exact.isFinite_eq z) h _ (List.mem_ofFn.mpr ⟨i, rfl⟩)⟩
  · intro h
    exact Scalar.maxAbs_lt hmargin (List.forall_mem_ofFn_iff.mpr fun i => (h i).2)

/-! ### Solutions -/

/-- If the coefficients have an inverse, there is one solution. -/
private theorem values_eq_zero_iff (h : IsUnit S.coefficients) (y : Fin n → α) :
    S.values y = 0 ↔ y = -(S.coefficients⁻¹ *ᵥ S.constants) := by
  have hdet : IsUnit S.coefficients.det := (Matrix.isUnit_iff_isUnit_det _).mp h
  rw [values, add_eq_zero_iff_eq_neg]
  constructor
  · intro hy
    rw [← Matrix.mulVec_neg, ← hy, Matrix.mulVec_mulVec, Matrix.nonsing_inv_mul _ hdet,
      Matrix.one_mulVec]
  · rintro rfl
    rw [Matrix.mulVec_neg, Matrix.mulVec_mulVec, Matrix.mul_nonsing_inv _ hdet, Matrix.one_mulVec]

/-- The coefficients of a matrix with an inverse have `IndependentColumns`. -/
private theorem independentColumns (h : IsUnit S.coefficients) : IndependentColumns S.entry n := by
  intro z hz j hj
  have hproduct : S.coefficients *ᵥ (fun j => z j) = 0 := by
    ext i
    have hi := hz i i.isLt
    rw [Finset.sum_range] at hi
    simp only [entry_fin] at hi
    exact hi
  have hzero := Matrix.mulVec_injective_of_isUnit h (hproduct.trans (Matrix.mulVec_zero _).symm)
  exact congrFun hzero ⟨j, hj⟩

/-! ### The iteration -/

variable (cfg : Config α) (s : σ)

/-- The Jacobian is the matrix of coefficients. -/
private theorem jacobian_eq {step : α} (hstep : step ≠ 0) (y : Fin n → α) :
    ∃ J, jacobian (S.residuals (σ := σ)) step (point S.unknowns y) s = .ok J s ∧
      J.rows = n ∧ J.cols = n ∧ J.toMatrix n = S.coefficients := by
  obtain ⟨J, t, hJ, rfl, hrows, hcols, hentry⟩ :=
    jacobian_of_affine (S.evaluates y s) rfl hstep rfl
  simp only [length_residuals, length_point] at hrows hcols hentry
  refine ⟨J, hJ, hrows, hcols, ?_⟩
  ext i j
  rw [DenseMatrix.toMatrix_apply, hentry i i.isLt j j.isLt, entry_fin]

/-- Without an inverse of the coefficients no update is found. -/
private theorem systemUpdate_of_not_isUnit (hstep : cfg.step ≠ 0) (h : ¬IsUnit S.coefficients)
    (y : Fin n → α) (bounds : Bounds ν α) (ys : List α) :
    ∃ outcome, outcome ≠ .success ∧
      systemUpdate S.residuals cfg bounds (point S.unknowns y) ys s =
        .error (.singularJacobian outcome) s := by
  obtain ⟨J, hJ, hrows, hcols, hmatrix⟩ := S.jacobian_eq s hstep y
  have hfail : J.invertSquare.1 ≠ .success := by
    rwa [ne_eq, DenseMatrix.success_iff_isUnit hrows hcols, hmatrix]
  refine ⟨_, hfail, ?_⟩
  rw [systemUpdate, bind_apply, hJ]
  dsimp only
  rw [if_pos hfail]
  rfl

/-- **Linear equations are settled by one update.** An undamped iteration without bounds, which may
try two iterates, returns the guess itself if all `residuals` are below the margin there. Otherwise,
if the matrix of coefficients has an inverse, it returns the only solution, to which the first
update leads; and if the matrix has none, it fails because the Jacobian is singular. -/
theorem solveSystem_linear (hdamping : cfg.damping = false) (hstep : cfg.step ≠ 0)
    (hmargin : Scalar.lt 0 cfg.margin = true) (hlimit : 2 ≤ cfg.limit) (guess : Fin n → α) :
    ((∀ i, Vanishes cfg.margin (S.values guess i)) →
      solveSystem S.residuals (point S.unknowns guess) cfg (fun _ => none) s =
        .ok (point S.unknowns guess) s) ∧
    ((∃ i, ¬Vanishes cfg.margin (S.values guess i)) → IsUnit S.coefficients →
      systemUpdate S.residuals cfg (fun _ => none) (point S.unknowns guess)
          (List.ofFn (S.values guess)) s =
        .ok (point S.unknowns (-(S.coefficients⁻¹ *ᵥ S.constants))) s ∧
      solveSystem S.residuals (point S.unknowns guess) cfg (fun _ => none) s =
        .ok (point S.unknowns (-(S.coefficients⁻¹ *ᵥ S.constants))) s ∧
      ∀ y, S.values y = 0 ↔ y = -(S.coefficients⁻¹ *ᵥ S.constants)) ∧
    ((∃ i, ¬Vanishes cfg.margin (S.values guess i)) → ¬IsUnit S.coefficients →
      ∃ outcome, outcome ≠ .success ∧
        solveSystem S.residuals (point S.unknowns guess) cfg (fun _ => none) s =
          .error (.singularJacobian outcome) s) := by
  have hlen : (S.residuals (σ := σ)).length = (point S.unknowns guess).length := by simp
  obtain ⟨t, hvalues, rfl⟩ := evaluateAll_of_evaluates rfl (S.evaluates guess s) rfl
  rw [length_point, S.values_point] at hvalues
  have hlarge : (∃ i, ¬Vanishes cfg.margin (S.values guess i)) →
      ¬Scalar.lt (Scalar.maxAbs (List.ofFn (S.values guess))) cfg.margin = true := by
    rintro ⟨i, hi⟩ h
    exact hi ((S.small_iff hmargin guess).mp h i)
  refine ⟨fun hsmall => ?_, fun hi hunit => ?_, fun hi hunit => ?_⟩
  · exact solveSystem_of_small hmargin hlen (by omega) hvalues
      ((S.small_iff hmargin guess).mpr hsmall)
  · have hind : IndependentColumns S.entry (point S.unknowns guess).length := by
      rw [length_point]
      exact S.independentColumns hunit
    obtain ⟨next, s₁, s₂, s₃, rfl, hnext, rfl, hsolve, rfl, hkeys, hzero⟩ :=
      solveSystem_of_affine_of_large cfg hdamping hstep hmargin hlimit (S.evaluates guess t) hlen
        hind rfl (by rw [length_point, S.values_point]; exact hlarge hi)
    rw [length_point, S.values_point] at hnext
    rw [length_point] at hzero
    -- The point that is reached is the solution, of which there is only one.
    have hpoint := eq_point (hkeys.trans (keys_point _ _))
    have hsolution : S.values (fun j => coordinate next j) = 0 := by
      ext i
      rw [← S.affine_eq_values, hzero i (by simp), Pi.zero_apply]
    rw [(S.values_eq_zero_iff hunit _).mp hsolution] at hpoint
    rw [← hpoint]
    exact ⟨hnext, hsolve, S.values_eq_zero_iff hunit⟩
  · obtain ⟨outcome, houtcome, hupdate⟩ :=
      S.systemUpdate_of_not_isUnit cfg t hstep hunit guess (fun _ => none)
        (List.ofFn (S.values guess))
    exact ⟨outcome, houtcome,
      solveSystem_of_update_error hmargin hlen hvalues (hlarge hi) (by omega) hupdate⟩

end LinearSystem

omit [Scalar α] [Scalar.Exact α] in
/-- The value of an unknown at a point. -/
def lookUp (x : Assignment String α) (name : String) : Except (Error α) α :=
  match x.lookup name with
  | some y => .ok y
  | none => .error (.domain .notEvaluable)

/-- Two equations in `x` and `y`. -/
def plane (A : DenseMatrix α) (b : Fin 2 → α) : LinearSystem 2 String α where
  coefficients := A.toMatrix 2
  constants := b
  unknowns := !["x", "y"]
  names i := .position i
  functions i x := do return A.entry i 0 * (← lookUp x "x") + A.entry i 1 * (← lookUp x "y") + b i
  function_point i y := by
    rw [Pi.add_apply, Matrix.mulVec, dotProduct, Fin.sum_univ_two]
    rfl

/-- The coefficients of `x + 2 y` and `3 x + 4 y`. -/
def skew : DenseMatrix Rat := .ofFn 2 2 fun i j => (#[#[1, 2], #[3, 4]].getD i #[]).getD j 0

/-- The coefficients of `x + 2 y` and `2 x + 4 y`. -/
def parallel : DenseMatrix Rat := .ofFn 2 2 fun i j => (#[#[1, 2], #[2, 4]].getD i #[]).getD j 0

/-- The three cases: `skew` lines are solved by one update, a guess within the margin stays, and for
`parallel` lines there is no update. -/
theorem solveSystem_plane :
    solveSystem (plane skew ![-5, -11]).residuals [("x", 0), ("y", 7)] (.ofMargin 1 2)
      (fun _ => none) () = .ok [("x", 1), ("y", 2)] () ∧
    solveSystem (plane skew ![-5, -11]).residuals [("x", 1), ("y", mkRat 9 4)] (.ofMargin 2 2)
      (fun _ => none) () = .ok [("x", 1), ("y", mkRat 9 4)] () ∧
    ∃ outcome, solveSystem (plane parallel ![-5, -11]).residuals [("x", 0), ("y", 7)]
      (.ofMargin 1 2) (fun _ => none) () = .error (.singularJacobian outcome) () := by
  have hstep : (defaultStep : Rat) ≠ 0 := by decide
  have hunit : IsUnit (plane skew ![-5, -11]).coefficients :=
    (DenseMatrix.success_iff_isUnit (A := skew) rfl rfl).mp (by decide +kernel)
  have hsingular : ¬IsUnit (plane parallel ![-5, -11]).coefficients := fun h =>
    absurd ((DenseMatrix.success_iff_isUnit (A := parallel) rfl rfl).mpr h) (by decide +kernel)
  have hlarge : ¬Vanishes 1 ((plane skew ![-5, -11]).values ![0, 7] 0) := by
    unfold Vanishes
    decide +kernel
  have hlarge' : ¬Vanishes 1 ((plane parallel ![-5, -11]).values ![0, 7] 0) := by
    unfold Vanishes
    decide +kernel
  have hsmall : ∀ i, Vanishes 2 ((plane skew ![-5, -11]).values ![1, mkRat 9 4] i) := by
    unfold Vanishes
    decide +kernel
  have hroot : (plane skew ![-5, -11]).values ![1, 2] = 0 := by
    ext i
    fin_cases i <;> decide +kernel
  obtain ⟨-, hsolution, -⟩ := (plane skew ![-5, -11]).solveSystem_linear (.ofMargin 1 2) ()
    rfl hstep (by decide) (by decide) ![0, 7]
  obtain ⟨hguess, -, -⟩ := (plane skew ![-5, -11]).solveSystem_linear (.ofMargin 2 2) ()
    rfl hstep (by decide) (by decide) ![1, mkRat 9 4]
  obtain ⟨-, -, herror⟩ := (plane parallel ![-5, -11]).solveSystem_linear (.ofMargin 1 2) ()
    rfl hstep (by decide) (by decide) ![0, 7]
  obtain ⟨-, hsolved, honly⟩ := hsolution ⟨0, hlarge⟩ hunit
  rw [← (honly ![1, 2]).mp hroot] at hsolved
  obtain ⟨outcome, -, hfails⟩ := herror ⟨0, hlarge'⟩ hsingular
  exact ⟨hsolved, hguess hsmall, outcome, hfails⟩

end FluxBalance.Newton
